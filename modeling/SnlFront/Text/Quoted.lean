import SnlFront.Text.Printable

/-!
# Quoted text

A message that shows a text given by the user puts it between quotes and escapes what would not be
seen. The quotes are single unless the text holds a single quote and no double quote, so that most
texts need no escaped quote.

## Main definitions

* `hexDigits`: a number in lower-case hexadecimal, padded to a width.
* `quoted`: a text between quotes.
-/

namespace SnlFront.Text

/-- The lower-case hexadecimal digits of a number, padded with zeros to a width. -/
def hexDigits (width n : Nat) : List Char :=
  let digits := Nat.toDigits 16 n
  List.replicate (width - digits.length) '0' ++ digits

/-- One character between quotes `q`: line breaks, tabs, backslashes and the quote itself are
escaped by a backslash, other unprintable characters by their code point. -/
def quoteChar (q c : Char) : List Char :=
  if c = q ∨ c = '\\' then ['\\', c]
  else if c = '\n' then ['\\', 'n']
  else if c = '\r' then ['\\', 'r']
  else if c = '\t' then ['\\', 't']
  else if isPrintable c then [c]
  else if c.toNat < 0x100 then '\\' :: 'x' :: hexDigits 2 c.toNat
  else if c.toNat < 0x10000 then '\\' :: 'u' :: hexDigits 4 c.toNat
  else '\\' :: 'U' :: hexDigits 8 c.toNat

/-- The quote that a text is put between. -/
def quoteMark (cs : List Char) : Char :=
  if '\'' ∈ cs ∧ '"' ∉ cs then '"' else '\''

/-- A text between quotes, with everything visible. -/
def quoted (s : String) : String :=
  let q := quoteMark s.toList
  String.ofList (q :: s.toList.flatMap (quoteChar q) ++ [q])

example : quoteMark ['i', 't', '\'', 's'] = '"' := by decide
example : quoteMark ['"', '\'', '"'] = '\'' := by decide
example : quoteChar '\'' '\'' = ['\\', '\''] := rfl
example : quoteChar '"' '\n' = ['\\', 'n'] := rfl
example : hexDigits 4 0x200b = ['2', '0', '0', 'b'] := by decide +kernel

end SnlFront.Text
