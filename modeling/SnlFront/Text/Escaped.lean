import SnlFront.Text.Quoted

/-!
# Escaped text

Text in a data listing stands between double quotes and uses printable ASCII only. Every other
character is escaped: the common controls by a letter, and the rest by UTF-16 code units in
hexadecimal, so that a character beyond the basic plane takes two escapes.
-/

namespace SnlFront.Text

/-- An escaped UTF-16 code unit. -/
def escapeUnit (n : Nat) : List Char := '\\' :: 'u' :: hexDigits 4 n

/-- One character of escaped text. -/
def escapeChar (c : Char) : List Char :=
  if c = '"' ∨ c = '\\' then ['\\', c]
  else if ' ' ≤ c ∧ c ≤ '~' then [c]
  else if c = '\n' then ['\\', 'n']
  else if c = '\r' then ['\\', 'r']
  else if c = '\t' then ['\\', 't']
  else if c = '\x08' then ['\\', 'b']
  else if c = '\x0c' then ['\\', 'f']
  else if c.toNat < 0x10000 then escapeUnit c.toNat
  else
    let beyond := c.toNat - 0x10000
    escapeUnit (0xd800 + beyond / 0x400) ++ escapeUnit (0xdc00 + beyond % 0x400)

/-- Text between double quotes. -/
def escaped (cs : List Char) : List Char := '"' :: cs.flatMap escapeChar ++ ['"']

example : escaped "a\"é😀".toList = "\"a\\\"\\u00e9\\ud83d\\ude00\"".toList := by decide +kernel

end SnlFront.Text
