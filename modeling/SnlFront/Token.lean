import SnlFront.Position

/-!
# Tokens

The vocabulary of SNL: identifiers, natural numbers, reserved words and punctuation marks. Every
token has a label, which names its class in a token listing, and a text, which is how it is written
in a program.

## Main definitions

* `Keyword`, `Mark`: the two closed parts of the vocabulary.
* `Token`: a word of the language.
* `Keyword.ofText?`, `Token.ofWord`: reserved words are told from identifiers by spelling alone.
* `Token.listing`: the line of a token in a token listing.
-/

namespace SnlFront

/-- The reserved words. -/
inductive Keyword
  | program | type | var | procedure | begin | end | array | of | record | integer | char
  | if | then | else | fi | while | do | endwh | read | write | return
deriving DecidableEq, Repr

namespace Keyword

/-- How a reserved word is written. -/
def text : Keyword → String
  | .program => "program"
  | .type => "type"
  | .var => "var"
  | .procedure => "procedure"
  | .begin => "begin"
  | .end => "end"
  | .array => "array"
  | .of => "of"
  | .record => "record"
  | .integer => "integer"
  | .char => "char"
  | .if => "if"
  | .then => "then"
  | .else => "else"
  | .fi => "fi"
  | .while => "while"
  | .do => "do"
  | .endwh => "endwh"
  | .read => "read"
  | .write => "write"
  | .return => "return"

/-- The name of a reserved word's class in a token listing. -/
def label : Keyword → String
  | .program => "PROGRAM"
  | .type => "TYPE"
  | .var => "VAR"
  | .procedure => "PROCEDURE"
  | .begin => "BEGIN"
  | .end => "END"
  | .array => "ARRAY"
  | .of => "OF"
  | .record => "RECORD"
  | .integer => "INTEGER"
  | .char => "CHAR"
  | .if => "IF"
  | .then => "THEN"
  | .else => "ELSE"
  | .fi => "FI"
  | .while => "WHILE"
  | .do => "DO"
  | .endwh => "ENDWH"
  | .read => "READ"
  | .write => "WRITE"
  | .return => "RETURN"

/-- All reserved words. -/
def all : List Keyword :=
  [.program, .type, .var, .procedure, .begin, .end, .array, .of, .record, .integer, .char,
   .if, .then, .else, .fi, .while, .do, .endwh, .read, .write, .return]

/-- The reserved word with a spelling. Upper-case letters are never reserved. -/
def ofText? (s : String) : Option Keyword := all.find? fun k => k.text == s

theorem mem_all (k : Keyword) : k ∈ all := by cases k <;> decide

end Keyword

/-- The punctuation marks and operators. -/
inductive Mark
  | lparen | rparen | lbracket | rbracket | comma | semi | dot | range | assign
  | plus | minus | times | over | less | equal
deriving DecidableEq, Repr

namespace Mark

/-- How a mark is written. -/
def text : Mark → String
  | .lparen => "("
  | .rparen => ")"
  | .lbracket => "["
  | .rbracket => "]"
  | .comma => ","
  | .semi => ";"
  | .dot => "."
  | .range => ".."
  | .assign => ":="
  | .plus => "+"
  | .minus => "-"
  | .times => "*"
  | .over => "/"
  | .less => "<"
  | .equal => "="

/-- The name of a mark's class in a token listing. -/
def label : Mark → String
  | .lparen => "LPAREN"
  | .rparen => "RPAREN"
  | .lbracket => "LMIDPAREN"
  | .rbracket => "RMIDPAREN"
  | .comma => "COMMA"
  | .semi => "SEMI"
  | .dot => "DOT"
  | .range => "UNDERANGE"
  | .assign => "ASSIGN"
  | .plus => "PLUS"
  | .minus => "MINUS"
  | .times => "TIMES"
  | .over => "OVER"
  | .less => "LT"
  | .equal => "EQ"

/-- The mark written by a single character. The two longer marks start with a character that is
looked at first, see `Lexeme.first`. -/
def ofChar? : Char → Option Mark
  | '(' => some .lparen
  | ')' => some .rparen
  | '[' => some .lbracket
  | ']' => some .rbracket
  | ',' => some .comma
  | ';' => some .semi
  | '.' => some .dot
  | '+' => some .plus
  | '-' => some .minus
  | '*' => some .times
  | '/' => some .over
  | '<' => some .less
  | '=' => some .equal
  | _ => none

theorem toList_text_ne_nil (m : Mark) : m.text.toList ≠ [] := by cases m <;> decide

/-- A mark of one character is written as that character. -/
theorem toList_text_of_ofChar? {c : Char} {m : Mark} (h : ofChar? c = some m) :
    m.text.toList = [c] := by
  unfold ofChar? at h
  split at h <;> cases h <;> rfl

end Mark

/-- A word of the language. -/
inductive Token
  | ident (name : String)
  | number (value : Nat)
  | keyword (word : Keyword)
  | mark (mark : Mark)
deriving DecidableEq, Repr

namespace Token

/-- The token of a word: reserved, or else an identifier. -/
def ofWord (s : String) : Token :=
  match Keyword.ofText? s with
  | some k => .keyword k
  | none => .ident s

/-- The name of the token's class. -/
def label : Token → String
  | .ident _ => "IDENT"
  | .number _ => "INTC"
  | .keyword k => k.label
  | .mark m => m.label

/-- How the token is written; a number without leading zeros. -/
def text : Token → String
  | .ident name => name
  | .number n => toString n
  | .keyword k => k.text
  | .mark m => m.text

/-- The line of a token in a token listing: its source line and class, and for identifiers and
numbers also the text. -/
def listing (t : Located Token) : String :=
  let head := toString t.pos.line ++ "\t" ++ t.value.label
  match t.value with
  | .ident name => head ++ "\t" ++ name
  | .number n => head ++ "\t" ++ toString n
  | _ => head

end Token

end SnlFront
