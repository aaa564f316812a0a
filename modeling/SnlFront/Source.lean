import SnlFront.Lexeme
import SnlFront.Parsing.Recovery

/-!
# Reading a source text

A source text is read lexeme by lexeme, either to list its tokens or to build its program. Both ways
take notice of illegal characters as they meet them, and both break off at a number that has too
many digits; what was noted before that stands.

## Main definitions

* `meanings`: the located lexemes of a text by what they stand for.
* `listTokens`: the tokens of a text, all of them or the first few.
* `readProgram`: the program of a text.
-/

namespace SnlFront

/-- A number with more digits than are read. -/
structure OverlongNumber where
  digits : Nat
deriving DecidableEq, Repr

/-- What the lexemes of a text stand for, in order. -/
def meanings (cs : List Char) : List (Located Meaning) := (scan cs).map (·.map Lexeme.meaning)

/-! ## Listing tokens -/

/-- The tokens of a text, what was noted on the way, and the number at which the listing broke off,
if any. -/
structure Listing where
  tokens : List (Located Token)
  notices : List Notice
  broken : Option OverlongNumber
deriving DecidableEq, Repr

namespace Listing

/-- The listing of nothing. -/
def empty : Listing := ⟨[], [], none⟩

/-- A listing with a token in front. -/
def addToken (t : Located Token) (l : Listing) : Listing := { l with tokens := t :: l.tokens }

/-- A listing with a notice in front. -/
def addNotice (n : Notice) (l : Listing) : Listing := { l with notices := n :: l.notices }

/-- List tokens up to a limit. Reading ends right behind the last token wanted, so nothing after it
is noted. -/
def ofMeanings : Option Nat → List (Located Meaning) → Listing
  | some 0, _ => empty
  | _, [] => empty
  | limit, x :: xs =>
    match x.value with
    | .layout => ofMeanings limit xs
    | .illegal c => (ofMeanings limit xs).addNotice (.illegal ⟨x.pos, c⟩)
    | .overlong digits => ⟨[], [], some ⟨digits⟩⟩
    | .token t => (ofMeanings (limit.map (· - 1)) xs).addToken ⟨x.pos, t⟩

end Listing

/-- The tokens of a text, or the first few of them. -/
def listTokens (text : String) (limit : Option Nat) : Listing :=
  .ofMeanings limit (meanings text.toList)

/-! ## Reading a program -/

/-- What comes of reading a text: what was noted on the way, and the program, unless the reading
broke off or the text does not end with a program. -/
structure Reading where
  notices : List Notice
  program : Except OverlongNumber (Option (Located Program))

namespace Reading

/-- A reading with notices in front. -/
def addNotices (ns : List Notice) (r : Reading) : Reading := { r with notices := ns ++ r.notices }

open Parsing in
/-- Read on from a state. -/
def ofMeanings (r : Reader) : List (Located Meaning) → Reading
  | [] => ⟨r.finish.2, .ok r.finish.1⟩
  | x :: xs =>
    match x.value with
    | .layout => ofMeanings r xs
    | .illegal c => (ofMeanings r xs).addNotices [.illegal ⟨x.pos, c⟩]
    | .overlong digits => ⟨[], .error ⟨digits⟩⟩
    | .token t =>
      let next := r.push ⟨x.pos, t⟩
      (ofMeanings next.1 xs).addNotices next.2

end Reading

/-- Read a list of tokens. -/
def readTokens (ts : List (Located Token)) : Reading :=
  .ofMeanings .start (ts.map (·.map Meaning.token))

/-- Read a source text. -/
def readProgram (text : String) : Reading := .ofMeanings .start (meanings text.toList)

end SnlFront
