import SnlFront.Notice
import SnlFront.Parsing.State

/-!
# Recovery from syntax errors

A token that continues no program is dropped together with everything read before it, and reading
starts over behind it. So the program that is found, if any, is the one that ends the text. To keep
one mistake from causing a flood of notices, an error is only noted when no error came before it or
at least three tokens have been accepted since the last one, noted or not.

## Main definitions

* `Reader`: an unfinished program and how long errors stay silent.
* `Reader.push`: read one token.
* `Reader.finish`: what comes of it at the end of the text.
-/

namespace SnlFront.Parsing

/-- The state of reading: an unfinished program, and how many tokens still have to be accepted
before an error is noted again. -/
structure Reader where
  state : State
  silence : Nat

namespace Reader

/-- How many tokens have to be accepted after an error before the next one is noted. -/
def quietTokens : Nat := 3

/-- The state before the first token. -/
def start : Reader := ⟨.empty, 0⟩

/-- The state behind an error. -/
def restart : Reader := ⟨.empty, quietTokens⟩

/-- A notice, unless errors are silent. -/
def note (r : Reader) (n : Notice) : List Notice := if r.silence = 0 then [n] else []

/-- Read one token: the state behind it, and what is noted. -/
def push (r : Reader) (t : Located Token) : Reader × List Notice :=
  match r.state.push t with
  | some state => (⟨state, r.silence - 1⟩, [])
  | none => (restart, r.note (.unexpected t))

/-- The end of the text: the program, if the text ends with one, and what is noted otherwise. -/
def finish (r : Reader) : Option (Located Program) × List Notice :=
  match r.state.program? with
  | some program => (some program, [])
  | none => (none, r.note .unexpectedEnd)

end Reader

end SnlFront.Parsing
