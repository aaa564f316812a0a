import SnlFront.Checking.Declarations
import SnlFront.Notice

/-!
# The backlog

What goes wrong while a program is processed is collected in a backlog, and every entry is tagged
with the phase in which it was made. A checkpoint opens the next phase; it ends the run if anything
is in the backlog. Entries are kept until the backlog is cleared.

## Main definitions

* `Remark`: something to enter, possibly many things at once.
* `Backlog`: the current phase and the entries.
* `Backlog.log`, `Backlog.noteAll`, `Backlog.check`: make entries.
* `Backlog.crash`, `Backlog.checkpoint`: the ways in which a run ends.
* `Backlog.Event`: the operations on a backlog as data.
-/

namespace SnlFront

/-- Something to enter into a backlog. -/
inductive Remark
  | text (s : String)
  | located (x : Located String)
  | many (remarks : List Remark)

mutual

/-- The texts of a remark, in order; a located text has its position in front. -/
def Remark.texts : Remark → List String
  | .text s => [s]
  | .located x => [x.remark]
  | .many remarks => Remark.textsOfAll remarks

/-- The texts of several remarks, one after the other. -/
def Remark.textsOfAll : List Remark → List String
  | [] => []
  | remark :: remarks => remark.texts ++ Remark.textsOfAll remarks

end

/-- Give a position to a remark. It applies to a plain text only: a located text has its own, and
for many remarks at once it would say nothing. -/
def Remark.place (p : Position) : Remark → Remark
  | .text s => .located ⟨p, s⟩
  | remark => remark

/-- The current phase and the entries made so far. -/
structure Backlog where
  phase : Option String
  entries : List String
deriving DecidableEq, Repr

namespace Backlog

/-- No phase and no entries. -/
def empty : Backlog := ⟨none, []⟩

/-- A text with the current phase in front, if there is one and it has a name. -/
def tag (b : Backlog) (text : String) : String :=
  match b.phase with
  | none => text
  | some phase => if phase = "" then text else "\x7b" ++ phase ++ "\x7d \t| " ++ text

/-- Enter texts. -/
def enter (b : Backlog) (texts : List String) : Backlog :=
  { b with entries := b.entries ++ texts.map b.tag }

@[simp] theorem entries_enter (b : Backlog) (texts : List String) :
    (b.enter texts).entries = b.entries ++ texts.map b.tag := rfl

/-- Enter a remark. -/
def log (b : Backlog) (r : Remark) : Backlog := b.enter r.texts

/-- Enter notices about a source text. -/
def noteAll (b : Backlog) (ns : List Notice) : Backlog := b.enter (ns.map Notice.message)

/-- Enter the diagnostics of a program; the answer is whether there are none. -/
def check (b : Backlog) (p : Program) : Except Fault (Backlog × Bool) :=
  p.analyze.map fun ds => (b.enter (ds.map Diagnostic.line), ds.isEmpty)

/-- The text with which a run ends early: the backlog, and a last message. -/
def crash (b : Backlog) (message : String) : String :=
  "=== Error backlog ===\n"
    ++ String.join (b.entries.map fun entry => "[ Error ] " ++ entry ++ "\n")
    ++ "[ Fatal Error ] | " ++ b.tag message ++ "\n"

/-- Open a phase. -/
def openPhase (b : Backlog) (phase : Option String) : Backlog := { b with phase := phase }

/-- Open a phase; if there are entries, the run ends with the text that is returned beside it. -/
def checkpoint (b : Backlog) (phase : Option String) : Backlog × Option String :=
  let opened := b.openPhase phase
  (opened,
    if opened.entries.isEmpty then none else some (opened.crash "error backlog at checkpoint"))

/-! ## Operations as data -/

/-- An operation on a backlog. -/
inductive Event
  | log (remark : Remark) (place : Option Position)
  | checkpoint (phase : Option String)
  | crash (message : String)
  | check (program : Program)
  | clear

/-- What an operation does: the backlog after it, what it prints, whether it ends the run, and the
answer of a check. -/
structure Effect where
  backlog : Backlog
  printed : String
  ended : Bool
  valid : Option Bool

/-- Carry out an operation. -/
def apply (b : Backlog) : Event → Except Fault Effect
  | .log remark place =>
    .ok ⟨b.log (match place with | some p => remark.place p | none => remark), "", false, none⟩
  | .checkpoint phase =>
    let after := b.checkpoint phase
    .ok ⟨after.1, after.2.getD "", after.2.isSome, none⟩
  | .crash message => .ok ⟨b, b.crash message, true, none⟩
  | .check program =>
    (b.check program).map fun after => ⟨after.1, "", false, some after.2⟩
  | .clear => .ok ⟨{ b with entries := [] }, "", false, none⟩

end Backlog

end SnlFront
