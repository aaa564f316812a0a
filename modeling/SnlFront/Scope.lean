import SnlFront.Fault
import SnlFront.Ty

/-!
# Scopes

A scope is a stack of frames, one for each level of declarations that is open, and never empty. A
name stands for what the innermost frame that knows it says.

## Main definitions

* `Symbol`: what a name can stand for.
* `Frame`: the names of one level.
* `Scope`: a nonempty stack of frames, with `enter`, `leave?`, `declare`, `isLocal` and `lookup`.

## Main statements

* `lookup_declare`, `isLocal_declare`: what a declaration changes.
* `leave?_enter`: leaving undoes entering.
-/

namespace SnlFront

/-- What a name can stand for. -/
inductive Symbol
  | variable (type : Ty)
  | type (type : Ty)
  | procedure (params : List Ty)
deriving DecidableEq, Repr

/-- The name of a kind of symbol. -/
def Symbol.kind : Symbol → String
  | .variable _ => "variable"
  | .type _ => "type"
  | .procedure _ => "procedure"

/-- The names of one level, each with what it stands for. No name occurs twice in a frame that
`Frame.put` has built. -/
abbrev Frame := List (String × Symbol)

/-- Let a name stand for a symbol, whatever it stood for before. -/
def Frame.put (f : Frame) (name : String) (s : Symbol) : Frame :=
  (name, s) :: f.filter fun entry => entry.1 != name

theorem Frame.lookup_filter_ne (f : Frame) {name other : String} (h : other ≠ name) :
    (f.filter fun entry => entry.1 != name).lookup other = f.lookup other := by
  induction f with
  | nil => rfl
  | cons entry f ih =>
    rw [List.filter_cons]
    split
    · rw [List.lookup_cons, List.lookup_cons, ih]
    · next same =>
      have key : entry.1 = name := by simpa using same
      have miss : (other == entry.1) = false := by simpa [key] using h
      rw [List.lookup_cons, miss]
      exact ih

/-- A name that is put into a frame hides what it stood for there, and no other name. -/
theorem Frame.lookup_put (f : Frame) (name other : String) (s : Symbol) :
    (f.put name s).lookup other = if other = name then some s else f.lookup other := by
  rw [Frame.put, List.lookup_cons]
  by_cases h : other = name
  · simp [h]
  · have miss : (other == name) = false := by simpa using h
    rw [miss, if_neg h]
    exact f.lookup_filter_ne h

/-- A stack of frames with at least one frame. -/
structure Scope where
  inner : Frame
  outer : List Frame
deriving DecidableEq, Repr

namespace Scope

/-- One frame without names. -/
def empty : Scope := ⟨[], []⟩

/-- The frames from the innermost to the outermost. -/
def frames (s : Scope) : List Frame := s.inner :: s.outer

/-- Open a frame. -/
def enter (s : Scope) : Scope := ⟨[], s.frames⟩

/-- Close the innermost frame, unless it is the only one. -/
def leave? (s : Scope) : Option Scope :=
  match s.outer with
  | [] => none
  | frame :: outer => some ⟨frame, outer⟩

/-- Let a name of the innermost frame stand for a symbol. -/
def declare (s : Scope) (name : String) (symbol : Symbol) : Scope :=
  { s with inner := s.inner.put name symbol }

/-- Whether the innermost frame knows a name. -/
def isLocal (s : Scope) (name : String) : Bool := (s.inner.lookup name).isSome

/-- What a name stands for. -/
def lookup (s : Scope) (name : String) : Option Symbol :=
  s.frames.findSome? (List.lookup name)

@[simp] theorem leave?_enter (s : Scope) : s.enter.leave? = some s := rfl

@[simp] theorem isLocal_enter (s : Scope) (name : String) : s.enter.isLocal name = false := rfl

@[simp] theorem lookup_enter (s : Scope) (name : String) : s.enter.lookup name = s.lookup name :=
  rfl

/-- A declaration adds its name to the innermost frame. -/
theorem isLocal_declare (s : Scope) (name other : String) (symbol : Symbol) :
    (s.declare name symbol).isLocal other = (decide (other = name) || s.isLocal other) := by
  by_cases h : other = name <;> simp [declare, isLocal, Frame.lookup_put, h]

/-- A declaration gives its name a new meaning, and leaves the others theirs. -/
theorem lookup_declare (s : Scope) (name other : String) (symbol : Symbol) :
    (s.declare name symbol).lookup other =
      if other = name then some symbol else s.lookup other := by
  by_cases h : other = name <;>
    simp [declare, lookup, frames, List.findSome?_cons, Frame.lookup_put, h]

end Scope

end SnlFront
