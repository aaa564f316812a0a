import SnlFront.Logged
import SnlFront.Scope

/-!
# Computations in a scope

A computation in a scope may change the scope, take notes and break off with a fault. The changes
made and the notes taken before a fault are kept.

## Main definitions

* `ScopeM`: a computation in a scope.
* `ScopeM.read`: a computation that only looks at the scope.
* `ScopeM.inFrame`: run a computation in a frame of its own, which is closed on every way out.
-/

namespace SnlFront

/-- A computation in a scope. -/
structure ScopeM (ω α : Type) where
  run : Scope → Scope × Logged ω α

namespace ScopeM

variable {ω α β : Type}

/-- A value; nothing changes. -/
def pure (a : α) : ScopeM ω α := ⟨fun s => (s, Logged.pure a)⟩

/-- One computation after another; the second does not start after a fault. -/
def bind (x : ScopeM ω α) (f : α → ScopeM ω β) : ScopeM ω β :=
  ⟨fun s =>
    let here := x.run s
    match here.2.value with
    | .ok a =>
      let next := (f a).run here.1
      (next.1, ⟨here.2.log ++ next.2.log, next.2.value⟩)
    | .error fault => (here.1, ⟨here.2.log, .error fault⟩)⟩

instance : Monad (ScopeM ω) where
  pure := ScopeM.pure
  bind := ScopeM.bind

/-- Look at the scope without changing it. -/
def read (f : Scope → Logged ω α) : ScopeM ω α := ⟨fun s => (s, f s)⟩

/-- Open a frame. -/
def enter : ScopeM ω Unit := ⟨fun s => (s.enter, Logged.pure ())⟩

/-- Close the innermost frame. -/
def leave : ScopeM ω Unit :=
  ⟨fun s =>
    match s.leave? with
    | some s => (s, Logged.pure ())
    | none => (s, Logged.fail .outermost)⟩

/-- Let a name of the innermost frame stand for a symbol. -/
def declare (name : String) (symbol : Symbol) : ScopeM ω Unit :=
  ⟨fun s => (s.declare name symbol, Logged.pure ())⟩

/-- Run a computation in a frame of its own. The innermost frame is closed afterwards, also after a
fault; if the computation has left no frame that can be closed, that is the fault. -/
def inFrame (body : ScopeM ω α) : ScopeM ω α :=
  ⟨fun s =>
    let after := body.run s.enter
    match after.1.leave? with
    | some s => (s, after.2)
    | none => (after.1, ⟨after.2.log, .error .outermost⟩)⟩

@[simp] theorem run_pure (a : α) (s : Scope) :
    (Pure.pure a : ScopeM ω α).run s = (s, Logged.pure a) := rfl

@[simp] theorem run_read (f : Scope → Logged ω α) (s : Scope) : (read f).run s = (s, f s) := rfl

@[simp] theorem run_declare (name : String) (symbol : Symbol) (s : Scope) :
    (declare name symbol : ScopeM ω Unit).run s = (s.declare name symbol, Logged.pure ()) := rfl

end ScopeM

end SnlFront
