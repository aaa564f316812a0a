import SnlFront.Checking.Basic

/-!
# Runs without notes

A computation is clean if it takes no note and comes to a value. Computations that follow each other
are clean exactly when each of them is, so a clean run can be taken apart step by step, and a run
that was put together from clean steps is clean.

## Main definitions

* `Logged.Clean`: no note was taken, and a value came out.
* `ScopeM.Clean`: the same of a computation in a scope, with the scope it leaves.

## Main statements

* `Logged.clean_bind`, `ScopeM.clean_bind`: what it means for two steps in a row.
-/

namespace SnlFront

namespace Logged

variable {ω α β : Type}

/-- No note was taken, and a value came out. -/
def Clean (x : Logged ω α) (a : α) : Prop := x.log = [] ∧ x.value = .ok a

@[simp] theorem clean_mk (log : List ω) (value : Except Fault α) (a : α) :
    Clean ⟨log, value⟩ a ↔ log = [] ∧ value = .ok a := Iff.rfl

theorem clean_pure (a b : α) : (Pure.pure a : Logged ω α).Clean b ↔ a = b := by
  simp

/-- A computation that breaks off is not clean, even if it has noted nothing. -/
@[simp] theorem clean_fail (fault : Fault) (a : α) : ¬ (fail fault : Logged ω α).Clean a := by
  simp [Clean, fail]

@[simp] theorem clean_ofExcept (x : Except Fault α) (a : α) :
    (ofExcept x : Logged ω α).Clean a ↔ x = .ok a := by
  simp [Clean, ofExcept]

/-- A note is what keeps a computation from being clean. -/
@[simp] theorem clean_note (n : ω) (u : Unit) : ¬ (note n).Clean u := by
  simp [Clean, note]

/-- What is demanded has to hold. -/
@[simp] theorem clean_demand (condition : Bool) (n : ω) (u : Unit) :
    (demand condition n).Clean u ↔ condition = true := by
  cases condition
  · simp [demand]
  · simp [demand, Logged.pure]

/-- Two steps in a row are clean exactly when both are. -/
@[simp] theorem clean_bind (x : Logged ω α) (f : α → Logged ω β) (b : β) :
    (x >>= f).Clean b ↔ ∃ a, x.Clean a ∧ (f a).Clean b := by
  cases hx : x.value with
  | error fault => simp [Clean, bind_of_error hx, hx]
  | ok a =>
    have hlog := log_bind_of_ok hx f
    have hvalue := value_bind_of_ok hx f
    simp only [Clean, hlog, hvalue, hx, List.append_eq_nil_iff, Except.ok.injEq]
    constructor
    · intro hall
      rcases hall with ⟨⟨hfirst, hsecond⟩, hb⟩
      exact ⟨a, ⟨hfirst, rfl⟩, hsecond, hb⟩
    · intro hall
      rcases hall with ⟨_, ⟨hfirst, rfl⟩, hsecond, hb⟩
      exact ⟨⟨hfirst, hsecond⟩, hb⟩

/-- The same where the first step comes to nothing of interest. -/
@[simp high] theorem clean_bind_unit (x : Logged ω Unit) (f : Unit → Logged ω β) (b : β) :
    (x >>= f).Clean b ↔ x.Clean () ∧ (f ()).Clean b := by
  rw [clean_bind]
  exact ⟨fun ⟨_, h⟩ => h, fun h => ⟨(), h⟩⟩

end Logged

@[simp] theorem clean_report (p : Position) (d : Diagnostic) (u : Unit) :
    ¬ (report p d).Clean u := by
  simp [report]

@[simp] theorem clean_require (condition : Bool) (p : Position) (d : Diagnostic) (u : Unit) :
    (require condition p d).Clean u ↔ condition = true := by
  simp [require]

namespace ScopeM

variable {ω α β : Type}

/-- Run in a scope, the computation takes no note, comes to a value and leaves another scope. -/
def Clean (x : ScopeM ω α) (s s' : Scope) (a : α) : Prop :=
  (x.run s).1 = s' ∧ (x.run s).2.Clean a

@[simp] theorem clean_pure (a b : α) (s s' : Scope) :
    (Pure.pure a : ScopeM ω α).Clean s s' b ↔ s = s' ∧ a = b := by
  simp [Clean, Logged.Clean, Logged.pure]

@[simp] theorem clean_read (f : Scope → Logged ω α) (a : α) (s s' : Scope) :
    (read f).Clean s s' a ↔ s = s' ∧ (f s).Clean a := Iff.rfl

@[simp] theorem clean_declare (name : String) (symbol : Symbol) (u : Unit) (s s' : Scope) :
    (declare name symbol : ScopeM ω Unit).Clean s s' u ↔ s.declare name symbol = s' := by
  simp [Clean, Logged.Clean, Logged.pure]

/-- Two steps in a row: the second starts in the scope of the first, unless that broke off. -/
theorem run_bind (x : ScopeM ω α) (f : α → ScopeM ω β) (s : Scope) :
    (x >>= f).run s =
      match (x.run s).2.value with
      | .ok a =>
        (((f a).run (x.run s).1).1,
          ⟨(x.run s).2.log ++ ((f a).run (x.run s).1).2.log, ((f a).run (x.run s).1).2.value⟩)
      | .error fault => ((x.run s).1, ⟨(x.run s).2.log, .error fault⟩) := rfl

/-- Two steps in a row are clean exactly when both are, the second in the scope that the first
leaves. -/
@[simp] theorem clean_bind (x : ScopeM ω α) (f : α → ScopeM ω β) (b : β) (s s'' : Scope) :
    (x >>= f).Clean s s'' b ↔ ∃ s' a, x.Clean s s' a ∧ (f a).Clean s' s'' b := by
  cases hx : (x.run s).2.value with
  | error fault => simp [Clean, Logged.Clean, run_bind, hx]
  | ok a =>
    simp only [Clean, Logged.Clean, run_bind, hx, List.append_eq_nil_iff, Except.ok.injEq]
    constructor
    · intro hall
      rcases hall with ⟨hscope, ⟨hfirst, hsecond⟩, hb⟩
      exact ⟨_, a, ⟨rfl, hfirst, rfl⟩, hscope, hsecond, hb⟩
    · intro hall
      rcases hall with ⟨_, _, ⟨rfl, hfirst, rfl⟩, hscope, hsecond, hb⟩
      exact ⟨hscope, ⟨hfirst, hsecond⟩, hb⟩

/-- The same where the first step comes to nothing of interest. -/
@[simp high] theorem clean_bind_unit (x : ScopeM ω Unit) (f : Unit → ScopeM ω β) (b : β)
    (s s'' : Scope) :
    (x >>= f).Clean s s'' b ↔ ∃ s', x.Clean s s' () ∧ (f ()).Clean s' s'' b := by
  rw [clean_bind]
  exact ⟨fun ⟨s', _, h⟩ => ⟨s', h⟩, fun ⟨s', h⟩ => ⟨s', (), h⟩⟩

end ScopeM

end SnlFront
