import SnlFront.Proofs.Scope.Frames

/-!
# Two runs side by side

Two computations that go the same way can be compared step by step: their notes, their values, and
the scopes they work in. A comparison of notes is only asked to go on when both sides take more of
them; what it says of two notes is left open.

## Main definitions

* `Comparison`: a relation between lists of notes that can be continued.
* `Outcomes`: two computations come to related values, or break off with the same fault.
* `Logged.Related`, `ScopeM.Related`: two computations are related in their notes and outcomes.

## Main statements

* `Logged.Related.bind`, `ScopeM.Related.bind`: two steps in a row.
* `ScopeM.Related.inFrame`: computations in frames of their own.
-/

namespace SnlFront

/-- A relation between lists of notes that goes on when both lists are continued. -/
structure Comparison (ω : Type) where
  holds : List ω → List ω → Prop
  nil : holds [] []
  append : ∀ {as bs as' bs' : List ω},
    holds as bs → holds as' bs' → holds (as ++ as') (bs ++ bs')

/-- Two computations come to related values, or break off with the same fault. -/
inductive Outcomes {α β : Type} (R : α → β → Prop) : Except Fault α → Except Fault β → Prop
  | ok {a : α} {b : β} (h : R a b) : Outcomes R (.ok a) (.ok b)
  | error (fault : Fault) : Outcomes R (.error fault) (.error fault)

variable {ω α β α' β' : Type} {C : Comparison ω} {R : α → β → Prop} {R' : α' → β' → Prop}

/-- Two outcomes that are related are two values, or twice the same fault. -/
theorem Outcomes.cases {x : Except Fault α} {y : Except Fault β} (h : Outcomes R x y) :
    (∃ a b, x = .ok a ∧ y = .ok b ∧ R a b) ∨ ∃ fault, x = .error fault ∧ y = .error fault := by
  cases h with
  | ok h => exact .inl ⟨_, _, rfl, rfl, h⟩
  | error fault => exact .inr ⟨fault, rfl, rfl⟩

/-- Two look-ups are related: both find nothing, or both find something and that is related. -/
theorem cases_of_rel {x : Option α} {y : Option β}
    (h : Option.Rel R x y) :
    (x = none ∧ y = none) ∨ ∃ a b, x = some a ∧ y = some b ∧ R a b := by
  cases h with
  | none => exact .inl ⟨rfl, rfl⟩
  | some h => exact .inr ⟨_, _, rfl, rfl, h⟩

namespace Logged

/-- Two computations are related in their notes and in their outcomes. -/
structure Related (C : Comparison ω) (R : α → β → Prop) (x : Logged ω α) (y : Logged ω β) :
    Prop where
  notes : C.holds x.log y.log
  value : Outcomes R x.value y.value

theorem related_pure {a : α} {b : β} (h : R a b) :
    Related C R (Pure.pure a) (Pure.pure b) := ⟨C.nil, .ok h⟩

theorem related_fail (fault : Fault) : Related C R (fail fault) (fail fault) :=
  ⟨C.nil, .error fault⟩

theorem related_ofExcept {x : Except Fault α} {y : Except Fault β} (h : Outcomes R x y) :
    Related C R (ofExcept x) (ofExcept y) := ⟨C.nil, h⟩

/-- What follows has to be related for related values only. -/
theorem Related.bind {x : Logged ω α} {y : Logged ω β} {f : α → Logged ω α'}
    {g : β → Logged ω β'} (h : x.Related C R y) (hf : ∀ a b, R a b → (f a).Related C R' (g b)) :
    (x >>= f).Related C R' (y >>= g) := by
  rcases h.value.cases with ⟨a, b, hx, hy, hab⟩ | ⟨fault, hx, hy⟩
  · have hrest := hf a b hab
    constructor
    · rw [log_bind_of_ok hx, log_bind_of_ok hy]
      exact C.append h.notes hrest.notes
    · rw [value_bind_of_ok hx, value_bind_of_ok hy]
      exact hrest.value
  · rw [bind_of_error hx, bind_of_error hy]
    exact ⟨h.notes, .error fault⟩

end Logged

namespace ScopeM

variable {S : Scope → Scope → Prop}

/-- Run in related scopes, two computations leave related scopes and are related in their notes and
outcomes. -/
def Related (C : Comparison ω) (S : Scope → Scope → Prop) (R : α → β → Prop) (x : ScopeM ω α)
    (y : ScopeM ω β) : Prop :=
  ∀ s t, S s t → S (x.run s).1 (y.run t).1 ∧ (x.run s).2.Related C R (y.run t).2

theorem related_pure {a : α} {b : β} (h : R a b) :
    Related C S R (Pure.pure a) (Pure.pure b) := fun _ _ hs => ⟨hs, Logged.related_pure h⟩

/-- Computations that only read the scope are related if what they read leads to related results. -/
theorem related_read {f : Scope → Logged ω α} {g : Scope → Logged ω β}
    (h : ∀ s t, S s t → (f s).Related C R (g t)) : Related C S R (read f) (read g) :=
  fun s t hs => ⟨hs, h s t hs⟩

theorem related_declare (name : String) {symbol symbol' : Symbol}
    (h : ∀ s t, S s t → S (s.declare name symbol) (t.declare name symbol')) :
    Related C S Eq (declare name symbol) (declare name symbol') :=
  fun s t hs => ⟨h s t hs, Logged.related_pure rfl⟩

theorem Related.bind {x : ScopeM ω α} {y : ScopeM ω β} {f : α → ScopeM ω α'}
    {g : β → ScopeM ω β'} (h : x.Related C S R y)
    (hf : ∀ a b, R a b → (f a).Related C S R' (g b)) : (x >>= f).Related C S R' (y >>= g) := by
  intro s t hs
  obtain ⟨hscopes, hnotes, hvalue⟩ := h s t hs
  rw [run_bind, run_bind]
  rcases hvalue.cases with ⟨a, b, hx, hy, hab⟩ | ⟨fault, hx, hy⟩
  · obtain ⟨hscopes', hnotes', hvalue'⟩ := hf a b hab _ _ hscopes
    rw [hx, hy]
    exact ⟨hscopes', C.append hnotes hnotes', hvalue'⟩
  · rw [hx, hy]
    exact ⟨hscopes, hnotes, .error fault⟩

/-- Frames of their own leave the scopes around them as they were. -/
theorem Related.inFrame {x : ScopeM ω α} {y : ScopeM ω β} (h : x.Related C S R y)
    (hx : x.KeepsOuter) (hy : y.KeepsOuter) (henter : ∀ s t, S s t → S s.enter t.enter) :
    (inFrame x).Related C S R (inFrame y) := by
  intro s t hs
  rw [hx.run_inFrame, hy.run_inFrame]
  exact ⟨hs, (h _ _ (henter s t hs)).2⟩

end ScopeM

end SnlFront
