import SnlFront.Proofs.Scope.Frames

/-!
# Properties of all notes

A computation ensures something of its notes and of its value if it comes to a value, the value has
one property and each note has another one. In a scope, an invariant of the scope is kept on the
way, so that what follows may rely on it.

## Main definitions

* `Logged.Ensures`: a value with a property comes out, and all notes have a property.
* `ScopeM.Ensures`: the same of a computation in a scope that keeps an invariant.

## Main statements

* `Logged.Ensures.bind`, `ScopeM.Ensures.bind`: two steps in a row.
* `ScopeM.Ensures.inFrame`: a computation in a frame of its own.
-/

namespace SnlFront

variable {ω α β : Type} {P : ω → Prop} {Q : α → Prop} {R : β → Prop}

namespace Logged

/-- A value with a property comes out, and all notes have a property. -/
structure Ensures (P : ω → Prop) (Q : α → Prop) (x : Logged ω α) : Prop where
  notes : ∀ n ∈ x.log, P n
  value : ∃ a, x.value = .ok a ∧ Q a

theorem ensures_pure {a : α} (h : Q a) : (Pure.pure a : Logged ω α).Ensures P Q :=
  ⟨fun _ hn => absurd hn List.not_mem_nil, a, rfl, h⟩

theorem ensures_ofExcept {x : Except Fault α} (h : ∃ a, x = .ok a ∧ Q a) :
    (ofExcept x : Logged ω α).Ensures P Q := ⟨fun _ hn => absurd hn List.not_mem_nil, h⟩

/-- A note has to satisfy the condition on notes. -/
theorem ensures_note {n : ω} (h : P n) {Q : Unit → Prop} (hQ : Q ()) : (note n).Ensures P Q :=
  ⟨fun _ hn => List.mem_singleton.1 hn ▸ h, (), rfl, hQ⟩

/-- A note is taken only where the condition fails. -/
theorem ensures_demand {condition : Bool} {n : ω} (h : condition = false → P n) {Q : Unit → Prop}
    (hQ : Q ()) : (demand condition n).Ensures P Q := by
  cases condition with
  | true => exact ensures_pure hQ
  | false => exact ensures_note (h rfl) hQ

/-- What follows may rely on the property of the value. -/
theorem Ensures.bind {x : Logged ω α} {f : α → Logged ω β} (hx : x.Ensures P Q)
    (hf : ∀ a, Q a → (f a).Ensures P R) : (x >>= f).Ensures P R := by
  obtain ⟨a, ha, hQ⟩ := hx.value
  have hrest := hf a hQ
  constructor
  · intro n hn
    rw [log_bind_of_ok ha] at hn
    exact (List.mem_append.1 hn).elim (hx.notes n) (hrest.notes n)
  · rw [value_bind_of_ok ha]
    exact hrest.value

end Logged

namespace ScopeM

variable {I : Scope → Prop}

/-- In every scope with an invariant, a value with a property comes out, all notes have a property,
and the scope that is left has the invariant. -/
def Ensures (I : Scope → Prop) (P : ω → Prop) (Q : α → Prop) (x : ScopeM ω α) : Prop :=
  ∀ s, I s → I (x.run s).1 ∧ (x.run s).2.Ensures P Q

theorem ensures_pure {a : α} (h : Q a) : (Pure.pure a : ScopeM ω α).Ensures I P Q :=
  fun _ hs => ⟨hs, Logged.ensures_pure h⟩

/-- What only looks at the scope keeps any invariant of it. -/
theorem ensures_read {f : Scope → Logged ω α} (h : ∀ s, I s → (f s).Ensures P Q) :
    (read f).Ensures I P Q := fun s hs => ⟨hs, h s hs⟩

/-- A declaration has to keep what is known of the scope. -/
theorem ensures_declare {name : String} {symbol : Symbol} {Q : Unit → Prop}
    (h : ∀ s, I s → I (s.declare name symbol)) (hQ : Q ()) :
    (declare name symbol : ScopeM ω Unit).Ensures I P Q :=
  fun s hs => ⟨h s hs, Logged.ensures_pure hQ⟩

theorem Ensures.bind {x : ScopeM ω α} {f : α → ScopeM ω β} (hx : x.Ensures I P Q)
    (hf : ∀ a, Q a → (f a).Ensures I P R) : (x >>= f).Ensures I P R := by
  intro s hs
  obtain ⟨hscope, hnotes, a, ha, hQ⟩ := hx s hs
  obtain ⟨hscope', hnotes', hvalue'⟩ := hf a hQ _ hscope
  rw [run_bind, ha]
  refine ⟨hscope', fun n hn => ?_, hvalue'⟩
  exact (List.mem_append.1 hn).elim (hnotes n) (hnotes' n)

/-- A frame of its own leaves the scope around it as it was. -/
theorem Ensures.inFrame {x : ScopeM ω α} (hx : x.Ensures I P Q) (hkeeps : x.KeepsOuter)
    (henter : ∀ s, I s → I s.enter) : (inFrame x).Ensures I P Q := by
  intro s hs
  rw [hkeeps.run_inFrame]
  exact ⟨hs, (hx _ (henter s hs)).2⟩

end ScopeM

end SnlFront
