import SnlFront.Proofs.Scope.Frames

/-!
# Notes of one kind

Often only some of the notes of a computation matter. A computation yields a list of notes under a
test if it comes to a value and the notes that pass the test are those of the list, in their order.
Computations that follow each other yield what they yield separately, one after the other.

## Main definitions

* `Logged.Yields`: a value comes out, and these notes pass a test.
* `ScopeM.Yields`: the same of a computation in a scope, with a property of the scope it leaves.

## Main statements

* `Logged.Yields.bind`, `ScopeM.Yields.bind`: two steps in a row.
* `ScopeM.Yields.inFrame`: a computation in a frame of its own.
-/

namespace SnlFront

namespace Logged

variable {ω α β : Type} {P : ω → Bool}

/-- A value comes out, and the notes that pass a test are the given ones. -/
structure Yields (P : ω → Bool) (x : Logged ω α) (notes : List ω) : Prop where
  value : ∃ a, x.value = .ok a
  notes : x.log.filter P = notes

theorem yields_pure (a : α) : (Pure.pure a : Logged ω α).Yields P [] := ⟨⟨a, rfl⟩, rfl⟩

theorem yields_note_of_pos {n : ω} (h : P n = true) : (note n).Yields P [n] :=
  ⟨⟨(), rfl⟩, List.filter_cons_of_pos h⟩

theorem yields_note_of_neg {n : ω} (h : P n = false) : (note n).Yields P [] :=
  ⟨⟨(), rfl⟩, by simp [note, h]⟩

theorem yields_demand_of_neg (condition : Bool) {n : ω} (h : P n = false) :
    (demand condition n).Yields P [] := by
  cases condition
  · exact yields_note_of_neg h
  · exact yields_pure ()

/-- What follows yields its notes after those that came before. -/
theorem Yields.bind {x : Logged ω α} {f : α → Logged ω β} {first second : List ω}
    (hx : x.Yields P first) (hf : ∀ a, (f a).Yields P second) :
    (x >>= f).Yields P (first ++ second) := by
  obtain ⟨⟨a, ha⟩, hfirst⟩ := hx
  obtain ⟨⟨b, hb⟩, hsecond⟩ := hf a
  refine ⟨⟨b, (value_bind_of_ok ha f).trans hb⟩, ?_⟩
  rw [log_bind_of_ok ha f, List.filter_append, hfirst, hsecond]

/-- What follows may add nothing. -/
theorem Yields.bind_silent {x : Logged ω α} {f : α → Logged ω β} {notes : List ω}
    (hx : x.Yields P notes) (hf : ∀ a, (f a).Yields P []) : (x >>= f).Yields P notes := by
  have h := hx.bind hf
  rwa [List.append_nil] at h

end Logged

namespace ScopeM

variable {ω α β : Type} {P : ω → Bool}

/-- A value comes out, the notes that pass a test are the given ones, and the value and the scope
behind the computation have a property. -/
structure Yields (P : ω → Bool) (x : ScopeM ω α) (s : Scope) (notes : List ω)
    (after : α → Scope → Prop) : Prop where
  value : ∃ a, (x.run s).2.value = .ok a ∧ after a (x.run s).1
  notes : (x.run s).2.log.filter P = notes

theorem yields_pure {a : α} {s : Scope} {after : α → Scope → Prop} (h : after a s) :
    (Pure.pure a : ScopeM ω α).Yields P s [] after := ⟨⟨a, rfl, h⟩, rfl⟩

/-- A computation that only reads the scope yields what it reads. -/
theorem yields_read {f : Scope → Logged ω α} {s : Scope} {notes : List ω}
    (hf : (f s).Yields P notes) : (read f).Yields P s notes fun _ t => t = s := by
  obtain ⟨a, ha⟩ := hf.value
  exact ⟨⟨a, ha, rfl⟩, hf.notes⟩

theorem yields_declare (name : String) (symbol : Symbol) (s : Scope) :
    (declare name symbol : ScopeM ω Unit).Yields P s [] fun _ t => t = s.declare name symbol :=
  ⟨⟨(), rfl, rfl⟩, rfl⟩

/-- Less may be said of the scope that is left. -/
theorem Yields.mono {x : ScopeM ω α} {s : Scope} {notes : List ω} {after after' : α → Scope → Prop}
    (hx : x.Yields P s notes after) (h : ∀ a t, after a t → after' a t) :
    x.Yields P s notes after' := by
  obtain ⟨a, ha, hafter⟩ := hx.value
  exact ⟨⟨a, ha, h _ _ hafter⟩, hx.notes⟩

/-- What follows runs in the scope that is left, and yields its notes after those before. -/
theorem Yields.bind {x : ScopeM ω α} {f : α → ScopeM ω β} {s : Scope} {first second : List ω}
    {between : α → Scope → Prop} {after : β → Scope → Prop} (hx : x.Yields P s first between)
    (hf : ∀ a t, between a t → (f a).Yields P t second after) :
    (x >>= f).Yields P s (first ++ second) after := by
  obtain ⟨a, ha, hbetween⟩ := hx.value
  obtain ⟨⟨b, hb, hafter⟩, hsecond⟩ := hf a _ hbetween
  have hrun := run_bind x f s
  rw [ha] at hrun
  rw [← hx.notes, ← hsecond, ← List.filter_append]
  constructor
  · rw [hrun]
    exact ⟨b, hb, hafter⟩
  · rw [hrun]

/-- What comes first may add nothing. -/
theorem Yields.silent_bind {x : ScopeM ω α} {f : α → ScopeM ω β} {s : Scope} {notes : List ω}
    {between : α → Scope → Prop} {after : β → Scope → Prop} (hx : x.Yields P s [] between)
    (hf : ∀ a t, between a t → (f a).Yields P t notes after) :
    (x >>= f).Yields P s notes after := hx.bind hf

/-- A computation that keeps the frames below its own leaves the scope as it was. -/
theorem Yields.inFrame {x : ScopeM ω α} {s : Scope} {notes : List ω}
    (hx : x.Yields P s.enter notes fun _ _ => True) (hkeeps : x.KeepsOuter) :
    (inFrame x).Yields P s notes fun _ t => t = s := by
  obtain ⟨a, ha, _⟩ := hx.value
  have hrun := hkeeps.run_inFrame s
  constructor
  · rw [hrun]
    exact ⟨a, ha, rfl⟩
  · rw [hrun]
    exact hx.notes

end ScopeM

end SnlFront
