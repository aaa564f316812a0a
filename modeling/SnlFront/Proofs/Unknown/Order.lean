import Mathlib.Data.List.Forall2
import SnlFront.Checking.Statements
import SnlFront.Proofs.Checking.Related
import SnlFront.Proofs.Ty.Canonical

/-!
# Knowing less

Types are ordered by how much is known of them: of the unknown type nothing, and of a record as much
as of its fields. A scope lies below another one if it has the same frames with the same names and
kinds of symbols, and less may be known of their types.

Compatibility is not transitive, but it is kept on the way down: where two types may meet, so may
any two types of which less is known.

## Main definitions

* `Ty.Below`, `Symbol.Below`, `Scope.Below`: less is known of a type, of a symbol, of the names of a
  scope.

## Main statements

* `Ty.compatible_of_below`: compatibility is kept on the way down.
* `Ty.Below.ofMembers`, `Ty.FieldsBelow.field?`: records are built and taken apart in step.
* `Scope.Below.lookup`, `Scope.Below.declare`: names in related scopes.
-/

namespace SnlFront

/-! ## Types -/

namespace Ty

mutual

/-- As much or less is known of a type as of another one. -/
inductive Below : Ty → Ty → Prop
  | unknown (τ : Ty) : Below .unknown τ
  | refl (τ : Ty) : Below τ τ
  | record {fs gs : List (String × Ty)} (h : FieldsBelow fs gs) : Below (.record fs) (.record gs)

/-- The same names, in the same order, with types of which as much or less is known. -/
inductive FieldsBelow : List (String × Ty) → List (String × Ty) → Prop
  | nil : FieldsBelow [] []
  | cons {name : String} {a b : Ty} {fs gs : List (String × Ty)} (first : Below a b)
      (others : FieldsBelow fs gs) : FieldsBelow ((name, a) :: fs) ((name, b) :: gs)

end

theorem FieldsBelow.refl (fs : List (String × Ty)) : FieldsBelow fs fs := by
  induction fs with
  | nil => exact .nil
  | cons f fs ih => exact .cons (.refl f.2) ih

/-- Only the unknown type and records lie below a record. -/
theorem Below.of_record {τ : Ty} {gs : List (String × Ty)} (h : τ.Below (.record gs)) :
    τ = .unknown ∨ ∃ fs, τ = .record fs ∧ FieldsBelow fs gs := by
  cases h with
  | unknown => exact .inl rfl
  | refl => exact .inr ⟨gs, rfl, .refl gs⟩
  | record h => exact .inr ⟨_, rfl, h⟩

/-- Below any other type lie only the unknown one and itself. -/
theorem Below.eq_or {τ σ : Ty} (h : τ.Below σ) (hσ : ∀ gs, σ ≠ .record gs) :
    τ = .unknown ∨ τ = σ := by
  cases h with
  | unknown => exact .inl rfl
  | refl => exact .inr rfl
  | record h => exact absurd rfl (hσ _)

/-- Nothing is less known than the unknown type. -/
theorem Below.eq_unknown {τ : Ty} (h : τ.Below .unknown) : τ = .unknown := by
  rcases h.eq_or nofun with h | h <;> exact h

@[simp] theorem compatible_unknown (τ : Ty) : τ.compatible .unknown = true := by
  cases τ <;> simp [compatible]

@[simp] theorem unknown_compatible (τ : Ty) : Ty.unknown.compatible τ = true := by
  simp [compatible]

/-- A type that is neither unknown nor a record may only meet itself and the unknown type. -/
theorem eq_or_of_compatible {a b : Ty} (hunknown : a ≠ .unknown) (hrecord : ∀ fs, a ≠ .record fs)
    (h : a.compatible b = true) : b = .unknown ∨ b = a := by
  cases a with
  | unknown => exact absurd rfl hunknown
  | record fs => exact absurd rfl (hrecord fs)
  | integer | char | array base lower upper => simpa [compatible] using h

theorem compatible_of_below_flat {a a' b b' : Ty} (hrecord : ∀ fs, a ≠ .record fs)
    (ha : a'.Below a) (hb : b'.Below b) (h : a.compatible b = true) : a'.compatible b' = true := by
  by_cases hunknown : a' = .unknown
  · rw [hunknown]
    exact unknown_compatible b'
  · obtain rfl : a' = a := (ha.eq_or hrecord).resolve_left hunknown
    rcases eq_or_of_compatible hunknown hrecord h with rfl | rfl
    · rw [hb.eq_unknown]
      exact compatible_unknown a'
    · rcases hb.eq_or hrecord with rfl | rfl
      · exact compatible_unknown b
      · exact h

mutual

/-- Where two types may meet, so may two types of which less is known. -/
theorem compatible_of_below : {a a' b b' : Ty} → a'.Below a → b'.Below b →
    a.compatible b = true → a'.compatible b' = true
  | .unknown, _, _, _, ha, hb, h => compatible_of_below_flat (by simp) ha hb h
  | .integer, _, _, _, ha, hb, h => compatible_of_below_flat (by simp) ha hb h
  | .char, _, _, _, ha, hb, h => compatible_of_below_flat (by simp) ha hb h
  | .array _ _ _, _, _, _, ha, hb, h => compatible_of_below_flat (by simp) ha hb h
  | .record fs, _, b, _, ha, hb, h => by
    rcases ha.of_record with rfl | ⟨fs', rfl, hfs⟩
    · exact unknown_compatible _
    · cases b with
      | unknown =>
        rw [hb.eq_unknown]
        exact compatible_unknown _
      | record gs =>
        rcases hb.of_record with rfl | ⟨gs', rfl, hgs⟩
        · exact compatible_unknown _
        · simp only [compatible] at h ⊢
          exact compatibleFields_of_below hfs hgs h
      | integer | char | array base lower upper => simp [compatible] at h

theorem compatibleFields_of_below : {fs fs' gs gs' : List (String × Ty)} → FieldsBelow fs' fs →
    FieldsBelow gs' gs → compatibleFields fs gs = true → compatibleFields fs' gs' = true
  | [], _, _, _, .nil, hgs, h => by
    cases hgs with
    | nil => rfl
    | cons => simp [compatibleFields] at h
  | (m, a) :: fs, _, _, _, .cons first others, hgs, h => by
    cases hgs with
    | nil => simp [compatibleFields] at h
    | cons first' others' =>
      simp only [compatibleFields, Bool.and_eq_true] at h ⊢
      exact ⟨⟨h.1.1, compatible_of_below first first' h.1.2⟩,
        compatibleFields_of_below others others' h.2⟩

end

theorem Below.isUnknown {τ σ : Ty} (h : τ.Below σ) (hσ : σ.isUnknown = true) :
    τ.isUnknown = true := by
  cases σ with
  | unknown =>
    rw [h.eq_unknown]
    rfl
  | integer | char | array base lower upper | record fields => cases hσ

/-- What may be read, written and compared may be so with less known of it. -/
theorem Below.mayBeBase {τ σ : Ty} (h : τ.Below σ) (hσ : σ.mayBeBase = true) :
    τ.mayBeBase = true := by
  cases σ with
  | unknown =>
    rw [h.eq_unknown]
    rfl
  | integer | char => rcases h.eq_or nofun with rfl | rfl <;> rfl
  | array base lower upper | record fields => cases hσ

/-! ### Records -/

theorem FieldsBelow.append {fs gs fs' gs' : List (String × Ty)} (h : FieldsBelow fs gs)
    (h' : FieldsBelow fs' gs') : FieldsBelow (fs ++ fs') (gs ++ gs') := by
  induction fs generalizing gs with
  | nil =>
    cases h
    exact h'
  | cons f fs ih =>
    cases h with
    | cons first others => exact .cons first (ih others)

theorem FieldsBelow.reverse {fs gs : List (String × Ty)} (h : FieldsBelow fs gs) :
    FieldsBelow fs.reverse gs.reverse := by
  induction fs generalizing gs with
  | nil =>
    cases h
    exact .nil
  | cons f fs ih =>
    cases h with
    | cons first others =>
      rw [List.reverse_cons, List.reverse_cons]
      exact (ih others).append (.cons first .nil)

/-- Records that differ in what is known of their fields have the same fields. -/
theorem FieldsBelow.lookup {fs gs : List (String × Ty)} (h : FieldsBelow fs gs) (name : String) :
    Option.Rel Below (fs.lookup name) (gs.lookup name) := by
  induction fs generalizing gs with
  | nil =>
    cases h
    exact .none
  | cons f fs ih =>
    cases h with
    | @cons other a b _ gs first others =>
      rw [List.lookup_cons, List.lookup_cons]
      split
      · exact .some first
      · exact ih others

/-- A field is found in both of two related records or in none. -/
theorem FieldsBelow.field? {fs gs : List (String × Ty)} (h : FieldsBelow fs gs) (name : String) :
    Option.Rel Below (Ty.field? fs name) (Ty.field? gs name) := h.reverse.lookup name

/-- Where a member belongs depends on its name only. -/
theorem FieldsBelow.putMember {fs gs : List (String × Ty)} (h : FieldsBelow fs gs) (name : String)
    {a b : Ty} (hab : a.Below b) :
    FieldsBelow (Ty.putMember name a fs) (Ty.putMember name b gs) := by
  induction fs generalizing gs with
  | nil =>
    cases h
    exact .cons hab .nil
  | cons f fs ih =>
    cases h with
    | cons first others =>
      rw [Ty.putMember, Ty.putMember]
      split
      · exact .cons hab (.cons first others)
      · split
        · exact .cons hab others
        · exact .cons first (ih others)

/-- Records of related members are related: the names decide where a member goes. -/
theorem Below.ofMembers {members members' : List (String × Ty)}
    (h : FieldsBelow members members') : (Ty.ofMembers members).Below (Ty.ofMembers members') := by
  refine .record ?_
  change FieldsBelow (membersFields members) (membersFields members')
  induction members generalizing members' with
  | nil =>
    cases h
    exact .nil
  | cons member members ih =>
    cases h with
    | cons first others => exact (ih others).putMember _ first

end Ty

/-! ## Symbols and scopes -/

/-- A symbol of the same kind, of whose types as much or less is known. -/
inductive Symbol.Below : Symbol → Symbol → Prop
  | ofVariable {τ σ : Ty} (h : τ.Below σ) : Symbol.Below (.variable τ) (.variable σ)
  | ofType {τ σ : Ty} (h : τ.Below σ) : Symbol.Below (.type τ) (.type σ)
  | ofProcedure {τs σs : List Ty} (h : List.Forall₂ Ty.Below τs σs) :
      Symbol.Below (.procedure τs) (.procedure σs)

/-- A frame with the same names, each for a symbol below. -/
def Frame.Below (f g : Frame) : Prop :=
  ∀ name, Option.Rel Symbol.Below (f.lookup name) (g.lookup name)

theorem Frame.Below.put {f g : Frame} (h : f.Below g) (name : String) {symbol symbol' : Symbol}
    (hsymbol : symbol.Below symbol') : (f.put name symbol).Below (g.put name symbol') := by
  intro other
  rw [lookup_put, lookup_put]
  split
  · exact .some hsymbol
  · exact h other

namespace Scope

/-- A scope with as many frames, each below its counterpart. -/
structure Below (s t : Scope) : Prop where
  inner : s.inner.Below t.inner
  outer : List.Forall₂ Frame.Below s.outer t.outer

variable {s t : Scope}

/-- Both innermost frames have the same names. -/
theorem Below.isLocal (h : s.Below t) (name : String) : s.isLocal name = t.isLocal name := by
  rw [Scope.isLocal, Scope.isLocal]
  rcases cases_of_rel (h.inner name) with ⟨hs, ht⟩ | ⟨_, _, hs, ht, _⟩
  · rw [hs, ht]
  · rw [hs, ht]
    rfl

/-- A name is looked up with the same success in both scopes. -/
theorem Below.lookup (h : s.Below t) (name : String) :
    Option.Rel Symbol.Below (s.lookup name) (t.lookup name) := by
  have hframes : ∀ {fs gs : List Frame}, List.Forall₂ Frame.Below fs gs →
      Option.Rel Symbol.Below (fs.findSome? (List.lookup name))
        (gs.findSome? (List.lookup name)) := by
    intro fs gs hfs
    induction hfs with
    | nil => exact .none
    | cons first others ih =>
      rw [List.findSome?_cons, List.findSome?_cons]
      rcases cases_of_rel (first name) with ⟨hf, hg⟩ | ⟨_, _, hf, hg, hsymbol⟩
      · rw [hf, hg]
        exact ih
      · rw [hf, hg]
        exact .some hsymbol
  exact hframes (.cons h.inner h.outer)

theorem Below.enter (h : s.Below t) : s.enter.Below t.enter :=
  ⟨fun _ => .none, .cons h.inner h.outer⟩

theorem Below.declare (h : s.Below t) (name : String) {symbol symbol' : Symbol}
    (hsymbol : symbol.Below symbol') : (s.declare name symbol).Below (t.declare name symbol') :=
  ⟨h.inner.put name hsymbol, h.outer⟩

end Scope

end SnlFront
