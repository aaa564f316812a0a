import SnlFront.Checking.Statements
import SnlFront.Proofs.Typing.Types

/-!
# Checked expressions and statements

In a scope where every name stands for settled types, an expression is checked without a report
exactly if the rules give it a type, and a statement exactly if it is well typed. All types that
come up on the way are settled, so that a comparison by compatibility is a comparison by equality.

## Main statements

* `Expression.clean_check_iff`, `Variable.clean_check_iff`: the type of an expression.
* `Statement.clean_check_iff`, `Statement.clean_checkAll_iff`: statements.
-/

namespace SnlFront

/-! ## Types that the rules give -/

/-- The rules select settled types from settled ones. -/
theorem Ty.Selects.settled {τ σ : Ty} {field : Option (Located String)} (h : τ.Selects field σ)
    (hτ : τ.Settled) : σ.Settled := by
  cases h with
  | whole => exact hτ
  | field member => exact hτ.field member

mutual

/-- In a settled environment the rules give settled types only, by induction on the derivation. -/
theorem Expression.HasType.settled {Γ : Env} (hΓ : Γ.Settled) :
    {e : Expression} → {τ : Ty} → e.HasType Γ τ → τ.Settled
  | _, _, .last operand => operand.settled hΓ
  | _, _, .chain operand _ => operand.settled hΓ

theorem Term.HasType.settled {Γ : Env} (hΓ : Γ.Settled) :
    {t : Term} → {τ : Ty} → t.HasType Γ τ → τ.Settled
  | _, _, .last operand => operand.settled hΓ
  | _, _, .chain operand _ => operand.settled hΓ

theorem Factor.HasType.settled {Γ : Env} (hΓ : Γ.Settled) :
    {f : Factor} → {τ : Ty} → f.HasType Γ τ → τ.Settled
  | _, _, .bracket typed => typed.settled hΓ
  | _, _, .constant => Ty.settled_integer
  | _, _, .variable typed => typed.settled hΓ

theorem Variable.HasType.settled {Γ : Env} (hΓ : Γ.Settled) :
    {v : Variable} → {τ : Ty} → v.HasType Γ τ → τ.Settled
  | _, _, .whole visible => hΓ visible
  | _, _, .part visible selected => selected.settled (hΓ visible)
  | _, _, .element visible selected _ => (selected.settled (hΓ visible)).element

end

/-! ## Expressions -/

/-- A base is clean exactly if it names a variable. -/
theorem clean_checkBase_iff (s : Scope) (base : Located String) (τ : Ty) :
    (checkBase s base).Clean τ ↔ s.lookup base.value = some (.variable τ) := by
  rw [checkBase]
  split
  · next h => simp [h]
  · next type h => simp [h]
  · next symbol hno h =>
    simp only [Logged.clean_bind_unit, clean_report, false_and, h, Option.some.injEq, false_iff]
    rintro rfl
    exact hno τ rfl

/-- Of settled types, fields are looked up as the rules select them. -/
theorem clean_checkField_iff {τ : Ty} (hτ : τ.Settled) (field : Option (Located String)) (σ : Ty) :
    (checkField τ field).Clean σ ↔ τ.Selects field σ := by
  cases field with
  | none =>
    rw [checkField, Logged.clean_pure]
    constructor
    · rintro rfl
      exact .whole
    · intro h
      cases h
      rfl
  | some field =>
    cases τ with
    | unknown => exact hτ.known.elim
    | record fields =>
      have hfield := Ty.field?_eq_some_iff hτ.canonical.1 field.value
      rw [checkField]
      constructor
      · intro h
        split at h
        · next type hfound =>
          rw [Logged.clean_pure] at h
          subst h
          exact .field ((hfield type).1 hfound)
        · simp at h
      · intro h
        cases h with
        | field member => simp [(hfield σ).2 member]
    | integer | char | array base lower upper =>
      simp only [checkField, Logged.clean_bind_unit, clean_report, false_and, false_iff]
      rintro (_ | _)

/-- An index is clean exactly if it is an integer, and goes with an array. -/
theorem clean_checkElement_iff {τ ι : Ty} (hτ : τ.Settled) (hι : ι.Settled) (p : Position)
    (σ : Ty) :
    (checkElement τ p ι).Clean σ ↔ ∃ lower upper, τ = .array σ lower upper ∧ ι = .integer := by
  cases τ with
  | unknown => exact hτ.known.elim
  | array base lower upper =>
    have hindex := Ty.compatible_iff_eq Ty.settled_integer.known hι.known
    simp only [checkElement, Logged.clean_bind_unit, clean_require, hindex, Logged.clean_pure]
    constructor
    · intro hall
      rcases hall with ⟨rfl, rfl⟩
      exact ⟨lower, upper, rfl, rfl⟩
    · intro hall
      rcases hall with ⟨_, _, h, rfl⟩
      cases h
      exact ⟨rfl, rfl⟩
  | integer | char | record fields => simp [checkElement]

/-- Two operands meet without a report exactly if they have one type. -/
theorem clean_operands_iff {left right : Checked Ty} {P Q : Ty → Prop} (p : Position)
    (hleft : ∀ τ, left.Clean τ ↔ P τ) (hright : ∀ τ, right.Clean τ ↔ Q τ)
    (hP : ∀ τ, P τ → τ.Settled) (hQ : ∀ τ, Q τ → τ.Settled) (τ : Ty) :
    Logged.Clean (do
      let type ← left
      let other ← right
      require (type.compatible other) p (.incompatibleType type other)
      return type) τ ↔ P τ ∧ Q τ := by
  simp only [Logged.clean_bind, clean_require, Logged.clean_pure, exists_const, hleft, hright]
  constructor
  · intro hall
    rcases hall with ⟨type, htype, other, hother, hsame, rfl⟩
    have heq := (Ty.compatible_iff_eq (hP _ htype).known (hQ _ hother).known).1 hsame
    exact ⟨htype, heq ▸ hother⟩
  · intro hall
    rcases hall with ⟨htype, hother⟩
    have hsame := (Ty.compatible_iff_eq (hP _ htype).known (hQ _ hother).known).2 rfl
    exact ⟨τ, htype, τ, hother, hsame, rfl⟩

mutual

/-- An expression is checked without a report exactly if the rules give it a type. -/
theorem Expression.clean_check_iff {s : Scope} (hs : Env.Settled s.lookup) :
    (e : Expression) → (τ : Ty) → ((e.check s).Clean τ ↔ e.HasType s.lookup τ)
  | .last ⟨p, left⟩ sign, τ => by
    rw [Expression.check, Term.clean_check_iff hs left]
    exact ⟨fun h => .last h, fun | .last operand => operand⟩
  | .chain ⟨p, left⟩ sign ⟨q, right⟩, τ => by
    rw [Expression.check, clean_operands_iff q (Term.clean_check_iff hs left)
      (Expression.clean_check_iff hs right) (fun _ h => h.settled hs) (fun _ h => h.settled hs)]
    exact ⟨fun h => .chain h.1 h.2, fun | .chain operand others => ⟨operand, others⟩⟩

theorem Term.clean_check_iff {s : Scope} (hs : Env.Settled s.lookup) :
    (t : Term) → (τ : Ty) → ((t.check s).Clean τ ↔ t.HasType s.lookup τ)
  | .last ⟨p, left⟩ sign, τ => by
    rw [Term.check, Factor.clean_check_iff hs left]
    exact ⟨fun h => .last h, fun | .last operand => operand⟩
  | .chain ⟨p, left⟩ sign ⟨q, right⟩, τ => by
    rw [Term.check, clean_operands_iff q (Factor.clean_check_iff hs left)
      (Term.clean_check_iff hs right) (fun _ h => h.settled hs) (fun _ h => h.settled hs)]
    exact ⟨fun h => .chain h.1 h.2, fun | .chain operand others => ⟨operand, others⟩⟩

theorem Factor.clean_check_iff {s : Scope} (hs : Env.Settled s.lookup) :
    (f : Factor) → (τ : Ty) → ((f.check s).Clean τ ↔ f.HasType s.lookup τ)
  | .bracket inner, τ => by
    rw [Factor.check, Expression.clean_check_iff hs inner]
    exact ⟨.bracket, fun | .bracket typed => typed⟩
  | .constant value, τ => by
    rw [Factor.check, Logged.clean_pure]
    constructor
    · rintro rfl
      exact .constant
    · intro h
      cases h
      rfl
  | .variable v, τ => by
    rw [Factor.check, Variable.clean_check_iff hs v]
    exact ⟨.variable, fun | .variable typed => typed⟩
  | .hole, τ => by
    simp only [Factor.check, Logged.clean_fail, false_iff]
    intro h
    cases h

/-- Variables are clean exactly if the rules give them a type, and it is that type. -/
theorem Variable.clean_check_iff {s : Scope} (hs : Env.Settled s.lookup) :
    (v : Variable) → (τ : Ty) → ((v.check s).Clean τ ↔ v.HasType s.lookup τ)
  | .whole base, τ => by
    rw [Variable.check, clean_checkBase_iff]
    exact ⟨.whole, fun | .whole visible => visible⟩
  | .part base field none, τ => by
    simp only [Variable.check, Logged.clean_bind, clean_checkBase_iff]
    constructor
    · intro hall
      rcases hall with ⟨σ, hσ, hfield⟩
      exact .part hσ ((clean_checkField_iff (hs hσ) field τ).1 hfield)
    · intro h
      cases h with
      | part visible selected =>
        exact ⟨_, visible, (clean_checkField_iff (hs visible) field τ).2 selected⟩
  | .part base field (some index), τ => by
    have hindex := Expression.clean_check_iff hs index
    simp only [Variable.check, Logged.clean_bind, clean_checkBase_iff, hindex]
    constructor
    · intro hall
      rcases hall with ⟨σ, hσ, ρ, hfield, ι, hι, helement⟩
      have selected := (clean_checkField_iff (hs hσ) field ρ).1 hfield
      obtain ⟨lower, upper, rfl, rfl⟩ :=
        (clean_checkElement_iff (selected.settled (hs hσ)) (hι.settled hs) _ τ).1 helement
      exact .element hσ selected hι
    · intro h
      cases h with
      | element visible selected indexed =>
        have harray := selected.settled (hs visible)
        exact ⟨_, visible, _, (clean_checkField_iff (hs visible) field _).2 selected, _, indexed,
          (clean_checkElement_iff harray Ty.settled_integer _ τ).2 ⟨_, _, rfl, rfl⟩⟩

end

/-! ## Statements -/

/-- A settled type may be a base type only if it is one; it cannot be unknown. -/
theorem mayBeBase_iff {τ : Ty} (h : τ.Settled) : τ.mayBeBase = true ↔ τ.Basic := by
  simp [Ty.mayBeBase, Ty.not_isUnknown_of_known h.known, Ty.isBase_iff]

/-- A demand for a base type is met exactly if the rules give the expression one. -/
theorem clean_basic_iff {s : Scope} (hs : Env.Settled s.lookup) (e : Expression) (p : Position)
    (d : Ty → Diagnostic) :
    Logged.Clean (do
      let type ← e.check s
      require type.mayBeBase p (d type)) () ↔ ∃ τ, e.HasType s.lookup τ ∧ τ.Basic := by
  simp only [Logged.clean_bind, clean_require, Expression.clean_check_iff hs]
  constructor
  · intro hall
    rcases hall with ⟨τ, typed, hbase⟩
    exact ⟨τ, typed, (mayBeBase_iff (typed.settled hs)).1 hbase⟩
  · intro hall
    rcases hall with ⟨τ, typed, basic⟩
    exact ⟨τ, typed, (mayBeBase_iff (typed.settled hs)).2 basic⟩

/-- A relation is clean exactly if both sides have base types. -/
theorem Relation.clean_check_iff {s : Scope} (hs : Env.Settled s.lookup) (r : Relation) :
    (r.check s).Clean () ↔ r.WellTyped s.lookup := by
  simp only [Relation.check, checkOperand, Logged.clean_bind_unit, clean_basic_iff hs]
  constructor
  · intro hall
    rcases hall with ⟨⟨τ, left, leftBasic⟩, σ, right, rightBasic⟩
    exact ⟨left, leftBasic, right, rightBasic⟩
  · intro hall
    rcases hall with ⟨left, leftBasic, right, rightBasic⟩
    exact ⟨⟨_, left, leftBasic⟩, _, right, rightBasic⟩

/-- Only variables of base types are read without a report. -/
theorem clean_checkInput_iff {s : Scope} (hs : Env.Settled s.lookup) (name : Located String) :
    (checkInput s name).Clean () ↔ (Statement.input name).WellTyped s.lookup := by
  rw [checkInput]
  constructor
  · intro h
    split at h
    · simp at h
    · next τ visible =>
      rw [clean_require] at h
      exact .input visible ((mayBeBase_iff (hs visible)).1 h)
    · simp at h
  · intro h
    cases h with
    | input visible basic =>
      rw [visible]
      exact (clean_require _ _ _ _).2 ((mayBeBase_iff (hs visible)).2 basic)

/-- An assignment is clean exactly if both sides have the same type, since settled types are
compatible only if they are equal. -/
theorem clean_checkAssignment_iff {s : Scope} (hs : Env.Settled s.lookup) (target : Variable)
    (value : Expression) :
    (checkAssignment s target value).Clean () ↔
      (Statement.assign target value).WellTyped s.lookup := by
  simp only [checkAssignment, Logged.clean_bind, Variable.clean_check_iff hs,
    Expression.clean_check_iff hs]
  constructor
  · intro hall
    rcases hall with ⟨τ, stored, σ, typed, h⟩
    have hτ := stored.settled hs
    rw [Ty.not_isUnknown_of_known hτ.known] at h
    have hsame : τ.compatible σ = true := by simpa using h
    have heq := (Ty.compatible_iff_eq hτ.known (typed.settled hs).known).1 hsame
    exact .assign stored (heq ▸ typed)
  · intro h
    cases h with
    | @assign _ _ τ stored typed =>
      have hτ := (stored.settled hs).known
      have hsame := (Ty.compatible_iff_eq hτ hτ).2 rfl
      exact ⟨τ, stored, τ, typed, by simp [Ty.not_isUnknown_of_known hτ, hsame]⟩

/-- As many arguments as parameters are checked without a report exactly if their types agree. -/
theorem clean_checkArguments_iff {s : Scope} (hs : Env.Settled s.lookup) {params : List Ty}
    (hparams : ∀ τ ∈ params, τ.Settled) {arguments : List Expression}
    (hlength : params.length = arguments.length) :
    (checkArguments s params arguments).Clean () ↔
      List.Forall₂ (Expression.HasType s.lookup) arguments params := by
  induction arguments generalizing params with
  | nil =>
    obtain rfl := List.length_eq_zero_iff.1 hlength
    simp [checkArguments]
  | cons argument arguments ih =>
    cases params with
    | nil => simp at hlength
    | cons τ params =>
      obtain ⟨hτ, hothers⟩ := List.forall_mem_cons.1 hparams
      have ih := ih hothers (Nat.succ.inj hlength)
      simp only [checkArguments, Logged.clean_bind, clean_require, exists_const, ih,
        Expression.clean_check_iff hs, List.forall₂_cons]
      constructor
      · intro hall
        rcases hall with ⟨σ, typed, hsame, rest⟩
        have heq := (Ty.compatible_iff_eq hτ.known (typed.settled hs).known).1 hsame
        exact ⟨heq ▸ typed, rest⟩
      · intro hall
        rcases hall with ⟨typed, rest⟩
        exact ⟨τ, typed, (Ty.compatible_iff_eq hτ.known hτ.known).2 rfl, rest⟩

/-- A call is clean exactly if it names a procedure, and its arguments are as many and of the types
that the parameters are. -/
theorem Call.clean_check_iff {s : Scope} (hs : Env.Settled s.lookup) (call : Located Call) :
    (Call.check s call).Clean () ↔ call.value.WellTyped s.lookup := by
  simp only [Call.check, Logged.clean_bind, checkCallee]
  constructor
  · intro hall
    rcases hall with ⟨params, hcallee, hargs⟩
    split at hcallee
    · simp at hcallee
    · next signature visible =>
      simp only [Logged.clean_bind_unit, clean_require, decide_eq_true_eq, Logged.clean_pure]
        at hcallee
      obtain ⟨hlength, rfl⟩ := hcallee
      exact ⟨visible, (clean_checkArguments_iff hs (hs visible) hlength).1 hargs⟩
    · simp at hcallee
  · intro hall
    rcases hall with ⟨visible, arguments⟩
    have hlength := arguments.length_eq.symm
    refine ⟨_, ?_, (clean_checkArguments_iff hs (hs visible) hlength).2 arguments⟩
    rw [visible]
    simp [hlength]

mutual

/-- A statement is checked without a report exactly if it is well typed. -/
theorem Statement.clean_check_iff {s : Scope} (hs : Env.Settled s.lookup) :
    (statement : Statement) → ((statement.check s).Clean () ↔ statement.WellTyped s.lookup)
  | .conditional condition body otherwise => by
    simp only [Statement.check, Logged.clean_bind_unit, Relation.clean_check_iff hs,
      Statement.clean_checkAll_iff hs body, Statement.clean_checkAll_iff hs otherwise]
    exact ⟨fun h => .conditional h.1 h.2.1 h.2.2,
      fun | .conditional compared chosen rejected => ⟨compared, chosen, rejected⟩⟩
  | .loop condition body => by
    simp only [Statement.check, Logged.clean_bind_unit, Relation.clean_check_iff hs,
      Statement.clean_checkAll_iff hs body]
    exact ⟨fun h => .loop h.1 h.2, fun | .loop compared repeated => ⟨compared, repeated⟩⟩
  | .input name => by
    rw [Statement.check]
    exact clean_checkInput_iff hs name
  | .output value => by
    rw [Statement.check]
    refine (clean_basic_iff hs value _ _).trans ?_
    exact ⟨fun ⟨_, typed, basic⟩ => .output typed basic,
      fun | .output typed basic => ⟨_, typed, basic⟩⟩
  | .result value => by
    simp only [Statement.check, Logged.clean_bind, Expression.clean_check_iff hs,
      Logged.clean_pure, and_true]
    exact ⟨fun ⟨_, typed⟩ => .result typed, fun | .result typed => ⟨_, typed⟩⟩
  | .assign target value => by
    rw [Statement.check]
    exact clean_checkAssignment_iff hs target value
  | .call called => by
    rw [Statement.check, Call.clean_check_iff hs]
    exact ⟨.call, fun | .call typed => typed⟩
  | .hole => by
    simp only [Statement.check, Logged.clean_fail, false_iff]
    intro h
    cases h

theorem Statement.clean_checkAll_iff {s : Scope} (hs : Env.Settled s.lookup) :
    (statements : List Statement) → ((Statement.checkAll s statements).Clean () ↔
      ∀ statement ∈ statements, statement.WellTyped s.lookup)
  | [] => by simp [Statement.checkAll]
  | statement :: statements => by
    simp only [Statement.checkAll, Logged.clean_bind_unit, List.forall_mem_cons,
      Statement.clean_check_iff hs statement, Statement.clean_checkAll_iff hs statements]

end

end SnlFront
