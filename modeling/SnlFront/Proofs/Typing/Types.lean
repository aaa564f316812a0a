import SnlFront.Proofs.Checking.Clean
import SnlFront.Proofs.Ty.Canonical
import SnlFront.Proofs.Typing.System

/-!
# Checked type expressions

A type expression about which nothing is reported denotes a type by the rules, and it denotes the
one that the check finds. Where all names stand for settled types, so does the expression: this is
why nothing unknown comes up as long as nothing is reported.

## Main definitions

* `Ty.Settled`, `Symbol.Settled`, `Env.Settled`: canonical, and nothing unknown.

## Main statements

* `TypeExpr.Denotes.settled`: the rules give settled types only.
* `TypeExpr.clean_check_iff`: a clean check finds the type that the rules give.
-/

namespace SnlFront

/-! ## Settled types -/

/-- A type is canonical, and nothing in it is unknown. -/
structure Ty.Settled (τ : Ty) : Prop where
  canonical : τ.Canonical
  known : τ.Known

/-- A symbol stands for settled types only. -/
def Symbol.Settled : Symbol → Prop
  | .variable τ => τ.Settled
  | .type τ => τ.Settled
  | .procedure params => ∀ τ ∈ params, τ.Settled

/-- Every visible name stands for settled types only. -/
def Env.Settled (Γ : Env) : Prop := ∀ ⦃name symbol⦄, Γ name = some symbol → symbol.Settled

namespace Ty

theorem settled_integer : Ty.integer.Settled := ⟨trivial, trivial⟩

theorem settled_char : Ty.char.Settled := ⟨trivial, trivial⟩

/-- Arrays are settled, whatever their bounds are. -/
theorem settled_array (base : BaseType) (lower upper : Int) :
    (Ty.array base.toTy lower upper).Settled := by
  cases base with
  | integer => exact ⟨rfl, trivial⟩
  | char => exact ⟨rfl, trivial⟩

/-- A record is settled if its fields are sorted and have settled types. -/
theorem settled_record {fields : List (String × Ty)} (hsorted : SortedFields fields)
    (h : ∀ field ∈ fields, field.2.Settled) : (Ty.record fields).Settled where
  canonical := ⟨hsorted, (canonicalFields_iff fields).2 fun field hf => (h field hf).canonical⟩
  known := (knownFields_iff fields).2 fun field hf => (h field hf).known

theorem Settled.field {fields : List (String × Ty)} (h : (Ty.record fields).Settled)
    {field : String × Ty} (hf : field ∈ fields) : field.2.Settled where
  canonical := (canonicalFields_iff fields).1 h.canonical.2 field hf
  known := (knownFields_iff fields).1 h.known field hf

/-- The elements of a settled array are settled. -/
theorem Settled.element {base : Ty} {lower upper : Int} (h : (Ty.array base lower upper).Settled) :
    base.Settled := by
  have hbase : base.isBase = true := h.canonical
  cases base with
  | integer => exact settled_integer
  | char => exact settled_char
  | unknown | array _ _ _ | record _ => cases hbase

/-- The check for base types is the rule for them. -/
theorem isBase_iff (τ : Ty) : τ.isBase = true ↔ τ.Basic := by
  constructor
  · intro h
    cases τ with
    | integer => exact .integer
    | char => exact .char
    | unknown | array base lower upper | record fields => cases h
  · rintro (_ | _) <;> rfl

end Ty

mutual

/-- The rules give settled types only. -/
theorem TypeExpr.Denotes.settled {Γ : Env} (hΓ : Γ.Settled) :
    {t : TypeExpr} → {τ : Ty} → t.Denotes Γ τ → τ.Settled
  | _, _, .integer => Ty.settled_integer
  | _, _, .char => Ty.settled_char
  | _, _, .array _ => Ty.settled_array _ _ _
  | _, _, .record denoted _ sorted same =>
    Ty.settled_record sorted fun field hf => denoted.settled hΓ field (same.mem_iff.1 hf)
  | _, _, .named visible => hΓ visible

theorem Group.MembersDenote.settled {Γ : Env} (hΓ : Γ.Settled) :
    {groups : List Group} → {members : List (String × Ty)} →
      Group.MembersDenote Γ groups members → ∀ member ∈ members, member.2.Settled
  | _, _, .nil => by simp
  | _, _, .cons first others => by
    intro member hmember
    rcases List.mem_append.1 hmember with hmember | hmember
    · obtain ⟨name, _, rfl⟩ := List.mem_map.1 hmember
      exact first.settled hΓ
    · exact others.settled hΓ member hmember

end

/-! ## The check of a type expression -/

/-- An alias is a name that stands for a type; other symbols do not count. -/
theorem Scope.lookupType?_eq_some_iff (s : Scope) (name : String) (τ : Ty) :
    s.lookupType? name = some τ ↔ s.lookup name = some (.type τ) := by
  rw [lookupType?]
  split
  · next type h => simp [h]
  · next hno => exact ⟨nofun, fun h => absurd h (hno τ)⟩

/-- Nothing is reported of names that are distinct and have not been seen. -/
theorem clean_reportRepeated_iff (seen : List String) (names : List (Located String)) :
    (reportRepeated seen names).Clean () ↔ Fresh (· ∈ seen) (names.map Located.value) := by
  induction names generalizing seen with
  | nil => simp [reportRepeated]
  | cons name names ih =>
    simp only [reportRepeated, Logged.clean_bind_unit, clean_require, ih, List.map_cons, fresh_cons]
    simp

theorem Group.resolveMembers_cons (s : Scope) (group : Group) (groups : List Group)
    (members : List (String × Ty)) :
    Group.resolveMembers s (group :: groups) = .ok members ↔
      ∃ τ others, group.type.value.resolve s = .ok τ ∧
        Group.resolveMembers s groups = .ok others ∧
        members = group.declared.map (fun name => (name, τ)) ++ others := by
  obtain ⟨⟨p, type⟩, names⟩ := group
  rw [Group.resolveMembers]
  cases type.resolve s with
  | error fault => simp [bind, Except.bind]
  | ok τ =>
    cases Group.resolveMembers s groups with
    | error fault => simp [bind, Except.bind]
    | ok others =>
      simp [bind, Except.bind, pure, Except.pure, Group.declared, Function.comp_def, eq_comm]

theorem TypeExpr.resolve_record (s : Scope) (groups : List Group) (τ : Ty) :
    (TypeExpr.record groups).resolve s = .ok τ ↔
      ∃ members, Group.resolveMembers s groups = .ok members ∧ Ty.ofMembers members = τ := by
  rw [TypeExpr.resolve]
  cases Group.resolveMembers s groups with
  | error fault => simp [Except.map]
  | ok members => simp [Except.map]

mutual

/-- The two looks at a type expression, taken together, agree with the rules. -/
theorem TypeExpr.validate_resolve_iff (s : Scope) (p : Position) : (t : TypeExpr) → (τ : Ty) →
    ((t.validate s p).Clean () ∧ t.resolve s = .ok τ ↔ t.Denotes s.lookup τ)
  | .integer, τ => by
    simp only [TypeExpr.validate, TypeExpr.resolve]
    exact ⟨fun h => (Except.ok.inj h.2) ▸ .integer, fun | .integer => ⟨⟨rfl, rfl⟩, rfl⟩⟩
  | .char, τ => by
    simp only [TypeExpr.validate, TypeExpr.resolve]
    exact ⟨fun h => (Except.ok.inj h.2) ▸ .char, fun | .char => ⟨⟨rfl, rfl⟩, rfl⟩⟩
  | .array base lower upper, τ => by
    simp only [TypeExpr.validate, TypeExpr.resolve, clean_require, decide_eq_true_eq,
      Except.ok.injEq]
    constructor
    · intro hall
      rcases hall with ⟨hbounds, rfl⟩
      exact .array hbounds
    · intro h
      cases h with
      | array bounds => exact ⟨bounds, rfl⟩
  | .record groups, τ => by
    have ih := Group.validateAll_resolveMembers_iff s [] groups
    simp only [TypeExpr.validate, TypeExpr.resolve_record]
    constructor
    · intro hall
      rcases hall with ⟨hclean, members, hmembers, rfl⟩
      obtain ⟨hdenoted, hdistinct, _⟩ := (ih members).1 ⟨hclean, hmembers⟩
      obtain ⟨hsorted, hsame⟩ := (Ty.ofMembers_eq_iff hdistinct).1 rfl
      exact .record hdenoted hdistinct hsorted hsame
    · intro h
      cases h with
      | record denoted distinct sorted same =>
        obtain ⟨hclean, hmembers⟩ := (ih _).2 ⟨denoted, distinct, by simp⟩
        exact ⟨hclean, _, hmembers, (Ty.ofMembers_eq_iff distinct).2 ⟨sorted, same⟩⟩
  | .named name, τ => by
    simp only [TypeExpr.validate, TypeExpr.resolve, clean_require, Option.isSome_iff_exists,
      Except.ok.injEq]
    constructor
    · intro hall
      rcases hall with ⟨⟨σ, hσ⟩, hτ⟩
      have hsame : σ = τ := by simpa [hσ] using hτ
      subst hsame
      exact .named ((s.lookupType?_eq_some_iff name σ).1 hσ)
    · intro h
      cases h with
      | named visible =>
        have hτ := (s.lookupType?_eq_some_iff name τ).2 visible
        exact ⟨⟨τ, hτ⟩, by simp [hτ]⟩
  | .hole, τ => by
    constructor
    · intro hall
      rcases hall with ⟨_, hresolve⟩
      cases hresolve
    · intro h
      cases h

theorem Group.validateAll_resolveMembers_iff (s : Scope) : (seen : List String) →
    (groups : List Group) → (members : List (String × Ty)) →
    ((Group.validateAll s seen groups).Clean () ∧ Group.resolveMembers s groups = .ok members ↔
      Group.MembersDenote s.lookup groups members ∧
        Fresh (· ∈ seen) (members.map Prod.fst))
  | seen, [], members => by
    simp only [Group.validateAll, Group.resolveMembers, Logged.clean_pure, Except.ok.injEq]
    constructor
    · intro hall
      rcases hall with ⟨_, rfl⟩
      exact ⟨.nil, fresh_nil _⟩
    · intro hall
      rcases hall with ⟨hdenoted, _⟩
      cases hdenoted
      exact ⟨trivial, rfl⟩
  | seen, ⟨⟨p, type⟩, names⟩ :: groups, members => by
    have first := TypeExpr.validate_resolve_iff s p type
    have others := Group.validateAll_resolveMembers_iff s (names.map Located.value ++ seen) groups
    have hfresh : ∀ (τ : Ty) (rest : List (String × Ty)),
        Fresh (· ∈ seen)
            (((names.map Located.value).map (fun name => (name, τ)) ++ rest).map Prod.fst) ↔
          Fresh (· ∈ seen) (names.map Located.value) ∧
            Fresh (· ∈ names.map Located.value ++ seen) (rest.map Prod.fst) := by
      intro τ rest
      rw [List.map_append, List.map_map, fresh_append]
      simp [Function.comp_def]
    simp only [Group.validateAll, Logged.clean_bind_unit, clean_reportRepeated_iff,
      Group.resolveMembers_cons, Group.declared]
    constructor
    · intro hall
      rcases hall with ⟨⟨hfirst, hnames, hothers⟩, τ, rest, hτ, hrest, rfl⟩
      obtain ⟨hdenoted, hunseen⟩ := (others rest).1 ⟨hothers, hrest⟩
      exact ⟨.cons ((first τ).1 ⟨hfirst, hτ⟩) hdenoted, (hfresh τ rest).2 ⟨hnames, hunseen⟩⟩
    · intro hall
      rcases hall with ⟨hdenoted, hdistinct⟩
      cases hdenoted with
      | @cons _ _ τ rest hfirst hothers =>
        obtain ⟨hnames, hunseen⟩ := (hfresh τ rest).1 hdistinct
        obtain ⟨hvalid, hτ⟩ := (first τ).2 hfirst
        obtain ⟨hvalids, hrest⟩ := (others rest).2 ⟨hothers, hunseen⟩
        exact ⟨⟨hvalid, hnames, hvalids⟩, τ, rest, hτ, hrest, rfl⟩

end

/-- A check reports nothing exactly if the rules give the expression a type, and finds that type. -/
theorem TypeExpr.clean_check_iff (s : Scope) (t : Located TypeExpr) (τ : Ty) :
    (TypeExpr.check s t).Clean τ ↔ t.value.Denotes s.lookup τ := by
  rw [TypeExpr.check, Logged.clean_bind_unit, Logged.clean_ofExcept]
  exact TypeExpr.validate_resolve_iff s t.pos t.value τ

end SnlFront
