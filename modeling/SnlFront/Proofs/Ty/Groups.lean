import SnlFront.Proofs.Checking.Related
import SnlFront.Proofs.Checking.Stops
import SnlFront.Proofs.Ty.Fields

/-!
# Record expressions as tables of fields

A record is written as groups of names that share a type. What it denotes depends on one thing only:
which group is the first to have a name. Fields are found by it, two record expressions denote the
same record exactly if it gives them the same types, and so neither the order of the fields nor
their grouping matters as long as no name is repeated.

## Main definitions

* `Group.first?`: the first group that has a name.
* `Group.typedNames`: the fields that are written, each with the type of its group.

## Main statements

* `Group.rel_lookup_resolveMembers`: the members of a record expression under a name.
* `TypeExpr.resolve_record_first`: records are determined by the first occurrences of names.
-/

namespace SnlFront

namespace Group

/-- The first group that has a name. -/
def first? (groups : List Group) (name : String) : Option Group :=
  groups.find? fun group => group.declared.contains name

/-- The fields that are written, each with what the type of its group denotes in a scope. -/
def typedNames (s : Scope) (groups : List Group) : List (String × Except Fault Ty) :=
  groups.flatMap fun group => group.declared.map fun name => (name, group.type.value.resolve s)

/-- What a group denotes is a type. -/
abbrev HasType (s : Scope) (group : Group) (τ : Ty) : Prop := group.type.value.resolve s = .ok τ

theorem first?_eq_none_iff (groups : List Group) (name : String) :
    first? groups name = none ↔ ∀ group ∈ groups, name ∉ group.declared := by
  simp [first?]

theorem first?_cons (group : Group) (groups : List Group) (name : String) :
    first? (group :: groups) name =
      if name ∈ group.declared then some group else first? groups name := by
  by_cases h : name ∈ group.declared <;> simp [first?, h]

/-- Members with one type are found under their names. -/
theorem lookup_map_append (names : List (Located String)) (τ : Ty) (members : List (String × Ty))
    (name : String) :
    (names.map (fun n => (n.value, τ)) ++ members).lookup name =
      if name ∈ names.map Located.value then some τ else members.lookup name := by
  induction names with
  | nil => simp
  | cons first names ih =>
    rw [List.map_cons, List.cons_append, Ty.lookup_cons_eq_ite, ih]
    by_cases h : name = first.value <;> simp [h]

/-- The members of a record are those of its first group, and behind them those of the others. -/
theorem resolveMembers_cons_eq_ok {s : Scope} {group : Group} {groups : List Group}
    {members : List (String × Ty)} (h : Group.resolveMembers s (group :: groups) = .ok members) :
    ∃ τ rest, group.HasType s τ ∧ Group.resolveMembers s groups = .ok rest ∧
      members = group.names.map (fun name => (name.value, τ)) ++ rest := by
  obtain ⟨⟨p, type⟩, names⟩ := group
  rw [Group.resolveMembers] at h
  cases hτ : type.resolve s with
  | error fault =>
    rw [hτ] at h
    cases h
  | ok τ =>
    cases hrest : Group.resolveMembers s groups with
    | error fault =>
      rw [hτ, hrest] at h
      cases h
    | ok rest =>
      rw [hτ, hrest] at h
      exact ⟨τ, rest, hτ, rfl, (Except.ok.inj h).symm⟩

/-- The members of a record expression have the types of the first groups with their names. -/
theorem rel_lookup_resolveMembers {s : Scope} {groups : List Group} {members : List (String × Ty)}
    (h : Group.resolveMembers s groups = .ok members) (name : String) :
    Option.Rel (HasType s) (first? groups name) (members.lookup name) := by
  induction groups generalizing members with
  | nil =>
    cases h
    exact .none
  | cons group groups ih =>
    obtain ⟨τ, rest, hτ, hrest, rfl⟩ := resolveMembers_cons_eq_ok h
    rw [first?_cons, lookup_map_append, Group.declared]
    by_cases hname : name ∈ group.names.map Located.value
    · rw [if_pos hname, if_pos hname]
      exact .some hτ
    · rw [if_neg hname, if_neg hname]
      exact ih hrest

/-- The fields that are written are the members of the record, in the same order. -/
theorem typedNames_eq_map {s : Scope} {groups : List Group} {members : List (String × Ty)}
    (h : Group.resolveMembers s groups = .ok members) :
    typedNames s groups = members.map fun member => (member.1, .ok member.2) := by
  induction groups generalizing members with
  | nil =>
    cases h
    rfl
  | cons group groups ih =>
    obtain ⟨τ, rest, hτ, hrest, rfl⟩ := resolveMembers_cons_eq_ok h
    have hothers : typedNames s groups = rest.map fun member => (member.1, .ok member.2) :=
      ih hrest
    rw [typedNames, List.flatMap_cons, ← typedNames, hothers, hτ]
    simp [Group.declared, Function.comp_def]

theorem map_fst_typedNames {s : Scope} {groups : List Group} {members : List (String × Ty)}
    (h : Group.resolveMembers s groups = .ok members) :
    (typedNames s groups).map Prod.fst = members.map Prod.fst := by
  simp [typedNames_eq_map h, Function.comp_def]

theorem mem_typedNames_iff {s : Scope} {groups : List Group} {members : List (String × Ty)}
    (h : Group.resolveMembers s groups = .ok members) (name : String) (τ : Ty) :
    (name, .ok τ) ∈ typedNames s groups ↔ (name, τ) ∈ members := by
  simp [typedNames_eq_map h]

end Group

/-! ## Records -/

/-- A record expression without holes denotes the record of its members. -/
theorem TypeExpr.resolve_record_of_holeFree {s : Scope} {groups : List Group}
    (h : Group.allHoleFree groups = true) :
    ∃ members, Group.resolveMembers s groups = .ok members ∧
      (TypeExpr.record groups).resolve s = .ok (.record (Ty.membersFields members)) := by
  obtain ⟨members, hmembers⟩ := Group.resolveMembers_eq_ok s groups h
  refine ⟨members, hmembers, ?_⟩
  rw [TypeExpr.resolve, hmembers]
  rfl

/-- Members that are found alike make the same record. -/
theorem Ty.membersFields_eq_iff (members others : List (String × Ty)) :
    Ty.membersFields members = Ty.membersFields others ↔
      ∀ name, members.lookup name = others.lookup name := by
  constructor
  · intro h name
    rw [← Ty.lookup_membersFields, h, Ty.lookup_membersFields]
  · intro h
    refine Ty.eq_of_lookup_eq (Ty.sortedFields_membersFields _) (Ty.sortedFields_membersFields _)
      fun name => ?_
    rw [Ty.lookup_membersFields, h, Ty.lookup_membersFields]

/-- Distinct members in another order make the same record. -/
theorem Ty.lookup_eq_of_perm {members others : List (String × Ty)}
    (hnodup : (members.map Prod.fst).Nodup)
    (hsame : ∀ entry, entry ∈ members ↔ entry ∈ others)
    (hnodup' : (others.map Prod.fst).Nodup) (name : String) :
    members.lookup name = others.lookup name := by
  apply Option.ext
  intro τ
  rw [Ty.lookup_eq_some_iff_mem hnodup, Ty.lookup_eq_some_iff_mem hnodup', hsame]

/-- Two look-ups that follow the same groups find the same type exactly if the groups have it. -/
theorem Group.rel_hasType_iff {s : Scope} {x y : Option Group} {a b : Option Ty}
    (hx : Option.Rel (HasType s) x a) (hy : Option.Rel (HasType s) y b) :
    a = b ↔ Option.Rel (fun g g' => g.type.value.resolve s = g'.type.value.resolve s) x y := by
  cases hx with
  | none =>
    cases hy with
    | none => exact iff_of_true rfl .none
    | some hg => exact iff_of_false nofun nofun
  | some hg =>
    cases hy with
    | none => exact iff_of_false nofun nofun
    | some hg' =>
      rw [Option.rel_some_some, hg, hg']
      simp

/-- What a record expression denotes is told by the first groups with each name. A field is found
exactly if some group has its name, and has the type of the first such group. Two record
expressions denote the same record exactly if every name occurs in none of them, or in both with the
same type at its first occurrence. So distinct fields may be put in any order and in any groups. -/
theorem TypeExpr.resolve_record_first (s : Scope) {groups others : List Group}
    (h : Group.allHoleFree groups = true) (h' : Group.allHoleFree others = true) :
    (∃ fields, (TypeExpr.record groups).resolve s = .ok (.record fields) ∧ ∀ name,
      (Ty.field? fields name = none ↔ ∀ group ∈ groups, name ∉ group.declared) ∧
      ∀ group, Group.first? groups name = some group →
        ∃ τ, group.type.value.resolve s = .ok τ ∧ Ty.field? fields name = some τ) ∧
    ((TypeExpr.record groups).resolve s = (TypeExpr.record others).resolve s ↔
      ∀ name, Option.Rel (fun g g' => g.type.value.resolve s = g'.type.value.resolve s)
        (Group.first? groups name) (Group.first? others name)) ∧
    ((Group.typedNames s groups).Perm (Group.typedNames s others) →
      ((Group.typedNames s groups).map Prod.fst).Nodup →
      (TypeExpr.record groups).resolve s = (TypeExpr.record others).resolve s) := by
  obtain ⟨members, hmembers, hrecord⟩ := TypeExpr.resolve_record_of_holeFree (s := s) h
  obtain ⟨members', hmembers', hrecord'⟩ := TypeExpr.resolve_record_of_holeFree (s := s) h'
  have hfirst := Group.rel_lookup_resolveMembers hmembers
  have hfirst' := Group.rel_lookup_resolveMembers hmembers'
  have heq : (TypeExpr.record groups).resolve s = (TypeExpr.record others).resolve s ↔
      ∀ name, members.lookup name = members'.lookup name := by
    rw [hrecord, hrecord', Except.ok.injEq, Ty.record.injEq, Ty.membersFields_eq_iff]
  refine ⟨⟨Ty.membersFields members, hrecord, fun name => ?_⟩, ?_, ?_⟩
  · have hfield : Ty.field? (Ty.membersFields members) name = members.lookup name := by
      rw [Ty.field?_eq_lookup (Ty.sortedFields_membersFields members), Ty.lookup_membersFields]
    rw [hfield, ← Group.first?_eq_none_iff]
    rcases cases_of_rel (hfirst name) with ⟨hnone, hmissing⟩ | ⟨group, τ, hgroup, hfound, hτ⟩
    · rw [hnone, hmissing]
      exact ⟨iff_of_true rfl rfl, nofun⟩
    · rw [hgroup, hfound]
      refine ⟨iff_of_false nofun nofun, ?_⟩
      rintro _ ⟨⟩
      exact ⟨τ, hτ, rfl⟩
  · rw [heq]
    exact forall_congr' fun name => Group.rel_hasType_iff (hfirst name) (hfirst' name)
  · intro hperm hnodup
    have hnodup' := (hperm.map Prod.fst).nodup_iff.1 hnodup
    rw [Group.map_fst_typedNames hmembers] at hnodup
    rw [Group.map_fst_typedNames hmembers'] at hnodup'
    refine heq.2 (Ty.lookup_eq_of_perm hnodup (fun entry => ?_) hnodup')
    rw [← Group.mem_typedNames_iff hmembers, ← Group.mem_typedNames_iff hmembers', hperm.mem_iff]

/-- The fields of a record with a repeated name, a nested record and a group without names. -/
def crowdedGroups : List Group :=
  [⟨⟨⟨1, 1⟩, .integer⟩, [⟨⟨1, 9⟩, "b"⟩, ⟨⟨1, 12⟩, "a"⟩]⟩, ⟨⟨⟨2, 1⟩, .char⟩, []⟩,
    ⟨⟨⟨3, 1⟩, .record [⟨⟨⟨3, 8⟩, .char⟩, [⟨⟨3, 13⟩, "x"⟩, ⟨⟨3, 16⟩, "x"⟩]⟩]⟩,
      [⟨⟨3, 24⟩, "a"⟩, ⟨⟨3, 27⟩, "c"⟩]⟩]

/-- The same fields without the repeated ones, in another order. -/
def tidyGroups : List Group :=
  [⟨⟨⟨1, 1⟩, .record [⟨⟨⟨1, 8⟩, .char⟩, [⟨⟨1, 13⟩, "x"⟩]⟩]⟩, [⟨⟨1, 20⟩, "c"⟩]⟩,
    ⟨⟨⟨2, 1⟩, .integer⟩, [⟨⟨2, 9⟩, "a"⟩]⟩, ⟨⟨⟨3, 1⟩, .integer⟩, [⟨⟨3, 9⟩, "b"⟩]⟩]

theorem crowdedGroups_resolve_eq_tidyGroups :
    (TypeExpr.record crowdedGroups).resolve .empty = (TypeExpr.record tidyGroups).resolve .empty ∧
      ∃ fields, (TypeExpr.record crowdedGroups).resolve .empty = .ok (.record fields) ∧
        Ty.field? fields "a" = some .integer ∧ Ty.field? fields "d" = none := by
  have hcrowded : Group.allHoleFree crowdedGroups = true := by decide
  have htidy : Group.allHoleFree tidyGroups = true := by decide
  obtain ⟨⟨fields, hfields, hfound⟩, hsame, -⟩ :=
    TypeExpr.resolve_record_first .empty hcrowded htidy
  refine ⟨hsame.2 fun name => ?_, fields, hfields, ?_, ?_⟩
  · by_cases ha : name = "a"
    · subst ha
      exact .some rfl
    by_cases hb : name = "b"
    · subst hb
      exact .some rfl
    by_cases hc : name = "c"
    · subst hc
      exact .some rfl
    have hcrowded : Group.first? crowdedGroups name = none := by
      simp [Group.first?, crowdedGroups, Group.declared, Ne.symm ha, Ne.symm hb, Ne.symm hc]
    have htidy : Group.first? tidyGroups name = none := by
      simp [Group.first?, tidyGroups, Group.declared, Ne.symm ha, Ne.symm hb, Ne.symm hc]
    rw [hcrowded, htidy]
    exact .none
  · obtain ⟨τ, hτ, hfield⟩ := (hfound "a").2 _ rfl
    cases hτ
    exact hfield
  · rw [(hfound "d").1]
    decide

end SnlFront
