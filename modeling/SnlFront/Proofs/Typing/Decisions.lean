import SnlFront.Proofs.Ty.Groups
import SnlFront.Proofs.Typing.Types

/-!
# What is decided about a type expression

A type expression is looked at twice, once to find what is wrong with it and once to find the type
that it denotes. Both looks come to the same decisions, and what is decided can be said by one set
of rules: a name stands for a type, or unknown has to stand in for it; the bounds of an array are in
order or crossed; the name of a field is the first of its kind in the record, and the field is kept,
or it is not, and the field is dropped. Exactly the second of each two decisions is reported, where
it was made.

## Main definitions

* `Decision`: what can be decided at a place in a type expression.
* `TypeExpr.Decided`: the type that an expression denotes, with the decisions that lead to it.
* `flaws`: what is reported about decisions.
* `Ty.FirstOf`: the first members of each name.

## Main statements

* `Ty.FirstOf.append`, `Ty.FirstOf.ofMembers_eq_iff`: members that are kept, one after the other,
  and the record that they make.
* `TypeExpr.Decided.resolve_eq`, `TypeExpr.Decided.validate_eq`: both looks follow the decisions.
* `TypeExpr.check_of_decided`: every expression without holes is decided, and the check comes to
  what is decided.
-/

namespace SnlFront

/-! ## Decisions -/

/-- What can be decided at a place in a type expression. -/
inductive Decision
  /-- The name stands for a type. -/
  | found (name : String)
  /-- The name stands for no type, and unknown stands in for it. -/
  | missing (name : String)
  /-- The bounds of the array are in order. -/
  | ordered (τ : Ty)
  /-- The bounds of the array are the wrong way round. -/
  | crossed (τ : Ty)
  /-- The name of a field is the first of its kind in the record, and the field is kept. -/
  | kept (name : String)
  /-- The name of a field is taken in the record, and the field is dropped. -/
  | dropped (name : String)

/-- What is wrong if something has been decided. -/
def Decision.flaw : Decision → Option Diagnostic
  | .missing name => some (.undefinedType name)
  | .crossed τ => some (.invalidArray τ)
  | .dropped name => some (.duplicatedIdentifier name)
  | .found _ | .ordered _ | .kept _ => none

/-- What is wrong with decisions, each where it was made. -/
def flaws (decisions : List (Located Decision)) : List (Located Diagnostic) :=
  decisions.filterMap fun d => d.value.flaw.map (Located.mk d.pos)

theorem flaws_append (decisions others : List (Located Decision)) :
    flaws (decisions ++ others) = flaws decisions ++ flaws others := List.filterMap_append

/-- Names that get a type as fields of a record, behind fields with other names: the fields that are
kept, and the decisions. -/
inductive FieldsDecided (τ : Ty) : List String → List (Located String) → List (String × Ty) →
    List (Located Decision) → Prop
  | nil {ahead : List String} : FieldsDecided τ ahead [] [] []
  | kept {ahead : List String} {name : Located String} {names : List (Located String)}
      {members : List (String × Ty)} {decisions : List (Located Decision)}
      (first : name.value ∉ ahead)
      (others : FieldsDecided τ (name.value :: ahead) names members decisions) :
      FieldsDecided τ ahead (name :: names) ((name.value, τ) :: members)
        (⟨name.pos, .kept name.value⟩ :: decisions)
  | dropped {ahead : List String} {name : Located String} {names : List (Located String)}
      {members : List (String × Ty)} {decisions : List (Located Decision)}
      (taken : name.value ∈ ahead)
      (others : FieldsDecided τ (name.value :: ahead) names members decisions) :
      FieldsDecided τ ahead (name :: names) members
        (⟨name.pos, .dropped name.value⟩ :: decisions)

mutual

/-- The type that an expression at a position denotes in a scope, with the decisions that lead to
it, from left to right. -/
inductive TypeExpr.Decided (s : Scope) : Position → TypeExpr → Ty → List (Located Decision) → Prop
  | integer {p : Position} : TypeExpr.Decided s p .integer .integer []
  | char {p : Position} : TypeExpr.Decided s p .char .char []
  | ordered {p : Position} {base : BaseType} {lower upper : Int} (bounds : lower ≤ upper) :
      TypeExpr.Decided s p (.array base lower upper) (.array base.toTy lower upper)
        [⟨p, .ordered (.array base.toTy lower upper)⟩]
  | crossed {p : Position} {base : BaseType} {lower upper : Int} (bounds : upper < lower) :
      TypeExpr.Decided s p (.array base lower upper) (.array base.toTy lower upper)
        [⟨p, .crossed (.array base.toTy lower upper)⟩]
  | found {p : Position} {name : String} {τ : Ty} (visible : s.lookup name = some (.type τ)) :
      TypeExpr.Decided s p (.named name) τ [⟨p, .found name⟩]
  | missing {p : Position} {name : String} (absent : ∀ τ, s.lookup name ≠ some (.type τ)) :
      TypeExpr.Decided s p (.named name) .unknown [⟨p, .missing name⟩]
  | record {p : Position} {groups : List Group} {members fields : List (String × Ty)}
      {decisions : List (Located Decision)}
      (decided : Group.Decided s [] groups members decisions)
      (sorted : Ty.SortedFields fields) (same : fields.Perm members) :
      TypeExpr.Decided s p (.record groups) (.record fields) decisions

/-- The fields of a record that are kept, behind fields with other names, with the decisions about
all fields and their types. -/
inductive Group.Decided (s : Scope) : List String → List Group → List (String × Ty) →
    List (Located Decision) → Prop
  | nil {ahead : List String} : Group.Decided s ahead [] [] []
  | cons {ahead : List String} {p : Position} {type : TypeExpr} {names : List (Located String)}
      {groups : List Group} {τ : Ty} {kept members : List (String × Ty)}
      {first second third : List (Located Decision)}
      (typed : TypeExpr.Decided s p type τ first)
      (named : FieldsDecided τ ahead names kept second)
      (others : Group.Decided s (names.map Located.value ++ ahead) groups members third) :
      Group.Decided s ahead (⟨⟨p, type⟩, names⟩ :: groups) (kept ++ members)
        (first ++ second ++ third)

end

/-! ## Members that are kept -/

/-- Fields are found exactly by their names. -/
theorem Ty.lookup_eq_none_iff (fields : List (String × Ty)) (name : String) :
    fields.lookup name = none ↔ name ∉ fields.map Prod.fst := by
  simp only [List.lookup_eq_none_iff, bne_iff_ne, List.mem_map, not_exists, not_and]
  exact forall₂_congr fun _ _ => ne_comm

/-- Of some members, the first of each name are kept, as far as their names are not taken. -/
structure Ty.FirstOf (taken : List String) (members kept : List (String × Ty)) : Prop where
  distinct : (kept.map Prod.fst).Nodup
  lookup : ∀ name, kept.lookup name = if name ∈ taken then none else members.lookup name

namespace Ty.FirstOf

variable {taken : List String} {members kept others rest : List (String × Ty)}

theorem nil (taken : List String) : FirstOf taken [] [] :=
  ⟨List.nodup_nil, fun name => by simp⟩

/-- A member with a new name is kept. -/
theorem keep {name : String} (h : name ∉ taken) (τ : Ty) :
    FirstOf taken [(name, τ)] [(name, τ)] := by
  refine ⟨List.nodup_singleton _, fun other => ?_⟩
  by_cases hother : other ∈ taken
  · have hne : other ≠ name := fun heq => h (heq ▸ hother)
    simp [hother, lookup_cons_eq_ite, hne]
  · simp [hother]

/-- A member with a name that is taken is dropped. -/
theorem drop {name : String} (h : name ∈ taken) (τ : Ty) : FirstOf taken [(name, τ)] [] := by
  refine ⟨List.nodup_nil, fun other => ?_⟩
  by_cases hother : other ∈ taken
  · simp [hother]
  · have hne : other ≠ name := fun heq => hother (heq ▸ h)
    simp [hother, lookup_cons_eq_ite, hne]

/-- The names of members are taken for the members behind them. -/
theorem append (h : FirstOf taken members kept)
    (h' : FirstOf (members.map Prod.fst ++ taken) others rest) :
    FirstOf taken (members ++ others) (kept ++ rest) := by
  constructor
  · rw [List.map_append, List.nodup_append']
    refine ⟨h.distinct, h'.distinct, fun name hkept hrest => ?_⟩
    -- a name that is kept behind the members is none of theirs
    have hfound := mt (lookup_eq_none_iff rest name).1 (not_not.2 hrest)
    have hnone : name ∉ members.map Prod.fst ++ taken := by
      intro hmem
      rw [h'.lookup, if_pos hmem] at hfound
      exact hfound rfl
    have hmissing : members.lookup name = none :=
      (lookup_eq_none_iff members name).2 fun hmem => hnone (List.mem_append_left _ hmem)
    have hlookup := h.lookup name
    rw [hmissing, ite_self] at hlookup
    exact (lookup_eq_none_iff kept name).1 hlookup hkept
  · intro name
    rw [List.lookup_append, List.lookup_append, h.lookup, h'.lookup]
    by_cases htaken : name ∈ taken
    · simp [htaken]
    · cases hmember : members.lookup name with
      | none =>
        have hmissing := (lookup_eq_none_iff members name).1 hmember
        simp only [List.mem_append, htaken, hmissing, or_self, if_false]
      | some τ => simp [htaken]

/-- The record of some members lists those that are kept. -/
theorem ofMembers_eq_iff (h : FirstOf [] members kept) (fields : List (String × Ty)) :
    Ty.ofMembers members = .record fields ↔ SortedFields fields ∧ fields.Perm kept := by
  have hsame : Ty.membersFields members = Ty.membersFields kept := by
    rw [Ty.membersFields_eq_iff]
    intro name
    rw [h.lookup, if_neg List.not_mem_nil]
  rw [← Ty.ofMembers_eq_iff h.distinct]
  change Ty.record (Ty.membersFields members) = _ ↔ Ty.record (Ty.membersFields kept) = _
  rw [hsame]

end Ty.FirstOf

/-! ## The type that is found -/

/-- A name has no type exactly if it stands for none; a variable of that name does not count. -/
theorem Scope.lookupType?_eq_none_iff (s : Scope) (name : String) :
    s.lookupType? name = none ↔ ∀ τ, s.lookup name ≠ some (.type τ) := by
  simp [Option.eq_none_iff_forall_ne_some, lookupType?_eq_some_iff]

/-- The fields that are kept are the first of their names. -/
theorem FieldsDecided.firstOf {τ : Ty} {ahead : List String} {names : List (Located String)}
    {kept : List (String × Ty)} {decisions : List (Located Decision)}
    (h : FieldsDecided τ ahead names kept decisions) :
    Ty.FirstOf ahead (names.map fun name => (name.value, τ)) kept := by
  induction h with
  | nil => exact .nil _
  | kept first others ih => exact (Ty.FirstOf.keep first τ).append ih
  | dropped taken others ih => exact (Ty.FirstOf.drop taken τ).append ih

mutual

/-- The type that is found is the one that is decided. -/
theorem TypeExpr.Decided.resolve_eq {s : Scope} : {p : Position} → {t : TypeExpr} → {τ : Ty} →
    {decisions : List (Located Decision)} → t.Decided s p τ decisions → t.resolve s = .ok τ
  | _, _, _, _, .integer => rfl
  | _, _, _, _, .char => rfl
  | _, _, _, _, .ordered _ => rfl
  | _, _, _, _, .crossed _ => rfl
  | _, .named name, τ, _, .found visible => by
    rw [TypeExpr.resolve, (s.lookupType?_eq_some_iff name τ).2 visible, Option.getD_some]
  | _, .named name, _, _, .missing absent => by
    rw [TypeExpr.resolve, (s.lookupType?_eq_none_iff name).2 absent, Option.getD_none]
  | _, .record groups, _, _, .record decided sorted same => by
    obtain ⟨members, hmembers, hkept⟩ := decided.resolveMembers_eq
    exact (TypeExpr.resolve_record s groups _).2
      ⟨members, hmembers, (hkept.ofMembers_eq_iff _).2 ⟨sorted, same⟩⟩

/-- The members that are kept are the first of their names among those that are found. -/
theorem Group.Decided.resolveMembers_eq {s : Scope} : {ahead : List String} →
    {groups : List Group} → {kept : List (String × Ty)} → {decisions : List (Located Decision)} →
    Group.Decided s ahead groups kept decisions →
    ∃ members, Group.resolveMembers s groups = .ok members ∧ Ty.FirstOf ahead members kept
  | _, _, _, _, .nil => ⟨[], rfl, .nil _⟩
  | _, ⟨⟨_, _⟩, _⟩ :: _, _, _, .cons typed named others => by
    obtain ⟨members, hmembers, hkept⟩ := others.resolveMembers_eq
    refine ⟨_ ++ members, ?_, named.firstOf.append ?_⟩
    · rw [Group.resolveMembers, typed.resolve_eq, hmembers]
      rfl
    · simpa [Function.comp_def] using hkept

end

/-! ## What is reported -/

theorem FieldsDecided.reportRepeated_eq {τ : Ty} {ahead : List String}
    {names : List (Located String)} {kept : List (String × Ty)}
    {decisions : List (Located Decision)} (h : FieldsDecided τ ahead names kept decisions) :
    reportRepeated ahead names = ⟨flaws decisions, .ok ()⟩ := by
  induction h with
  | nil => rfl
  | @kept ahead name names kept decisions first others ih =>
    have hfree : (!ahead.contains name.value) = true := by simpa using first
    rw [reportRepeated, hfree, ih]
    rfl
  | @dropped ahead name names kept decisions taken others ih =>
    have htaken : (!ahead.contains name.value) = false := by simpa using taken
    rw [reportRepeated, htaken, ih]
    rfl

mutual

/-- What is reported are the flaws of what is decided. -/
theorem TypeExpr.Decided.validate_eq {s : Scope} : {p : Position} → {t : TypeExpr} → {τ : Ty} →
    {decisions : List (Located Decision)} → t.Decided s p τ decisions →
    t.validate s p = ⟨flaws decisions, .ok ()⟩
  | _, _, _, _, .integer => rfl
  | _, _, _, _, .char => rfl
  | _, _, _, _, .ordered bounds => by
    rw [TypeExpr.validate, decide_eq_true bounds]
    rfl
  | _, _, _, _, .crossed bounds => by
    rw [TypeExpr.validate, decide_eq_false (not_le.2 bounds)]
    rfl
  | _, .named name, τ, _, .found visible => by
    rw [TypeExpr.validate, (s.lookupType?_eq_some_iff name τ).2 visible]
    rfl
  | _, .named name, _, _, .missing absent => by
    rw [TypeExpr.validate, (s.lookupType?_eq_none_iff name).2 absent]
    rfl
  | _, .record groups, _, _, .record decided _ _ => by
    rw [TypeExpr.validate]
    exact decided.validateAll_eq

/-- Groups of fields are reported in order, each against the names ahead of it. -/
theorem Group.Decided.validateAll_eq {s : Scope} : {ahead : List String} →
    {groups : List Group} → {kept : List (String × Ty)} → {decisions : List (Located Decision)} →
    Group.Decided s ahead groups kept decisions →
    Group.validateAll s ahead groups = ⟨flaws decisions, .ok ()⟩
  | _, _, _, _, .nil => rfl
  | _, ⟨⟨_, _⟩, _⟩ :: _, _, _, .cons typed named others => by
    rw [Group.validateAll, typed.validate_eq, named.reportRepeated_eq, Logged.mk_bind,
      Logged.mk_bind, others.validateAll_eq, flaws_append, flaws_append, List.append_assoc]

end

/-! ## Everything is decided -/

/-- Every row of names can be decided: a name is kept, or is a repeat. -/
theorem FieldsDecided.exists (τ : Ty) (ahead : List String) (names : List (Located String)) :
    ∃ kept decisions, FieldsDecided τ ahead names kept decisions := by
  induction names generalizing ahead with
  | nil => exact ⟨[], [], .nil⟩
  | cons name names ih =>
    obtain ⟨kept, decisions, others⟩ := ih (name.value :: ahead)
    by_cases h : name.value ∈ ahead
    · exact ⟨_, _, .dropped h others⟩
    · exact ⟨_, _, .kept h others⟩

mutual

/-- An expression without holes is decided in every scope. -/
theorem TypeExpr.exists_decided (s : Scope) (p : Position) : (t : TypeExpr) → t.holeFree = true →
    ∃ τ decisions, t.Decided s p τ decisions
  | .integer, _ => ⟨_, _, .integer⟩
  | .char, _ => ⟨_, _, .char⟩
  | .array _ lower upper, _ => by
    rcases le_or_gt lower upper with bounds | bounds
    · exact ⟨_, _, .ordered bounds⟩
    · exact ⟨_, _, .crossed bounds⟩
  | .record groups, h => by
    obtain ⟨kept, decisions, decided⟩ := Group.exists_decided s [] groups h
    obtain ⟨members, -, hkept⟩ := decided.resolveMembers_eq
    obtain ⟨sorted, same⟩ := (hkept.ofMembers_eq_iff _).1 rfl
    exact ⟨_, _, .record decided sorted same⟩
  | .named name, _ => by
    by_cases h : ∃ τ, s.lookup name = some (.type τ)
    · obtain ⟨τ, visible⟩ := h
      exact ⟨_, _, .found visible⟩
    · exact ⟨_, _, .missing (not_exists.1 h)⟩

/-- Groups without holes can be decided one after the other. -/
theorem Group.exists_decided (s : Scope) : (ahead : List String) → (groups : List Group) →
    Group.allHoleFree groups = true → ∃ kept decisions, Group.Decided s ahead groups kept decisions
  | _, [], _ => ⟨_, _, .nil⟩
  | ahead, ⟨⟨p, type⟩, names⟩ :: groups, h => by
    rw [Group.allHoleFree, Bool.and_eq_true] at h
    obtain ⟨τ, _, typed⟩ := TypeExpr.exists_decided s p type h.1
    obtain ⟨_, _, named⟩ := FieldsDecided.exists τ ahead names
    obtain ⟨_, _, others⟩ := Group.exists_decided s (names.map Located.value ++ ahead) groups h.2
    exact ⟨_, _, .cons typed named others⟩

end

/-! ## Nothing unknown without a report -/

theorem FieldsDecided.type_eq {τ : Ty} {ahead : List String} {names : List (Located String)}
    {kept : List (String × Ty)} {decisions : List (Located Decision)}
    (h : FieldsDecided τ ahead names kept decisions) : ∀ member ∈ kept, member.2 = τ := by
  induction h with
  | nil => exact nofun
  | kept first others ih => exact List.forall_mem_cons.2 ⟨rfl, ih⟩
  | dropped taken others ih => exact ih

mutual

/-- If all decisions are sound, nothing unknown is put into a type. -/
theorem TypeExpr.Decided.known {s : Scope}
    (hs : ∀ name τ, s.lookup name = some (.type τ) → τ.Known) :
    {p : Position} → {t : TypeExpr} → {τ : Ty} →
    {decisions : List (Located Decision)} → t.Decided s p τ decisions → flaws decisions = [] →
    τ.Known
  | _, _, _, _, .integer, _ => trivial
  | _, _, _, _, .char, _ => trivial
  | _, .array base _ _, _, _, .ordered _, _ => (Ty.settled_array base _ _).known
  | _, .array base _ _, _, _, .crossed _, _ => (Ty.settled_array base _ _).known
  | _, .named name, τ, _, .found visible, _ => hs name τ visible
  | _, .record _, _, _, .record decided _ same, h =>
    (Ty.knownFields_iff _).2 fun field hfield => decided.known hs h field (same.mem_iff.1 hfield)

theorem Group.Decided.known {s : Scope}
    (hs : ∀ name τ, s.lookup name = some (.type τ) → τ.Known) :
    {ahead : List String} → {groups : List Group} →
    {kept : List (String × Ty)} → {decisions : List (Located Decision)} →
    Group.Decided s ahead groups kept decisions → flaws decisions = [] →
    ∀ member ∈ kept, member.2.Known
  | _, _, _, _, .nil, _ => nofun
  | _, ⟨⟨_, _⟩, _⟩ :: _, _, _, .cons typed named others, h => by
    rw [flaws_append, flaws_append, List.append_eq_nil_iff, List.append_eq_nil_iff] at h
    intro member hmember
    rcases List.mem_append.1 hmember with hmember | hmember
    · rw [named.type_eq member hmember]
      exact typed.known hs h.1.1
    · exact others.known hs h.2 member hmember

end

/-- What a check of a type expression comes to. Every expression without holes is decided; whatever
the rules decide, the check finds the type that is decided, which is the one that the expression
denotes, and reports exactly the flaws of the decisions, in their order and where they were made.
So where the visible names of types stand for known ones and nothing is reported, the type that is
found is known. -/
theorem TypeExpr.check_of_decided (s : Scope) (t : Located TypeExpr)
    (h : t.value.holeFree = true) :
    (∃ τ decisions, t.value.Decided s t.pos τ decisions) ∧
    ∀ τ decisions, t.value.Decided s t.pos τ decisions →
      t.value.resolve s = .ok τ ∧
      TypeExpr.check s t = ⟨flaws decisions, .ok τ⟩ ∧
      ((TypeExpr.check s t).log = [] →
        (∀ name σ, s.lookup name = some (.type σ) → σ.Known) → τ.Known) := by
  refine ⟨TypeExpr.exists_decided s t.pos t.value h, fun τ decisions hdecided => ?_⟩
  have hcheck : TypeExpr.check s t = ⟨flaws decisions, .ok τ⟩ := by
    rw [TypeExpr.check, hdecided.validate_eq, hdecided.resolve_eq, Logged.mk_bind,
      Logged.ofExcept, List.append_nil]
  refine ⟨hdecided.resolve_eq, hcheck, fun hlog hknown => ?_⟩
  rw [hcheck] at hlog
  exact hdecided.known hknown hlog

/-- A scope in which one name stands for a type. -/
def letterScope : Scope := Scope.empty.declare "letter" (.type .char)

/-- A record with repeated fields, an array with crossed bounds and, in a record of its own, a name
that stands for no type. -/
def raggedType : Located TypeExpr :=
  ⟨⟨1, 1⟩, .record [
    ⟨⟨⟨1, 8⟩, .named "letter"⟩, [⟨⟨1, 15⟩, "b"⟩, ⟨⟨1, 18⟩, "b"⟩]⟩,
    ⟨⟨⟨2, 8⟩, .record [⟨⟨⟨2, 15⟩, .named "digit"⟩, [⟨⟨2, 21⟩, "b"⟩]⟩]⟩, [⟨⟨2, 28⟩, "a"⟩]⟩,
    ⟨⟨⟨3, 8⟩, .array .integer 5 1⟩, [⟨⟨3, 34⟩, "a"⟩]⟩]⟩

theorem raggedType_check :
    raggedType.value.holeFree = true ∧ ∃ decisions,
      raggedType.value.Decided letterScope raggedType.pos
        (.record [("a", .record [("b", .unknown)]), ("b", .char)]) decisions ∧
      flaws decisions =
        [⟨⟨1, 18⟩, .duplicatedIdentifier "b"⟩, ⟨⟨2, 15⟩, .undefinedType "digit"⟩,
          ⟨⟨3, 8⟩, .invalidArray (.array .integer 5 1)⟩, ⟨⟨3, 34⟩, .duplicatedIdentifier "a"⟩] := by
  obtain ⟨⟨τ, decisions, hdecided⟩, hall⟩ := TypeExpr.check_of_decided letterScope raggedType rfl
  obtain ⟨hτ, hcheck, -⟩ := hall τ decisions hdecided
  have hfound : raggedType.value.resolve letterScope =
      .ok (.record [("a", .record [("b", .unknown)]), ("b", .char)]) := by rfl
  obtain rfl := Except.ok.inj (hfound.symm.trans hτ)
  have hlog := congrArg Logged.log hcheck
  exact ⟨rfl, decisions, hdecided, hlog.symm⟩

end SnlFront
