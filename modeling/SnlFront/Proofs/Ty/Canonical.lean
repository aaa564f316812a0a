import Mathlib.Data.String.Basic
import SnlFront.Ty

/-!
# Canonical and known types

A type is canonical if every record in it lists its fields by name and every array in it has
elements of a base type; equal types are then written in one way only. A type is known if `unknown`
occurs nowhere in it, not even in a field of a record. Between known types compatibility is
equality.

## Main definitions

* `Ty.Known`: nothing unknown occurs.
* `Ty.Canonical`: records and arrays have the form that the analysis gives them.

## Main statements

* `Ty.compatible_iff_eq`: known types are compatible exactly if they are equal.
* `Ty.ofMembers_eq_iff`: the record of distinct members lists them by name.
* `Ty.field?_eq_some_iff`: a look-up in a canonical record finds exactly its fields.
-/

namespace SnlFront

namespace Ty

mutual

/-- Nothing in a type is unknown. -/
def Known : Ty → Prop
  | .integer => True
  | .char => True
  | .unknown => False
  | .array base _ _ => base.Known
  | .record fields => KnownFields fields

/-- Nothing in the types of fields is unknown. -/
def KnownFields : List (String × Ty) → Prop
  | [] => True
  | (_, type) :: fields => type.Known ∧ KnownFields fields

end

/-- A record is known if the types of all its fields are. -/
theorem knownFields_iff (fields : List (String × Ty)) :
    KnownFields fields ↔ ∀ field ∈ fields, field.2.Known := by
  induction fields with
  | nil => simp [KnownFields]
  | cons field fields ih => simp [KnownFields, ih]

/-- A known type is not the unknown one. -/
theorem not_isUnknown_of_known {τ : Ty} (h : τ.Known) : τ.isUnknown = false := by
  cases τ with
  | unknown => exact h.elim
  | integer | char | array base lower upper | record fields => rfl

/-! ## Types of a fixed form -/

/-- Fields are listed by name, each name once. -/
def SortedFields (fields : List (String × Ty)) : Prop := fields.Pairwise fun a b => a.1 < b.1

mutual

/-- Every record in a type lists its fields by name, and every array has elements of a base type. -/
def Canonical : Ty → Prop
  | .integer => True
  | .char => True
  | .unknown => True
  | .array base _ _ => base.isBase = true
  | .record fields => SortedFields fields ∧ CanonicalFields fields

/-- The types of fields are canonical. -/
def CanonicalFields : List (String × Ty) → Prop
  | [] => True
  | (_, type) :: fields => type.Canonical ∧ CanonicalFields fields

end

theorem canonicalFields_iff (fields : List (String × Ty)) :
    CanonicalFields fields ↔ ∀ field ∈ fields, field.2.Canonical := by
  induction fields with
  | nil => simp [CanonicalFields]
  | cons field fields ih => simp [CanonicalFields, ih]

/-! ## Compatibility -/

mutual

/-- Every type is compatible with itself, also one with unknown parts. -/
theorem compatible_self : (τ : Ty) → τ.compatible τ = true
  | .integer => rfl
  | .char => rfl
  | .unknown => rfl
  | .array base lower upper => by simp [compatible]
  | .record fields => by
    rw [compatible]
    exact compatibleFields_self fields

theorem compatibleFields_self : (fields : List (String × Ty)) →
    compatibleFields fields fields = true
  | [] => rfl
  | (name, type) :: fields => by
    simp [compatibleFields, compatible_self type, compatibleFields_self fields]

end

mutual

/-- Compatibility is equality where nothing is unknown. -/
theorem compatible_iff_eq : {a b : Ty} → a.Known → b.Known → (a.compatible b = true ↔ a = b)
  | .unknown, _, ha, _ => ha.elim
  | .integer, b, _, hb => by
    cases b <;> simp_all [compatible, Known]
  | .char, b, _, hb => by
    cases b <;> simp_all [compatible, Known]
  | .array base lower upper, b, _, hb => by
    have hne : b ≠ .unknown := by rintro rfl; exact hb
    simp [compatible, hne, eq_comm]
  | .record fs, .record gs, ha, hb => by
    simpa [compatible] using compatibleFields_iff_eq ha hb
  | .record fs, .unknown, _, hb => hb.elim
  | .record fs, .integer, _, _ => by simp [compatible]
  | .record fs, .char, _, _ => by simp [compatible]
  | .record fs, .array base lower upper, _, _ => by simp [compatible]

theorem compatibleFields_iff_eq : {fs gs : List (String × Ty)} → KnownFields fs → KnownFields gs →
    (compatibleFields fs gs = true ↔ fs = gs)
  | [], [], _, _ => by simp [compatibleFields]
  | [], _ :: _, _, _ => by simp [compatibleFields]
  | _ :: _, [], _, _ => by simp [compatibleFields]
  | (m, a) :: fs, (n, b) :: gs, ha, hb => by
    have hfirst := compatible_iff_eq ha.1 hb.1
    have hothers := compatibleFields_iff_eq ha.2 hb.2
    simp [compatibleFields, hfirst, hothers, and_assoc]

end

/-! ## Records -/

theorem mem_putMember {name : String} {type : Ty} {fields : List (String × Ty)}
    {entry : String × Ty} (h : entry ∈ putMember name type fields) :
    entry = (name, type) ∨ entry ∈ fields := by
  fun_induction putMember name type fields with
  | case1 => simpa using h
  | case2 other otherType fields hlt => simpa using h
  | case3 otherType fields hlt =>
    rcases List.mem_cons.1 h with rfl | h
    · exact .inl rfl
    · exact .inr (List.mem_cons_of_mem _ h)
  | case4 other otherType fields hlt heq ih =>
    rcases List.mem_cons.1 h with rfl | h
    · exact .inr List.mem_cons_self
    · exact (ih h).imp_right (List.mem_cons_of_mem _)

/-- A member is put where it belongs, or replaces the field of its name. -/
theorem sortedFields_putMember (name : String) (type : Ty) {fields : List (String × Ty)}
    (h : SortedFields fields) : SortedFields (putMember name type fields) := by
  fun_induction putMember name type fields with
  | case1 => exact List.pairwise_singleton _ _
  | case2 other otherType fields hlt =>
    refine List.pairwise_cons.2 ⟨?_, h⟩
    intro entry hentry
    rcases List.mem_cons.1 hentry with rfl | hentry
    · exact hlt
    · exact hlt.trans ((List.pairwise_cons.1 h).1 entry hentry)
  | case3 otherType fields hlt =>
    exact List.pairwise_cons.2 (List.pairwise_cons.1 h)
  | case4 other otherType fields hlt heq ih =>
    obtain ⟨hfirst, hothers⟩ := List.pairwise_cons.1 h
    refine List.pairwise_cons.2 ⟨?_, ih hothers⟩
    intro entry hentry
    rcases mem_putMember hentry with rfl | hentry
    · exact lt_of_le_of_ne (not_lt.1 hlt) (Ne.symm heq)
    · exact hfirst entry hentry

/-- A member with a new name is added to the fields. -/
theorem putMember_perm {name : String} (type : Ty) {fields : List (String × Ty)}
    (h : name ∉ fields.map Prod.fst) :
    (putMember name type fields).Perm ((name, type) :: fields) := by
  fun_induction putMember name type fields with
  | case1 => exact .refl _
  | case2 other otherType fields hlt => exact .refl _
  | case3 otherType fields hlt => simp at h
  | case4 other otherType fields hlt heq ih =>
    have hrest : name ∉ fields.map Prod.fst := fun hmem => h (List.mem_cons_of_mem _ hmem)
    exact ((ih hrest).cons _).trans (.swap _ _ _)

/-- The fields of the record of some members. -/
def membersFields (members : List (String × Ty)) : List (String × Ty) :=
  members.foldr (fun m => putMember m.1 m.2) []

theorem sortedFields_membersFields (members : List (String × Ty)) :
    SortedFields (membersFields members) := by
  induction members with
  | nil => exact .nil
  | cons member members ih => exact sortedFields_putMember _ _ ih

/-- If the names are distinct, the fields are the members in another order. -/
theorem membersFields_perm {members : List (String × Ty)} (h : (members.map Prod.fst).Nodup) :
    (membersFields members).Perm members := by
  induction members with
  | nil => exact .refl _
  | cons member members ih =>
    obtain ⟨hfresh, hothers⟩ := List.nodup_cons.1 h
    have hperm := ih hothers
    have hmissing : member.1 ∉ (membersFields members).map Prod.fst := by
      rwa [(hperm.map Prod.fst).mem_iff]
    exact (putMember_perm member.2 hmissing).trans (hperm.cons member)

/-- The record of distinct members is the one that lists them by name. -/
theorem ofMembers_eq_iff {members fields : List (String × Ty)} (h : (members.map Prod.fst).Nodup) :
    ofMembers members = .record fields ↔ SortedFields fields ∧ fields.Perm members := by
  have hsorted := sortedFields_membersFields members
  have hperm := membersFields_perm h
  change Ty.record (membersFields members) = _ ↔ _
  rw [Ty.record.injEq]
  constructor
  · rintro rfl
    exact ⟨hsorted, hperm⟩
  · intro hall
    rcases hall with ⟨hfields, hsame⟩
    refine (hperm.trans hsame.symm).eq_of_pairwise ?_ hsorted hfields
    intro a b _ _ hab hba
    exact absurd hab hba.not_gt

/-- If the names are distinct, looking a field up is finding it anywhere. -/
theorem lookup_eq_some_iff_mem {fields : List (String × Ty)} (h : (fields.map Prod.fst).Nodup)
    (name : String) (τ : Ty) : fields.lookup name = some τ ↔ (name, τ) ∈ fields := by
  induction fields with
  | nil => simp
  | cons field fields ih =>
    obtain ⟨hfresh, hothers⟩ := List.nodup_cons.1 h
    rw [List.lookup_cons, List.mem_cons]
    by_cases hname : name = field.1
    · have hmissing : (name, τ) ∉ fields := by
        intro hmem
        exact hfresh (hname ▸ List.mem_map_of_mem hmem)
      simp only [Prod.ext_iff, hmissing, or_false]
      simp [hname, eq_comm]
    · have hbeq : (name == field.1) = false := by simpa using hname
      simp [hbeq, ih hothers, Prod.ext_iff, hname]

/-- A look-up in a record that lists its fields by name finds exactly its fields. -/
theorem field?_eq_some_iff {fields : List (String × Ty)} (h : SortedFields fields) (name : String)
    (τ : Ty) : field? fields name = some τ ↔ (name, τ) ∈ fields := by
  have hnodup : (fields.map Prod.fst).Nodup :=
    List.pairwise_map.2 (h.imp fun hlt => hlt.ne)
  have hreverse : (fields.reverse.map Prod.fst).Nodup :=
    (fields.reverse_perm.map Prod.fst).nodup_iff.2 hnodup
  rw [field?, lookup_eq_some_iff_mem hreverse, List.mem_reverse]

end Ty

end SnlFront
