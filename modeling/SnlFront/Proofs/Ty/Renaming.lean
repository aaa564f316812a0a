import SnlFront.Proofs.Ty.Fields

/-!
# Types with other field names

Types know names only as names of fields, and a record lists its fields by name. If the fields get
other names, the records at every depth have to be put in order again. As long as different names
stay different, this changes nothing of what can be asked of a type: where a field is found, which
member of a record counts, and which types may meet.

## Main definitions

* `Ty.rename`: a type with other field names, each record in order again.

## Main statements

* `Ty.lookup_rename`: fields are found under their new names.
* `Ty.rename_ofMembers`: the record of renamed members.
* `Ty.compatible_rename`: compatibility is kept.
-/

namespace SnlFront.Ty

mutual

/-- A type with other field names. The fields of every record are put in the order of the new
names. -/
def rename (r : String → String) : Ty → Ty
  | .integer => .integer
  | .char => .char
  | .unknown => .unknown
  | .array base lower upper => .array (base.rename r) lower upper
  | .record fields => .record ((renameFields r fields).insertionSort fun a b => a.1 ≤ b.1)

/-- Fields with other names, not yet in order. -/
def renameFields (r : String → String) : List (String × Ty) → List (String × Ty)
  | [] => []
  | (name, type) :: fields => (r name, type.rename r) :: renameFields r fields

end

variable {r : String → String}

theorem renameFields_eq_map (r : String → String) (fields : List (String × Ty)) :
    renameFields r fields = fields.map fun field => (r field.1, field.2.rename r) := by
  induction fields with
  | nil => rfl
  | cons field fields ih => rw [renameFields, ih, List.map_cons]

/-- Fields with other names, in order. -/
abbrev reorderedFields (r : String → String) (fields : List (String × Ty)) :
    List (String × Ty) :=
  (renameFields r fields).insertionSort fun a b => a.1 ≤ b.1

/-! ## Look-ups -/

section Lookups

variable (hr : Function.Injective r)
include hr

/-- A field is found under its new name. -/
theorem lookup_renameFields (fields : List (String × Ty)) (name : String) :
    (renameFields r fields).lookup (r name) = (fields.lookup name).map (rename r) := by
  induction fields with
  | nil => rfl
  | cons field fields ih =>
    rw [renameFields, lookup_cons_eq_ite, lookup_cons_eq_ite, ih]
    by_cases h : name = field.1
    · simp [h]
    · simp [h, hr.eq_iff]

omit hr in
/-- Nothing is found under a name that no name becomes. -/
theorem lookup_renameFields_eq_none (fields : List (String × Ty)) {name : String}
    (h : ¬ ∃ old, r old = name) : (renameFields r fields).lookup name = none := by
  cases hτ : (renameFields r fields).lookup name with
  | none => rfl
  | some τ =>
    obtain ⟨field, hfield, rfl⟩ := mem_of_lookup_eq_some hτ
    rw [renameFields_eq_map] at hfield
    obtain ⟨old, -, rfl⟩ := List.mem_map.1 hfield
    exact absurd ⟨old.1, rfl⟩ h

theorem nodup_renameFields {fields : List (String × Ty)} (h : SortedFields fields) :
    ((renameFields r fields).map Prod.fst).Nodup := by
  have hnames : (renameFields r fields).map Prod.fst = (fields.map Prod.fst).map r := by
    simp [renameFields_eq_map]
  rw [hnames]
  exact h.nodup.map hr

theorem sortedFields_reorderedFields {fields : List (String × Ty)} (h : SortedFields fields) :
    SortedFields (reorderedFields r fields) := by
  have hperm := (renameFields r fields).perm_insertionSort fun a b => a.1 ≤ b.1
  have hnodup := (hperm.map Prod.fst).nodup_iff.2 (nodup_renameFields hr h)
  have hle : (reorderedFields r fields).Pairwise fun a b => a.1 ≤ b.1 := by
    have htotal : Std.Total fun a b : String × Ty => a.1 ≤ b.1 := ⟨fun a b => le_total a.1 b.1⟩
    have htrans : IsTrans (String × Ty) fun a b => a.1 ≤ b.1 := ⟨fun _ _ _ => le_trans⟩
    exact List.pairwise_insertionSort _ _
  exact (hle.and (List.pairwise_map.1 hnodup)).imp fun hboth => lt_of_le_of_ne hboth.1 hboth.2

/-- Putting fields in order changes no look-up. -/
theorem lookup_reorderedFields {fields : List (String × Ty)} (h : SortedFields fields)
    (name : String) :
    (reorderedFields r fields).lookup name = (renameFields r fields).lookup name := by
  apply Option.ext
  intro τ
  rw [lookup_eq_some_iff_mem (sortedFields_reorderedFields hr h).nodup,
    lookup_eq_some_iff_mem (nodup_renameFields hr h), List.mem_insertionSort]

/-- A field is found in a renamed record under its new name, with its renamed type. -/
theorem lookup_rename {fields : List (String × Ty)} (h : SortedFields fields) (name : String) :
    (reorderedFields r fields).lookup (r name) = (fields.lookup name).map (rename r) := by
  rw [lookup_reorderedFields hr h, lookup_renameFields hr]

end Lookups

/-! ## Building records -/

/-- Of members with the same name the same one counts, before and after they are renamed. -/
theorem rename_ofMembers (hr : Function.Injective r) (members : List (String × Ty)) :
    (ofMembers members).rename r = ofMembers (renameFields r members) := by
  have hsorted := sortedFields_membersFields members
  change Ty.record (reorderedFields r (membersFields members)) =
    .record (membersFields (renameFields r members))
  congr 1
  apply eq_of_lookup_eq (sortedFields_reorderedFields hr hsorted)
    (sortedFields_membersFields _)
  intro name
  rw [lookup_reorderedFields hr hsorted, lookup_membersFields]
  by_cases h : ∃ old, r old = name
  · obtain ⟨old, rfl⟩ := h
    rw [lookup_renameFields hr, lookup_renameFields hr, lookup_membersFields]
  · rw [lookup_renameFields_eq_none _ h, lookup_renameFields_eq_none _ h]

/-- Only records have names in them. -/
theorem rename_eq_self {τ : Ty} (h : τ.Canonical) (hflat : ∀ fields, τ ≠ .record fields) :
    τ.rename r = τ := by
  cases τ with
  | integer | char | unknown => rfl
  | record fields => exact absurd rfl (hflat fields)
  | array base lower upper =>
    have hbase : base.isBase = true := h
    cases base with
    | integer | char => rfl
    | unknown | array base lower upper | record fields => cases hbase

/-! ## Compatibility -/

mutual

/-- Types may meet under the new names exactly if they may under the old ones. -/
theorem compatible_rename (hr : Function.Injective r) : (a : Ty) → a.Canonical → (b : Ty) →
    b.Canonical → (a.rename r).compatible (b.rename r) = a.compatible b
  | .unknown, _, b, _ => by simp [rename, compatible]
  | .integer, _, b, _ => by cases b <;> simp [rename, compatible]
  | .char, _, b, _ => by cases b <;> simp [rename, compatible]
  | .array base lower upper, ha, b, hb => by
    rw [rename_eq_self ha (by simp)]
    cases b with
    | record gs => simp [rename, compatible]
    | integer | char | unknown | array _ _ _ => rw [rename_eq_self hb (by simp)]
  | .record fs, ha, b, hb => by
    cases b with
    | integer | char | unknown | array _ _ _ => simp [rename, compatible]
    | record gs =>
      have hfs : SortedFields fs := ha.1
      have hgs : SortedFields gs := hb.1
      have hmeet := meet_rename hr fs ((canonicalFields_iff fs).1 ha.2)
      simp only [rename, compatible]
      rw [Bool.eq_iff_iff, compatibleFields_iff hfs hgs,
        compatibleFields_iff (sortedFields_reorderedFields hr hfs)
          (sortedFields_reorderedFields hr hgs)]
      constructor
      · intro h name
        have hname := h (r name)
        rw [lookup_rename hr hfs, lookup_rename hr hgs] at hname
        exact (hmeet name _ fun _ hσ => hb.lookup hσ).1 hname
      · intro h name
        by_cases hold : ∃ old, r old = name
        · obtain ⟨old, rfl⟩ := hold
          rw [lookup_rename hr hfs, lookup_rename hr hgs]
          exact (hmeet old _ fun _ hσ => hb.lookup hσ).2 (h old)
        · rw [lookup_reorderedFields hr hfs, lookup_reorderedFields hr hgs,
            lookup_renameFields_eq_none fs hold, lookup_renameFields_eq_none gs hold]
          exact .none

theorem meet_rename (hr : Function.Injective r) : (fs : List (String × Ty)) →
    (∀ field ∈ fs, field.2.Canonical) → (name : String) → (y : Option Ty) →
    (∀ σ, y = some σ → σ.Canonical) →
    (Meet ((fs.lookup name).map (rename r)) (y.map (rename r)) ↔ Meet (fs.lookup name) y)
  | [], _, name, y, _ => by cases y <;> simp
  | (first, τ) :: fs, hfs, name, y, hy => by
    obtain ⟨hτ, hothers⟩ := List.forall_mem_cons.1 hfs
    rw [lookup_cons_eq_ite]
    by_cases h : name = first
    · cases y with
      | none => simp [h]
      | some σ => simp [h, compatible_rename hr τ hτ σ (hy σ rfl)]
    · simpa [h] using meet_rename hr fs hothers name y hy

end

end SnlFront.Ty
