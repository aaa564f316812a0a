import SnlFront.Proofs.Ty.Groups
import SnlFront.Proofs.Typing.Types
import SnlFront.Proofs.Unknown.Order

/-!
# Common instances

An instance of a type is a settled type of which at least as much is known: the type is what is left
of the instance after some parts of it have been forgotten. Two types may meet exactly if they have
an instance in common. Compatibility is therefore reflexive and symmetric, and no more than that: a
type in the middle may have an instance in common with two types that have none.

## Main definitions

* `Ty.merge`: what is known of one of two types or of the other.
* `Ty.settle`: a type with something settled in place of everything unknown.

## Main statements

* `Ty.below_merge`: compatible types lie below what is known of both.
* `Ty.Canonical.settle`: filling in what is unknown settles a canonical type.
* `Ty.compatible_iff_common_instance`: types are compatible exactly if they have an instance in
  common.
-/

namespace SnlFront.Ty

/-! ## The order once more -/

mutual

/-- What is less known than something less known is less known. -/
theorem Below.trans : {a b c : Ty} → a.Below b → b.Below c → a.Below c
  | _, _, c, .unknown _, _ => .unknown c
  | _, _, _, .refl _, h => h
  | _, _, _, .record hfs, .refl _ => .record hfs
  | _, _, _, .record hfs, .record hgs => .record (hfs.trans hgs)

theorem FieldsBelow.trans : {fs gs hs : List (String × Ty)} → FieldsBelow fs gs →
    FieldsBelow gs hs → FieldsBelow fs hs
  | _, _, _, .nil, .nil => .nil
  | _, _, _, .cons first others, .cons first' others' =>
    .cons (first.trans first') (others.trans others')

end

/-- Records are compared field by field, so both have the same names. -/
theorem FieldsBelow.map_fst {fs gs : List (String × Ty)} (h : FieldsBelow fs gs) :
    fs.map Prod.fst = gs.map Prod.fst := by
  induction fs generalizing gs with
  | nil =>
    cases h
    rfl
  | cons f fs ih =>
    cases h with
    | cons first others => rw [List.map_cons, List.map_cons, ih others]

/-- Whether fields are listed by name depends on the names only. -/
theorem FieldsBelow.sortedFields {fs gs : List (String × Ty)} (h : FieldsBelow fs gs)
    (hfs : SortedFields fs) : SortedFields gs := by
  have hnames : (fs.map Prod.fst).Pairwise (· < ·) := List.pairwise_map.2 hfs
  rw [h.map_fst] at hnames
  exact List.pairwise_map.1 hnames

/-! ## What is known of one of two types or of the other -/

mutual

/-- What is known of one of two types or of the other, for types that may meet. -/
def merge : Ty → Ty → Ty
  | .unknown, b => b
  | .integer, _ => .integer
  | .char, _ => .char
  | .array base lower upper, _ => .array base lower upper
  | .record fs, .record gs => .record (mergeFields fs gs)
  | .record fs, _ => .record fs

/-- Fields with what is known of their types from one of two lists or from the other. -/
def mergeFields : List (String × Ty) → List (String × Ty) → List (String × Ty)
  | (name, a) :: fs, (_, b) :: gs => (name, a.merge b) :: mergeFields fs gs
  | _, _ => []

end

/-- What may meet a type that is neither unknown nor a record lies below it. -/
theorem below_of_compatible_flat {a b : Ty} (hunknown : a ≠ .unknown)
    (hrecord : ∀ fs, a ≠ .record fs) (h : a.compatible b = true) : b.Below a := by
  rcases eq_or_of_compatible hunknown hrecord h with rfl | rfl
  · exact .unknown a
  · exact .refl b

mutual

/-- Types that may meet lie below what is known of both. -/
theorem below_merge : {a b : Ty} → a.compatible b = true →
    a.Below (a.merge b) ∧ b.Below (a.merge b)
  | .unknown, b, _ => by
    rw [merge]
    exact ⟨.unknown b, .refl b⟩
  | .integer, _, h => by
    rw [merge]
    exact ⟨.refl _, below_of_compatible_flat (by simp) (by simp) h⟩
  | .char, _, h => by
    rw [merge]
    exact ⟨.refl _, below_of_compatible_flat (by simp) (by simp) h⟩
  | .array _ _ _, _, h => by
    rw [merge]
    exact ⟨.refl _, below_of_compatible_flat (by simp) (by simp) h⟩
  | .record fs, .record gs, h => by
    rw [compatible] at h
    obtain ⟨hfs, hgs⟩ := fieldsBelow_merge h
    rw [merge]
    exact ⟨.record hfs, .record hgs⟩
  | .record fs, .unknown, _ => ⟨.refl _, .unknown _⟩
  | .record _, .integer, h => by simp [compatible] at h
  | .record _, .char, h => by simp [compatible] at h
  | .record _, .array _ _ _, h => by simp [compatible] at h

/-- Fields are merged one by one, in the same order on both sides. -/
theorem fieldsBelow_merge : {fs gs : List (String × Ty)} → compatibleFields fs gs = true →
    FieldsBelow fs (mergeFields fs gs) ∧ FieldsBelow gs (mergeFields fs gs)
  | [], [], _ => ⟨.nil, .nil⟩
  | (m, a) :: fs, (n, b) :: gs, h => by
    simp only [compatibleFields, Bool.and_eq_true, decide_eq_true_eq] at h
    obtain ⟨⟨rfl, hfirst⟩, hothers⟩ := h
    obtain ⟨ha, hb⟩ := below_merge hfirst
    obtain ⟨hfs, hgs⟩ := fieldsBelow_merge hothers
    exact ⟨.cons ha hfs, .cons hb hgs⟩

end

mutual

/-- Merging keeps the order of the fields, since both sides have the same names. -/
theorem Canonical.merge : {a b : Ty} → a.Canonical → b.Canonical → a.compatible b = true →
    (a.merge b).Canonical
  | .unknown, b, _, hb, _ => by rwa [Ty.merge]
  | .integer, _, ha, _, _ => ha
  | .char, _, ha, _, _ => ha
  | .array _ _ _, _, ha, _, _ => ha
  | .record fs, .record gs, ha, hb, h => by
    rw [compatible] at h
    rw [Ty.merge]
    exact ⟨(fieldsBelow_merge h).1.sortedFields ha.1, canonicalFields_merge ha.2 hb.2 h⟩
  | .record _, .unknown, ha, _, _ => ha
  | .record _, .integer, ha, _, _ => ha
  | .record _, .char, ha, _, _ => ha
  | .record _, .array _ _ _, ha, _, _ => ha

theorem canonicalFields_merge : {fs gs : List (String × Ty)} → CanonicalFields fs →
    CanonicalFields gs → compatibleFields fs gs = true → CanonicalFields (mergeFields fs gs)
  | [], _, _, _, _ => trivial
  | _ :: _, [], _, _, _ => trivial
  | (m, a) :: fs, (n, b) :: gs, ha, hb, h => by
    simp only [compatibleFields, Bool.and_eq_true] at h
    exact ⟨ha.1.merge hb.1 h.1.2, canonicalFields_merge ha.2 hb.2 h.2⟩

end

/-! ## Filling in what is unknown -/

mutual

/-- A type with integers in place of everything unknown. -/
def settle : Ty → Ty
  | .integer => .integer
  | .char => .char
  | .unknown => .integer
  | .array base lower upper => .array base lower upper
  | .record fields => .record (settleFields fields)

/-- Fields with integers in place of everything unknown. -/
def settleFields : List (String × Ty) → List (String × Ty)
  | [] => []
  | (name, type) :: fields => (name, type.settle) :: settleFields fields

end

mutual

/-- Settling a type replaces the unknown parts only. -/
theorem below_settle : (τ : Ty) → τ.Below τ.settle
  | .integer => .refl _
  | .char => .refl _
  | .unknown => .unknown _
  | .array _ _ _ => .refl _
  | .record fields => .record (fieldsBelow_settle fields)

theorem fieldsBelow_settle : (fields : List (String × Ty)) →
    FieldsBelow fields (settleFields fields)
  | [] => .nil
  | (_, type) :: fields => .cons (below_settle type) (fieldsBelow_settle fields)

end

mutual

/-- With everything unknown filled in, a canonical type is settled. Arrays have nothing unknown in
them as it is. -/
theorem Canonical.settle : {τ : Ty} → τ.Canonical → τ.settle.Settled
  | .integer, _ => settled_integer
  | .char, _ => settled_char
  | .unknown, _ => settled_integer
  | .array .integer _ _, h => ⟨h, trivial⟩
  | .array .char _ _, h => ⟨h, trivial⟩
  | .record fields, h =>
    settled_record ((fieldsBelow_settle fields).sortedFields h.1) (settled_settleFields h.2)

theorem settled_settleFields : {fields : List (String × Ty)} → CanonicalFields fields →
    ∀ field ∈ settleFields fields, field.2.Settled
  | [], _ => nofun
  | (name, type) :: fields, h => by
    intro field hfield
    rcases List.mem_cons.1 hfield with rfl | hfield
    · exact h.1.settle
    · exact settled_settleFields h.2 field hfield

end

/-! ## Compatibility -/

/-- Types that may meet have an instance in common: fill in what is unknown of both. -/
theorem exists_common_instance {a b : Ty} (ha : a.Canonical) (hb : b.Canonical)
    (h : a.compatible b = true) : ∃ c : Ty, c.Settled ∧ a.Below c ∧ b.Below c := by
  obtain ⟨hleft, hright⟩ := below_merge h
  have hsettle := below_settle (a.merge b)
  exact ⟨_, (ha.merge hb h).settle, hleft.trans hsettle, hright.trans hsettle⟩

/-- Types with an instance in common may meet, since the instance may meet itself. -/
theorem compatible_of_common_instance {a b c : Ty} (ha : a.Below c) (hb : b.Below c) :
    a.compatible b = true := compatible_of_below ha hb (compatible_self c)

/-- Fields that are listed by name are determined by which fields they are. -/
theorem SortedFields.eq_iff {fs gs : List (String × Ty)} (hfs : SortedFields fs)
    (hgs : SortedFields gs) : fs = gs ↔ ∀ field, field ∈ fs ↔ field ∈ gs := by
  constructor
  · rintro rfl field
    exact Iff.rfl
  · intro h
    exact eq_of_lookup_eq hfs hgs (lookup_eq_of_perm hfs.nodup h hgs.nodup)

/-- Two canonical types are compatible exactly if both can be made from one canonical type, in which
nothing is unknown, by forgetting parts of it. So compatibility is reflexive and symmetric; where
nothing is unknown it is equality, and records are then compatible exactly if they have the same
fields with the same types. -/
theorem compatible_iff_common_instance {a b : Ty} (ha : a.Canonical) (hb : b.Canonical) :
    (a.compatible b = true ↔ ∃ c : Ty, c.Canonical ∧ c.Known ∧ a.Below c ∧ b.Below c) ∧
    a.compatible a = true ∧
    a.compatible b = b.compatible a ∧
    (a.Known → b.Known → (a.compatible b = true ↔ a = b)) ∧
    (∀ fs gs, a = .record fs → b = .record gs → a.Known → b.Known →
      (a.compatible b = true ↔ ∀ field, field ∈ fs ↔ field ∈ gs)) := by
  refine ⟨⟨fun h => ?_, ?_⟩, compatible_self a, ?_, compatible_iff_eq, ?_⟩
  · obtain ⟨c, hc, hac, hbc⟩ := exists_common_instance ha hb h
    exact ⟨c, hc.canonical, hc.known, hac, hbc⟩
  · rintro ⟨c, -, -, hac, hbc⟩
    exact compatible_of_common_instance hac hbc
  · rw [Bool.eq_iff_iff]
    constructor
    · intro h
      obtain ⟨c, -, hac, hbc⟩ := exists_common_instance ha hb h
      exact compatible_of_common_instance hbc hac
    · intro h
      obtain ⟨c, -, hbc, hac⟩ := exists_common_instance hb ha h
      exact compatible_of_common_instance hac hbc
  · rintro fs gs rfl rfl hknown hknown'
    rw [compatible_iff_eq hknown hknown', Ty.record.injEq, ha.1.eq_iff hb.1]

/-- A record of which the first field is unknown. -/
def laterKnown : Ty := .record [("x", .unknown), ("y", .record [("z", .char)])]

/-- A record of which the second field is unknown. -/
def earlierKnown : Ty := .record [("x", .array .integer 0 9), ("y", .unknown)]

theorem halves_common_instance :
    laterKnown.Canonical ∧ earlierKnown.Canonical ∧ laterKnown.compatible earlierKnown = true ∧
      earlierKnown.compatible laterKnown = true ∧
      ∃ c : Ty, c.Canonical ∧ c.Known ∧ laterKnown.Below c ∧ earlierKnown.Below c := by
  have hxy : "x" < "y" := by decide
  have hlater : laterKnown.Canonical :=
    ⟨List.pairwise_pair.2 hxy, trivial, ⟨List.pairwise_singleton _ _, trivial, trivial⟩, trivial⟩
  have hearlier : earlierKnown.Canonical := ⟨List.pairwise_pair.2 hxy, rfl, trivial, trivial⟩
  have hmeet : laterKnown.compatible earlierKnown = true := rfl
  obtain ⟨hinstance, -, hsymm, -⟩ := compatible_iff_common_instance hlater hearlier
  exact ⟨hlater, hearlier, hmeet, hsymm ▸ hmeet, hinstance.1 hmeet⟩

end SnlFront.Ty
