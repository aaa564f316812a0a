import Mathlib.Data.List.Sort
import SnlFront.Proofs.Ty.Formed

/-!
# Records as tables of fields

A record that lists its fields by name is determined by what a look-up finds in it, and so are the
questions that are asked of it: which type a field has, and whether another record is compatible.
The record of some members is the table in which the first member of a name counts.

## Main statements

* `Ty.eq_of_lookup_eq`: sorted fields are determined by their look-ups.
* `Ty.lookup_membersFields`: what is found in the record of some members.
* `Ty.compatibleFields_iff`: records are compatible if their look-ups are.
-/

namespace SnlFront.Ty

/-! ## Sorted fields -/

theorem lookup_cons_eq_ite (field : String × Ty) (fields : List (String × Ty)) (name : String) :
    (field :: fields).lookup name =
      if name = field.1 then some field.2 else fields.lookup name := by
  rw [List.lookup_cons]
  by_cases h : name = field.1
  · simp [h]
  · have hmiss : (name == field.1) = false := by simpa using h
    rw [hmiss, if_neg h]

theorem SortedFields.nodup {fields : List (String × Ty)} (h : SortedFields fields) :
    (fields.map Prod.fst).Nodup := List.pairwise_map.2 (h.imp fun hlt => hlt.ne)

/-- Where each name occurs once, it does not matter that the last field of a name counts. -/
theorem field?_eq_lookup {fields : List (String × Ty)} (h : SortedFields fields) (name : String) :
    field? fields name = fields.lookup name := by
  apply Option.ext
  intro τ
  rw [field?_eq_some_iff h, lookup_eq_some_iff_mem h.nodup]

/-- A name that is found is the name of a field. -/
theorem mem_of_lookup_eq_some {fields : List (String × Ty)} {name : String} {τ : Ty}
    (h : fields.lookup name = some τ) : ∃ field ∈ fields, field.1 = name := by
  obtain ⟨before, after, rfl, -⟩ := List.lookup_eq_some_iff.1 h
  exact ⟨(name, τ), by simp, rfl⟩

/-- Fields that are listed by name are determined by what a look-up finds in them. -/
theorem eq_of_lookup_eq {fields fields' : List (String × Ty)} (h : SortedFields fields)
    (h' : SortedFields fields') (hsame : ∀ name, fields.lookup name = fields'.lookup name) :
    fields = fields' := by
  have hmem : ∀ entry, entry ∈ fields ↔ entry ∈ fields' := by
    intro entry
    rw [← lookup_eq_some_iff_mem h.nodup, ← lookup_eq_some_iff_mem h'.nodup, hsame]
  have hperm : fields.Perm fields' :=
    (List.perm_ext_iff_of_nodup h.nodup.of_map h'.nodup.of_map).2 hmem
  refine hperm.eq_of_pairwise ?_ h h'
  intro a b _ _ hab hba
  exact absurd hab hba.not_gt

/-! ## The record of some members -/

theorem lookup_putMember (name : String) (τ : Ty) (fields : List (String × Ty)) (other : String) :
    (putMember name τ fields).lookup other =
      if other = name then some τ else fields.lookup other := by
  fun_induction putMember name τ fields with
  | case1 => rw [lookup_cons_eq_ite]
  | case2 first firstType fields hlt => rw [lookup_cons_eq_ite]
  | case3 firstType fields hlt =>
    rw [lookup_cons_eq_ite, lookup_cons_eq_ite]
    by_cases h : other = name <;> simp [h]
  | case4 first firstType fields hlt hne ih =>
    rw [lookup_cons_eq_ite, lookup_cons_eq_ite, ih]
    by_cases h : other = first
    · have hother : first ≠ name := fun heq => hne heq.symm
      simp [h, hother]
    · simp [h]

/-- In the record of some members the first member of a name counts. -/
theorem lookup_membersFields (members : List (String × Ty)) (name : String) :
    (membersFields members).lookup name = members.lookup name := by
  induction members with
  | nil => rfl
  | cons member members ih =>
    change (putMember member.1 member.2 (membersFields members)).lookup name = _
    rw [lookup_putMember, lookup_cons_eq_ite, ih]

/-- A record of canonical members is canonical. -/
theorem canonical_ofMembers {members : List (String × Ty)}
    (h : ∀ member ∈ members, member.2.Canonical) : (ofMembers members).Canonical := by
  refine ⟨sortedFields_membersFields members, (canonicalFields_iff _).2 ?_⟩
  intro entry hentry
  exact h entry (mem_of_mem_membersFields hentry)

theorem Canonical.lookup {fields : List (String × Ty)} (h : (Ty.record fields).Canonical)
    {name : String} {τ : Ty} (hτ : fields.lookup name = some τ) : τ.Canonical := by
  have hmem := (lookup_eq_some_iff_mem h.1.nodup name τ).1 hτ
  exact (canonicalFields_iff fields).1 h.2 _ hmem

/-! ## Compatibility -/

/-- What two look-ups find may meet: both find something or both nothing, and the types found are
compatible. -/
abbrev Meet : Option Ty → Option Ty → Prop := Option.Rel fun a b => a.compatible b = true

/-- The first name of sorted fields comes before every name that is found. -/
theorem le_of_lookup_eq_some {field : String × Ty} {fields : List (String × Ty)}
    (h : SortedFields (field :: fields)) {name : String} {τ : Ty}
    (hτ : (field :: fields).lookup name = some τ) : field.1 ≤ name := by
  obtain ⟨entry, hentry, rfl⟩ := mem_of_lookup_eq_some hτ
  rcases List.mem_cons.1 hentry with rfl | hentry
  · exact le_rfl
  · exact ((List.pairwise_cons.1 h).1 entry hentry).le

/-- The first name of sorted fields is not found behind it. -/
theorem SortedFields.lookup_tail {field : String × Ty} {fields : List (String × Ty)}
    (h : SortedFields (field :: fields)) : fields.lookup field.1 = none := by
  cases hτ : fields.lookup field.1 with
  | none => rfl
  | some τ =>
    obtain ⟨entry, hentry, heq⟩ := mem_of_lookup_eq_some hτ
    exact absurd heq ((List.pairwise_cons.1 h).1 entry hentry).ne'

/-- If two lists of sorted fields meet in every look-up, they start with the same name. -/
theorem fst_eq_of_meet {f g : String × Ty} {fs gs : List (String × Ty)}
    (hfs : SortedFields (f :: fs)) (hgs : SortedFields (g :: gs))
    (h : ∀ name, Meet ((f :: fs).lookup name) ((g :: gs).lookup name)) : f.1 = g.1 := by
  have hf : (f :: fs).lookup f.1 = some f.2 := by simp [lookup_cons_eq_ite]
  have hg : (g :: gs).lookup g.1 = some g.2 := by simp [lookup_cons_eq_ite]
  have hfound := h f.1
  have hfound' := h g.1
  rw [hf] at hfound
  rw [hg] at hfound'
  apply le_antisymm
  · generalize hx : (f :: fs).lookup g.1 = x at hfound'
    cases hfound'
    exact le_of_lookup_eq_some hfs hx
  · generalize hx : (g :: gs).lookup f.1 = x at hfound
    cases hfound
    exact le_of_lookup_eq_some hgs hx

/-- Records that list their fields by name are compatible exactly if each name is found in both
with compatible types, or in none. -/
theorem compatibleFields_iff {fs gs : List (String × Ty)} (hfs : SortedFields fs)
    (hgs : SortedFields gs) :
    compatibleFields fs gs = true ↔ ∀ name, Meet (fs.lookup name) (gs.lookup name) := by
  induction fs generalizing gs with
  | nil =>
    cases gs with
    | nil => simp [compatibleFields]
    | cons g gs =>
      refine iff_of_false (by simp [compatibleFields]) fun h => ?_
      have hfirst := h g.1
      rw [lookup_cons_eq_ite, if_pos rfl] at hfirst
      cases hfirst
  | cons f fs ih =>
    cases gs with
    | nil =>
      refine iff_of_false (by simp [compatibleFields]) fun h => ?_
      have hfirst := h f.1
      rw [lookup_cons_eq_ite, if_pos rfl] at hfirst
      cases hfirst
    | cons g gs =>
      have hrest := ih (List.pairwise_cons.1 hfs).2 (List.pairwise_cons.1 hgs).2
      simp only [compatibleFields, Bool.and_eq_true, decide_eq_true_eq, hrest]
      constructor
      · rintro ⟨⟨hname, hfirst⟩, hothers⟩ name
        rw [lookup_cons_eq_ite, lookup_cons_eq_ite, ← hname]
        by_cases h : name = f.1
        · simpa [h] using hfirst
        · simpa [h] using hothers name
      · intro h
        have hname := fst_eq_of_meet hfs hgs h
        refine ⟨⟨hname, ?_⟩, fun name => ?_⟩
        · have hfirst := h f.1
          rw [lookup_cons_eq_ite, lookup_cons_eq_ite, if_pos rfl, if_pos hname] at hfirst
          simpa using hfirst
        · by_cases hother : name = f.1
          · rw [hother, hfs.lookup_tail, hname, hgs.lookup_tail]
            exact .none
          · have hrest := h name
            rwa [lookup_cons_eq_ite, lookup_cons_eq_ite, if_neg hother,
              if_neg (hname ▸ hother)] at hrest

end SnlFront.Ty
