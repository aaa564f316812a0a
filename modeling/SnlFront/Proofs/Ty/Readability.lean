import SnlFront.Proofs.Ty.Formed
import SnlFront.Ty.Signature

/-!
# A signature tells its type

A signature can be read back. Its first character tells the kind of the type, the signs of
punctuation never stand in a name or a number, and an inner signature ends where its brackets are
closed. The groups of a record tell its fields up to their order, and a canonical record has only
one order for them.

## Main definitions

* `isIdentifier`: a letter followed by letters and digits.
* `Ty.Legible`: a canonical type whose fields have identifiers as names.

## Main statements

* `eq_of_intercalate`: items with separators between them can be told from the text.
* `Ty.signature_append_inj`: a signature ends where it ends, whatever follows it.
* `Ty.signature_inj`: types with the same signature are equal.
-/

namespace SnlFront

/-! ## Names and numbers -/

/-- A letter followed by letters and digits. -/
def isIdentifier (name : String) : Bool :=
  match name.toList with
  | [] => false
  | c :: cs => c.isAlpha && cs.all Char.isAlphanum

theorem isAlphanum_of_isIdentifier {name : String} (h : isIdentifier name = true) {c : Char}
    (hc : c ∈ name.toList) : c.isAlphanum = true := by
  unfold isIdentifier at h
  split at h
  · cases h
  · next d ds hname =>
    rw [hname] at hc
    simp only [Bool.and_eq_true, List.all_eq_true] at h
    rcases List.mem_cons.1 hc with rfl | hc
    · simp [Char.isAlphanum, h.1]
    · exact h.2 c hc

theorem notMem_of_isIdentifier {name : String} (h : isIdentifier name = true) {c : Char}
    (hc : c.isAlphanum = false) : c ∉ name.toList := by
  intro hmem
  rw [isAlphanum_of_isIdentifier h hmem] at hc
  cases hc

/-- A name does not start with punctuation, whatever follows it. -/
theorem toList_append_ne {name : String} (h : isIdentifier name = true) {c : Char}
    (hc : c.isAlphanum = false) (r r' : List Char) : name.toList ++ r ≠ c :: r' := by
  intro heq
  cases hname : name.toList with
  | nil => simp [isIdentifier, hname] at h
  | cons d ds =>
    rw [hname] at heq
    obtain ⟨rfl, -⟩ := List.cons.inj heq
    exact notMem_of_isIdentifier h hc (hname ▸ List.mem_cons_self)

/-- An integer is written with digits, and with a sign in front if it is negative. -/
theorem toList_repr_int (i : Int) :
    i.repr.toList =
      if 0 ≤ i then Nat.toDigits 10 i.toNat else '-' :: Nat.toDigits 10 (-i).toNat := by
  rw [Int.repr_eq_if]
  split
  · simp
  · simp [String.toList_append]

theorem notMem_toDigits {c : Char} (hc : c.isDigit = false) (n : Nat) :
    c ∉ Nat.toDigits 10 n := by
  intro hmem
  rw [Nat.isDigit_of_mem_toDigits (by decide) (by decide) hmem] at hc
  cases hc

/-- Numbers consist of digits and at most a sign. -/
theorem notMem_repr_int {c : Char} (hdigit : c.isDigit = false) (hminus : c ≠ '-')
    (i : Int) : c ∉ i.repr.toList := by
  rw [toList_repr_int]
  split
  · exact notMem_toDigits hdigit _
  · simp [hminus, notMem_toDigits hdigit]

theorem toDigits_inj {m n : Nat} (h : Nat.toDigits 10 m = Nat.toDigits 10 n) : m = n := by
  rw [← Nat.ofDigitChars_ten_toDigits (n := m), h, Nat.ofDigitChars_ten_toDigits]

theorem repr_int_inj {i j : Int} (h : i.repr.toList = j.repr.toList) : i = j := by
  rw [toList_repr_int, toList_repr_int] at h
  have hminus : ∀ n, '-' ∉ Nat.toDigits 10 n := notMem_toDigits (by decide)
  split at h
  · split at h
    · have := toDigits_inj h
      omega
    · exact absurd (h ▸ List.mem_cons_self) (hminus _)
  · split at h
    · exact absurd (h ▸ List.mem_cons_self) (hminus _)
    · have := toDigits_inj (List.cons.inj h).2
      omega

/-! ## Items with separators -/

/-- A text is cut at the first sign that cannot stand in what is before it. -/
theorem eq_of_append_cons {u v r r' : List Char} {c d : Char} (hu : d ∉ u) (hv : c ∉ v)
    (h : u ++ c :: r = v ++ d :: r') : u = v ∧ c = d ∧ r = r' := by
  rcases List.append_eq_append_iff.1 h with ⟨w, rfl, hw⟩ | ⟨w, rfl, hw⟩
  · cases w with
    | nil => simpa using hw
    | cons e w =>
      obtain ⟨rfl, -⟩ := List.cons.inj hw
      simp at hv
  · cases w with
    | nil => simpa [eq_comm] using hw
    | cons e w =>
      obtain ⟨rfl, -⟩ := List.cons.inj hw
      simp at hu

/-- Some items do not begin with a sign if the first of them does not. -/
theorem intercalate_append_ne {α : Type} {text : α → List Char} {close : Char} {item : α}
    (h : ∀ r r', text item ++ r ≠ close :: r') (sep : Char) (items : List α) (r r' : List Char) :
    [sep].intercalate ((item :: items).map text) ++ r ≠ close :: r' := by
  cases items with
  | nil => simpa using h r r'
  | cons next items => simpa [List.intercalate_cons_cons] using h _ r'

/-- Items with a separator between them and a closing sign behind them can be told from the text, if
each of them can where one of the two signs follows. -/
theorem eq_of_intercalate {α : Type} {text : α → List Char} {sep close : Char} (hsep : sep ≠ close)
    {xs ys : List α} {r r' : List Char}
    (hstart : ∀ x ∈ xs ++ ys, ∀ r r', text x ++ r ≠ close :: r')
    (hitem : ∀ x ∈ xs, ∀ y ∈ ys, ∀ c ∈ [sep, close], ∀ d ∈ [sep, close], ∀ r r',
      text x ++ c :: r = text y ++ d :: r' → x = y ∧ c = d ∧ r = r')
    (h : [sep].intercalate (xs.map text) ++ close :: r =
      [sep].intercalate (ys.map text) ++ close :: r') : xs = ys ∧ r = r' := by
  induction xs generalizing ys with
  | nil =>
    cases ys with
    | nil => simpa using h
    | cons y ys => exact absurd h.symm (intercalate_append_ne (hstart y (by simp)) sep ys _ r)
  | cons x xs ih =>
    cases ys with
    | nil => exact absurd h (intercalate_append_ne (hstart x (by simp)) sep xs _ r')
    | cons y ys =>
      have hfirst := hitem x (by simp) y (by simp)
      -- The sign behind the first item tells whether another one follows.
      cases xs with
      | nil =>
        cases ys with
        | nil =>
          obtain ⟨rfl, -, rfl⟩ := hfirst close (by simp) close (by simp) r r' (by simpa using h)
          simp
        | cons y' ys =>
          have hsame := hfirst close (by simp) sep (by simp) r _ (by simpa using h)
          exact absurd hsame.2.1.symm hsep
      | cons x' xs =>
        cases ys with
        | nil =>
          have hsame := hfirst sep (by simp) close (by simp) _ r' (by simpa using h)
          exact absurd hsame.2.1 hsep
        | cons y' ys =>
          have hcut := hfirst sep (by simp) sep (by simp) _ _ (by simpa using h)
          have hstart' : ∀ z ∈ (x' :: xs) ++ (y' :: ys), ∀ r r', text z ++ r ≠ close :: r' := by
            intro z hz
            refine hstart z ?_
            simp only [List.mem_append, List.mem_cons] at hz ⊢
            tauto
          have hrest := ih hstart'
            (fun z hz z' hz' => hitem z (List.mem_cons_of_mem _ hz) z' (List.mem_cons_of_mem _ hz'))
            hcut.2.2
          exact ⟨by rw [hcut.1, hrest.1], hrest.2⟩

namespace Ty

/-! ## The groups of a record -/

/-- The characters of a group of fields: the names and the signature of their type. -/
def groupText (group : String × List String) : List Char :=
  [','].intercalate (group.2.map String.toList) ++ ':' :: group.1.toList

theorem toList_joinMembers (members : List (String × String)) :
    (joinMembers members).toList =
      [';'].intercalate ((groupMembers (sortMembers members)).map groupText) := by
  have htext : ∀ group : String × List String,
      (",".intercalate group.2 ++ ":" ++ group.1).toList = groupText group := by
    intro group
    simp [groupText, String.toList_intercalate]
  simp only [joinMembers, String.toList_intercalate, List.map_map, Function.comp_def, htext]
  rfl

/-- The members of groups, one after the other. -/
def ungroup (groups : List (String × List String)) : List (String × String) :=
  groups.flatMap fun group => group.2.map fun name => (group.1, name)

/-- Grouping takes neighbours together and forgets no member. -/
theorem ungroup_groupMembers (members : List (String × String)) :
    ungroup (groupMembers members) = members := by
  fun_induction groupMembers members with
  | case1 => rfl
  | case2 name members next names groups hgroups ih => simpa [ungroup, hgroups] using ih
  | case3 signature name members next names groups hgroups hne ih =>
    simpa [ungroup, hgroups] using ih
  | case4 signature name members hgroups ih => simpa [ungroup, hgroups] using ih

theorem ne_nil_of_mem_groupMembers {members : List (String × String)}
    {group : String × List String} (h : group ∈ groupMembers members) : group.2 ≠ [] := by
  fun_induction groupMembers members with
  | case1 => cases h
  | case2 name members next names groups hgroups ih =>
    rcases List.mem_cons.1 h with rfl | h
    · exact List.cons_ne_nil _ _
    · exact ih (hgroups ▸ List.mem_cons_of_mem _ h)
  | case3 signature name members next names groups hgroups hne ih =>
    rcases List.mem_cons.1 h with rfl | h
    · exact List.cons_ne_nil _ _
    · exact ih (hgroups ▸ h)
  | case4 signature name members hgroups ih =>
    rw [List.mem_singleton.1 h]
    exact List.cons_ne_nil _ _

/-- The names in the groups of a record, with their signatures, are its members. -/
theorem mem_of_mem_groupMembers {members : List (String × String)}
    {group : String × List String} (h : group ∈ groupMembers (sortMembers members)) {name : String}
    (hname : name ∈ group.2) : (group.1, name) ∈ members := by
  rw [← (sortMembers_perm members).mem_iff, ← ungroup_groupMembers (sortMembers members)]
  exact List.mem_flatMap.2 ⟨group, h, List.mem_map.2 ⟨name, hname, rfl⟩⟩

/-- Two texts can be told apart whatever follows them: neither is the front of the other, unless
they are equal. -/
def Delimited (x y : List Char) : Prop := ∀ r r', x ++ r = y ++ r' → x = y ∧ r = r'

/-- Names can be told from the text where a comma or a colon follows them. -/
theorem eq_of_names {xs ys : List String} (h : ∀ name ∈ xs ++ ys, isIdentifier name = true)
    {r r' : List Char}
    (htext : [','].intercalate (xs.map String.toList) ++ ':' :: r =
      [','].intercalate (ys.map String.toList) ++ ':' :: r') : xs = ys ∧ r = r' := by
  have hsign : ∀ name ∈ xs ++ ys, ∀ c ∈ [',', ':'], c ∉ name.toList := by
    intro name hname c hc
    refine notMem_of_isIdentifier (h name hname) ?_
    rcases List.mem_pair.1 hc with rfl | rfl <;> rfl
  refine eq_of_intercalate (by decide) ?_ ?_ htext
  · exact fun name hname => toList_append_ne (h name hname) (by decide)
  · intro x hx y hy c hc d hd r r' heq
    obtain ⟨hsame, hrest⟩ := eq_of_append_cons (hsign x (by simp [hx]) d hd)
      (hsign y (by simp [hy]) c hc) heq
    exact ⟨String.toList_inj.1 hsame, hrest⟩

/-- The text of a group can be read back wherever it stands, since commas separate its names and a
colon ends them. -/
theorem groupText_inj {g h : String × List String}
    (hnames : ∀ name ∈ g.2 ++ h.2, isIdentifier name = true)
    (hsignature : Delimited g.1.toList h.1.toList) {r r' : List Char}
    (htext : groupText g ++ r = groupText h ++ r') : g = h ∧ r = r' := by
  have hcut : [','].intercalate (g.2.map String.toList) ++ ':' :: (g.1.toList ++ r) =
      [','].intercalate (h.2.map String.toList) ++ ':' :: (h.1.toList ++ r') := by
    simpa [groupText] using htext
  obtain ⟨hsame, hrest⟩ := eq_of_names hnames hcut
  obtain ⟨hsignatures, rfl⟩ := hsignature r r' hrest
  exact ⟨Prod.ext (String.toList_inj.1 hsignatures) hsame, rfl⟩

/-- A group starts with a name, so it is told from the end of the record. -/
theorem groupText_append_ne {group : String × List String} (hne : group.2 ≠ [])
    (hnames : ∀ name ∈ group.2, isIdentifier name = true) (r r' : List Char) :
    groupText group ++ r ≠ '\x7d' :: r' := by
  obtain ⟨signature, names⟩ := group
  cases names with
  | nil => exact absurd rfl hne
  | cons name names =>
    have hname := hnames name List.mem_cons_self
    rw [groupText, List.append_assoc]
    exact intercalate_append_ne (toList_append_ne hname (by decide)) ',' names _ r'

/-- The inside of a record's signature tells its members up to their order. -/
theorem perm_of_joinMembers {ms ns : List (String × String)}
    (hnames : ∀ m ∈ ms ++ ns, isIdentifier m.2 = true)
    (hsignatures : ∀ m ∈ ms, ∀ n ∈ ns, Delimited m.1.toList n.1.toList) {r r' : List Char}
    (h : (joinMembers ms).toList ++ '\x7d' :: r = (joinMembers ns).toList ++ '\x7d' :: r') :
    ms.Perm ns ∧ r = r' := by
  rw [toList_joinMembers, toList_joinMembers] at h
  have hgroup : ∀ {ls : List (String × String)}, (∀ m ∈ ls, isIdentifier m.2 = true) →
      ∀ g ∈ groupMembers (sortMembers ls), ∀ name ∈ g.2, isIdentifier name = true :=
    fun hls g hg name hname => hls _ (mem_of_mem_groupMembers hg hname)
  have hms := hgroup fun m hm => hnames m (List.mem_append_left ns hm)
  have hns := hgroup fun n hn => hnames n (List.mem_append_right ms hn)
  have hgroups : groupMembers (sortMembers ms) = groupMembers (sortMembers ns) ∧ r = r' := by
    refine eq_of_intercalate (by decide) ?_ ?_ h
    · intro g hg
      rcases List.mem_append.1 hg with hg | hg
      · exact groupText_append_ne (ne_nil_of_mem_groupMembers hg) (hms g hg)
      · exact groupText_append_ne (ne_nil_of_mem_groupMembers hg) (hns g hg)
    · intro g hg g' hg' c _ d _ r r' heq
      obtain ⟨name, hname⟩ := List.exists_mem_of_ne_nil _ (ne_nil_of_mem_groupMembers hg)
      obtain ⟨name', hname'⟩ := List.exists_mem_of_ne_nil _ (ne_nil_of_mem_groupMembers hg')
      have hdelimited := hsignatures _ (mem_of_mem_groupMembers hg hname) _
        (mem_of_mem_groupMembers hg' hname')
      have hidentifiers : ∀ name ∈ g.2 ++ g'.2, isIdentifier name = true := by
        intro name hmem
        exact (List.mem_append.1 hmem).elim (hms g hg name) (hns g' hg' name)
      obtain ⟨rfl, hrest⟩ := groupText_inj hidentifiers hdelimited heq
      exact ⟨rfl, List.cons.inj hrest⟩
  -- The groups, taken apart again, are the members in the order of the signature.
  have hsorted : sortMembers ms = sortMembers ns := by
    rw [← ungroup_groupMembers (sortMembers ms), hgroups.1, ungroup_groupMembers]
  have hperm : ms.Perm ns := (sortMembers_perm ms).symm.trans (hsorted ▸ sortMembers_perm ns)
  exact ⟨hperm, hgroups.2⟩

/-! ## Types -/

/-- A canonical type in which all fields have identifiers as names. -/
abbrev Legible (τ : Ty) : Prop := τ.Formed fun name => isIdentifier name = true

theorem memberSignatures_eq_map (fields : List (String × Ty)) :
    memberSignatures fields = fields.map fun field => (field.2.signature, field.1) := by
  induction fields with
  | nil => rfl
  | cons field fields ih => simp [memberSignatures, ih]

theorem mem_memberSignatures {fields : List (String × Ty)} {member : String × String}
    (h : member ∈ memberSignatures fields) :
    ∃ field ∈ fields, member = (field.2.signature, field.1) := by
  rw [memberSignatures_eq_map] at h
  obtain ⟨field, hfield, rfl⟩ := List.mem_map.1 h
  exact ⟨field, hfield, rfl⟩

/-- The names of a record's fields increase, with their texts beside them. -/
theorem sorted_memberSignatures {fields : List (String × Ty)} (h : SortedFields fields) :
    (memberSignatures fields).Pairwise fun a b => a.2 < b.2 := by
  rw [memberSignatures_eq_map]
  exact List.pairwise_map.2 h

/-- Fields are those with the names and signatures that they have. -/
theorem memberSignatures_inj {fs gs : List (String × Ty)}
    (hinj : ∀ f ∈ fs, ∀ g ∈ gs, f.2.signature = g.2.signature → f.2 = g.2)
    (h : memberSignatures fs = memberSignatures gs) : fs = gs := by
  induction fs generalizing gs with
  | nil =>
    cases gs with
    | nil => rfl
    | cons g gs => cases h
  | cons f fs ih =>
    cases gs with
    | nil => cases h
    | cons g gs =>
      obtain ⟨hfirst, hothers⟩ := List.cons.inj h
      obtain ⟨hsignature, hname⟩ := Prod.mk.inj hfirst
      have hf : f = g := Prod.ext hname (hinj f (by simp) g (by simp) hsignature)
      rw [hf, ih (fun a ha b hb => hinj a (by simp [ha]) b (by simp [hb])) hothers]

/-- What is told of the fields of two records one by one is told of the records. -/
theorem record_inj {fs gs : List (String × Ty)} (hfs : (Ty.record fs).Legible)
    (hgs : (Ty.record gs).Legible)
    (hinj : ∀ f ∈ fs, ∀ g ∈ gs, ∀ r r',
      f.2.signature.toList ++ r = g.2.signature.toList ++ r' → f.2 = g.2 ∧ r = r')
    {r r' : List Char}
    (h : (joinMembers (memberSignatures fs)).toList ++ '\x7d' :: r =
      (joinMembers (memberSignatures gs)).toList ++ '\x7d' :: r') : fs = gs ∧ r = r' := by
  obtain ⟨hsorted, hfields⟩ := (formed_record_iff fs).1 hfs
  obtain ⟨hsorted', hfields'⟩ := (formed_record_iff gs).1 hgs
  have hnames : ∀ m ∈ memberSignatures fs ++ memberSignatures gs, isIdentifier m.2 = true := by
    intro m hm
    rcases List.mem_append.1 hm with hm | hm
    · obtain ⟨f, hf, rfl⟩ := mem_memberSignatures hm
      exact (hfields f hf).1
    · obtain ⟨g, hg, rfl⟩ := mem_memberSignatures hm
      exact (hfields' g hg).1
  have hsignatures : ∀ m ∈ memberSignatures fs, ∀ n ∈ memberSignatures gs,
      Delimited m.1.toList n.1.toList := by
    intro m hm n hn r r' heq
    obtain ⟨f, hf, rfl⟩ := mem_memberSignatures hm
    obtain ⟨g, hg, rfl⟩ := mem_memberSignatures hn
    obtain ⟨htype, hrest⟩ := hinj f hf g hg r r' heq
    exact ⟨by simp only [htype], hrest⟩
  obtain ⟨hperm, hrest⟩ := perm_of_joinMembers hnames hsignatures h
  have hmembers : memberSignatures fs = memberSignatures gs := by
    refine hperm.eq_of_pairwise ?_ (sorted_memberSignatures hsorted)
      (sorted_memberSignatures hsorted')
    intro m n _ _ hmn hnm
    exact absurd hmn hnm.not_gt
  refine ⟨memberSignatures_inj (fun f hf g hg heq => ?_) hmembers, hrest⟩
  exact (hinj f hf g hg [] [] (by rw [heq])).1

/-- The bounds of an array end where the signs behind them stand. -/
theorem array_inj {base base' : Ty} {lower upper lower' upper' : Int}
    (hinj : ∀ r r', base.signature.toList ++ r = base'.signature.toList ++ r' →
      base = base' ∧ r = r') {r r' : List Char}
    (h : (Ty.array base lower upper).signature.toList ++ r =
      (Ty.array base' lower' upper').signature.toList ++ r') :
    Ty.array base lower upper = .array base' lower' upper' ∧ r = r' := by
  have hdot : ∀ i : Int, '.' ∉ i.repr.toList := notMem_repr_int (by decide) (by decide)
  have hsemi : ∀ i : Int, ';' ∉ i.repr.toList := notMem_repr_int (by decide) (by decide)
  have hbounds : lower.repr.toList ++ '.' :: '.' :: (upper.repr.toList ++
      ';' :: (base.signature.toList ++ ']' :: r)) = lower'.repr.toList ++ '.' :: '.' ::
      (upper'.repr.toList ++ ';' :: (base'.signature.toList ++ ']' :: r')) := by
    simpa [signature] using h
  obtain ⟨hlower, -, hdots⟩ := eq_of_append_cons (hdot _) (hdot _) hbounds
  obtain ⟨hupper, -, htail⟩ := eq_of_append_cons (hsemi _) (hsemi _) (List.cons.inj hdots).2
  obtain ⟨hbase, hrest⟩ := hinj _ _ htail
  rw [hbase, repr_int_inj hlower, repr_int_inj hupper]
  exact ⟨rfl, (List.cons.inj hrest).2⟩

mutual

/-- A signature tells its type and where it ends. -/
theorem signature_append_inj : (a b : Ty) → a.Legible → b.Legible → ∀ r r',
    a.signature.toList ++ r = b.signature.toList ++ r' → a = b ∧ r = r'
  | .integer, b, _, _, r, r', h => by cases b <;> simp_all [signature]
  | .char, b, _, _, r, r', h => by cases b <;> simp_all [signature]
  | .unknown, b, _, _, r, r', h => by cases b <;> simp_all [signature]
  | .array base lower upper, b, ha, hb, r, r', h => by
    cases b with
    | integer | char | unknown | record fields => simp [signature] at h
    | array base' lower' upper' =>
      exact array_inj (signature_append_inj base base' ha.element hb.element) h
  | .record fields, b, ha, hb, r, r', h => by
    cases b with
    | integer | char | unknown | array base lower upper => simp [signature] at h
    | record fields' =>
      -- The induction is on the first type; the fields of the second one are met through it.
      have hfields := ((formed_record_iff fields).1 ha).2
      have hfields' := ((formed_record_iff fields').1 hb).2
      have hinj := fieldSignature_append_inj fields fun field hfield => (hfields field hfield).2
      obtain ⟨rfl, hrest⟩ := record_inj ha hb
        (fun f hf g hg => hinj f hf g.2 (hfields' g hg).2) (by simpa [signature] using h)
      exact ⟨rfl, hrest⟩

/-- The type of a field is a part of the record type, so its text can be read back by induction. -/
theorem fieldSignature_append_inj : (fields : List (String × Ty)) →
    (∀ field ∈ fields, field.2.Legible) → ∀ field ∈ fields, ∀ b : Ty, b.Legible → ∀ r r',
    field.2.signature.toList ++ r = b.signature.toList ++ r' → field.2 = b ∧ r = r'
  | [], _, _, hfield => by cases hfield
  | (name, type) :: fields, hfields, field, hfield => by
    rcases List.mem_cons.1 hfield with rfl | hfield
    · exact fun b => signature_append_inj type b (hfields (name, type) List.mem_cons_self)
    · have hothers := fun f hf => hfields f (List.mem_cons_of_mem _ hf)
      exact fieldSignature_append_inj fields hothers field hfield

end

/-- Types that are written alike are equal. -/
theorem signature_inj {a b : Ty} (ha : a.Legible) (hb : b.Legible)
    (h : a.signature = b.signature) : a = b :=
  (signature_append_inj a b ha hb [] [] (by rw [h])).1

end Ty

end SnlFront
