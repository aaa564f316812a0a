import Mathlib.Data.List.Forall2
import SnlFront.Checking.Statements
import SnlFront.Proofs.Checking.Related
import SnlFront.Proofs.Syntax.Relabeling
import SnlFront.Proofs.Ty.Renaming

/-!
# Corresponding types, scopes and reports

Two runs over the same tree with different labels are compared. What has to be known of the types in
the two runs is little: they are built in step, they have the same shape, and the same ones may
meet. Every relation between types that has these properties is carried on to symbols, to scopes
and to reports. Scopes are compared by what they answer and not frame by frame.

There are two such relations. If names stay as they are, equality is one. If names are exchanged,
canonical types correspond to themselves with other field names.

## Main definitions

* `Correspondence`: a relation between the types of two runs.
* `Correspondence.same`, `Correspondence.renamed`: the two relations.
* `Correspondence.Symbols`, `Correspondence.Scopes`, `Correspondence.Reports`: what follows for
  symbols, scopes and reports.

## Main statements

* `Correspondence.Scopes.declare`, `Correspondence.Scopes.enter`: scopes go on to correspond.
* `Correspondence.Reports.eq_of_details`: one report tells the other one.
* `Correspondence.eq_move_of_same`: if names stay as they are, reports differ in their positions.
-/

namespace SnlFront

/-- Two types have the same shape: the elements of arrays correspond, and in records the same fields
are found, under names that are exchanged, with types that correspond. -/
inductive Ty.Alike (r : String → String) (T : Ty → Ty → Prop) : Ty → Ty → Prop
  | unknown : Alike r T .unknown .unknown
  | integer : Alike r T .integer .integer
  | char : Alike r T .char .char
  | array {base base' : Ty} (lower upper : Int) (h : T base base') :
      Alike r T (.array base lower upper) (.array base' lower upper)
  | record {fs gs : List (String × Ty)}
      (h : ∀ name, Option.Rel T (Ty.field? fs name) (Ty.field? gs (r name))) :
      Alike r T (.record fs) (.record gs)

/-- Members of records have exchanged names and types that correspond. -/
abbrev Ty.MembersAlike (r : String → String) (T : Ty → Ty → Prop) :
    List (String × Ty) → List (String × Ty) → Prop :=
  List.Forall₂ fun member member' => member'.1 = r member.1 ∧ T member.2 member'.2

/-- A relation between the types of two runs over trees with different labels. -/
structure Correspondence (ρ : Relabeling) where
  types : Ty → Ty → Prop
  injective : Function.Injective ρ.name
  unknown : types .unknown .unknown
  integer : types .integer .integer
  char : types .char .char
  array : ∀ (base : BaseType) (lower upper : Int),
    types (.array base.toTy lower upper) (.array base.toTy lower upper)
  ofMembers : ∀ {members members' : List (String × Ty)},
    Ty.MembersAlike ρ.name types members members' →
    types (.ofMembers members) (.ofMembers members')
  alike : ∀ {τ σ : Ty}, types τ σ → Ty.Alike ρ.name types τ σ
  compatible : ∀ {a a' b b' : Ty}, types a a' → types b b' → a.compatible b = a'.compatible b'

namespace Correspondence

/-! ## The two correspondences -/

theorem rel_refl {α : Type} (x : Option α) : Option.Rel Eq x x := by
  cases x with
  | none => exact .none
  | some a => exact .some rfl

/-- If names stay as they are, types correspond to themselves. -/
def same (f : Position → Position) : Correspondence (.ofPlaces f) where
  types := Eq
  injective := Function.injective_id
  unknown := rfl
  integer := rfl
  char := rfl
  array _ _ _ := rfl
  ofMembers := by
    intro members members' h
    have hsame : members = members' := by
      induction h with
      | nil => rfl
      | cons first others ih => rw [ih, Prod.ext first.1.symm first.2]
    rw [hsame]
  alike := by
    rintro τ _ rfl
    cases τ with
    | unknown => exact .unknown
    | integer => exact .integer
    | char => exact .char
    | array base lower upper => exact .array lower upper rfl
    | record fields => exact .record fun name => rel_refl _
  compatible := by
    rintro a _ b _ rfl rfl
    rfl

/-- If names are exchanged, canonical types correspond to themselves with other field names. -/
def renamed {r : String → String} (hr : Function.Injective r) : Correspondence (.ofNames r) where
  types τ σ := τ.Canonical ∧ σ = τ.rename r
  injective := hr
  unknown := ⟨trivial, rfl⟩
  integer := ⟨trivial, rfl⟩
  char := ⟨trivial, rfl⟩
  array base _ _ := by cases base <;> exact ⟨rfl, rfl⟩
  ofMembers := by
    intro members members' h
    have hmembers : (∀ member ∈ members, member.2.Canonical) ∧
        members' = Ty.renameFields r members := by
      induction h with
      | nil => exact ⟨by simp, rfl⟩
      | cons first others ih =>
        refine ⟨List.forall_mem_cons.2 ⟨first.2.1, ih.1⟩, ?_⟩
        rw [Ty.renameFields, ← ih.2, ← first.2.2]
        exact congrArg (· :: _) (Prod.ext first.1 rfl)
    refine ⟨Ty.canonical_ofMembers hmembers.1, ?_⟩
    rw [Ty.rename_ofMembers hr, hmembers.2]
  alike := by
    rintro τ _ ⟨hτ, rfl⟩
    cases τ with
    | unknown => exact .unknown
    | integer => exact .integer
    | char => exact .char
    | array base lower upper =>
      have hbase : base.isBase = true := hτ
      cases base with
      | integer | char => exact .array lower upper ⟨trivial, rfl⟩
      | unknown | array _ _ _ | record _ => cases hbase
    | record fields =>
      have hsorted : Ty.SortedFields fields := hτ.1
      refine .record fun name => ?_
      rw [Ty.field?_eq_lookup hsorted,
        Ty.field?_eq_lookup (Ty.sortedFields_reorderedFields hr hsorted)]
      change Option.Rel _ _ ((Ty.reorderedFields r fields).lookup (r name))
      rw [Ty.lookup_rename hr hsorted]
      cases hfound : fields.lookup name with
      | none => exact .none
      | some σ => exact .some ⟨hτ.lookup hfound, rfl⟩
  compatible := by
    rintro a _ b _ ⟨ha, rfl⟩ ⟨hb, rfl⟩
    exact (Ty.compatible_rename hr a ha b hb).symm

variable {ρ : Relabeling} {K : Correspondence ρ}

theorem isUnknown_eq {τ σ : Ty} (h : K.types τ σ) : τ.isUnknown = σ.isUnknown := by
  cases K.alike h <;> rfl

theorem mayBeBase_eq {τ σ : Ty} (h : K.types τ σ) : τ.mayBeBase = σ.mayBeBase := by
  cases K.alike h <;> rfl

/-! ## Symbols and scopes -/

/-- Symbols of the same kind with types that correspond. -/
inductive Symbols (K : Correspondence ρ) : Symbol → Symbol → Prop
  | ofVariable {τ σ : Ty} (h : K.types τ σ) : Symbols K (.variable τ) (.variable σ)
  | ofType {τ σ : Ty} (h : K.types τ σ) : Symbols K (.type τ) (.type σ)
  | ofProcedure {τs σs : List Ty} (h : List.Forall₂ K.types τs σs) :
      Symbols K (.procedure τs) (.procedure σs)

/-- Scopes that give corresponding answers: what a name stands for, and whether it is taken at the
innermost level. Nothing is said about the frames behind these answers. -/
structure Scopes (K : Correspondence ρ) (s t : Scope) : Prop where
  lookup : ∀ name, Option.Rel K.Symbols (s.lookup name) (t.lookup (ρ.name name))
  isLocal : ∀ name, s.isLocal name = t.isLocal (ρ.name name)

namespace Scopes

variable {s t : Scope}

theorem empty : K.Scopes .empty .empty := ⟨fun _ => .none, fun _ => rfl⟩

theorem enter (h : K.Scopes s t) : K.Scopes s.enter t.enter := ⟨h.lookup, fun _ => rfl⟩

/-- Different names stay different, so a declaration changes the answers for one name only. -/
theorem declare (h : K.Scopes s t) (name : String) {symbol symbol' : Symbol}
    (hsymbol : K.Symbols symbol symbol') :
    K.Scopes (s.declare name symbol) (t.declare (ρ.name name) symbol') := by
  constructor
  · intro other
    simp only [Scope.lookup_declare, K.injective.eq_iff]
    by_cases hother : other = name
    · rw [if_pos hother, if_pos hother]
      exact .some hsymbol
    · rw [if_neg hother, if_neg hother]
      exact h.lookup other
  · intro other
    simp only [Scope.isLocal_declare, K.injective.eq_iff, h.isLocal other]

/-- A name denotes a type in both scopes or in none. -/
theorem lookupType? (h : K.Scopes s t) (name : String) :
    Option.Rel K.types (s.lookupType? name) (t.lookupType? (ρ.name name)) := by
  rw [Scope.lookupType?, Scope.lookupType?]
  rcases cases_of_rel (h.lookup name) with ⟨hname, hname'⟩ | ⟨_, _, hname, hname', hsymbol⟩
  · rw [hname, hname']
    exact .none
  · rw [hname, hname']
    cases hsymbol with
    | ofType h => exact .some h
    | ofVariable h | ofProcedure h => exact .none

end Scopes

/-! ## Reports -/

/-- Details that correspond: types, or the same word or number. -/
inductive Details (K : Correspondence ρ) : Diagnostic.Detail → Diagnostic.Detail → Prop
  | ofType {τ σ : Ty} (h : K.types τ σ) : Details K (.type τ) (.type σ)
  | ofWord (w : String) : Details K (.word w) (.word w)
  | ofCount (n : Int) : Details K (.count n) (.count n)

/-- Diagnostics of the same kind about exchanged names, with details that correspond. -/
structure Diagnostics (K : Correspondence ρ) (d d' : Diagnostic) : Prop where
  kind : d'.kind = d.kind
  name : d'.name = d.name.map ρ.name
  expected : Option.Rel K.Details d.expected d'.expected
  got : Option.Rel K.Details d.got d'.got

/-- A diagnostic without details. -/
theorem Diagnostics.plain (kind : Diagnostic.Kind) (name : Option String) :
    K.Diagnostics ⟨kind, name, none, none⟩ ⟨kind, name.map ρ.name, none, none⟩ :=
  ⟨rfl, rfl, .none, .none⟩

/-- A diagnostic that says what was found. -/
theorem Diagnostics.found (kind : Diagnostic.Kind) (name : Option String)
    {got got' : Diagnostic.Detail} (h : K.Details got got') :
    K.Diagnostics ⟨kind, name, none, some got⟩ ⟨kind, name.map ρ.name, none, some got'⟩ :=
  ⟨rfl, rfl, .none, .some h⟩

/-- A diagnostic that sets what was expected against what was found. -/
theorem Diagnostics.contrast (kind : Diagnostic.Kind)
    {expected expected' got got' : Diagnostic.Detail} (hexpected : K.Details expected expected')
    (hgot : K.Details got got') :
    K.Diagnostics ⟨kind, none, some expected, some got⟩ ⟨kind, none, some expected', some got'⟩ :=
  ⟨rfl, rfl, .some hexpected, .some hgot⟩

/-- Diagnostics that correspond, at exchanged positions. -/
structure Reports (K : Correspondence ρ) (d d' : Located Diagnostic) : Prop where
  place : d'.pos = ρ.place d.pos
  value : K.Diagnostics d.value d'.value

/-- Two runs report one by one what corresponds. -/
def reports (K : Correspondence ρ) : Comparison (Located Diagnostic) where
  holds := List.Forall₂ K.Reports
  nil := .nil
  append h h' := List.rel_append h h'

theorem eq_map_of_rel {α β : Type} {R : α → β → Prop} {g : α → β} (hR : ∀ a b, R a b → b = g a)
    {x : Option α} {y : Option β} (h : Option.Rel R x y) : y = x.map g := by
  cases h with
  | none => rfl
  | some h => exact congrArg some (hR _ _ h)

theorem eq_map_of_forall₂ {α β : Type} {R : α → β → Prop} {g : α → β} (hR : ∀ a b, R a b → b = g a)
    {as : List α} {bs : List β} (h : List.Forall₂ R as bs) : bs = as.map g := by
  induction h with
  | nil => rfl
  | cons first others ih => rw [hR _ _ first, ih, List.map_cons]

/-- If a function tells the details that correspond, it tells the reports that do. -/
theorem Reports.eq_of_details {g : Diagnostic.Detail → Diagnostic.Detail}
    (hg : ∀ e e', K.Details e e' → e' = g e) {d d' : Located Diagnostic} (h : K.Reports d d') :
    d' = ⟨ρ.place d.pos, d.value.kind, d.value.name.map ρ.name, d.value.expected.map g,
      d.value.got.map g⟩ := by
  obtain ⟨p', kind', name', expected', got'⟩ := d'
  obtain ⟨rfl, rfl, rfl, hexpected, hgot⟩ := h
  have hexpected := eq_map_of_rel hg hexpected
  have hgot := eq_map_of_rel hg hgot
  rw [← hexpected, ← hgot]

end Correspondence

/-- A value at another position. -/
def Located.move {α : Type} (f : Position → Position) (x : Located α) : Located α :=
  ⟨f x.pos, x.value⟩

namespace Correspondence

/-- If names stay as they are, corresponding reports differ in their positions only. -/
theorem eq_move_of_same {f : Position → Position} {d d' : Located Diagnostic}
    (h : (same f).Reports d d') : d' = d.move f := by
  have hdetails : ∀ e e', (same f).Details e e' → e' = id e := by
    intro e e' he
    cases he with
    | ofType h => exact congrArg _ (Eq.symm h)
    | ofWord | ofCount => rfl
  rw [h.eq_of_details hdetails]
  simp [Relabeling.ofPlaces, Located.move]

theorem log_eq_of_same {f : Position → Position} {ds ds' : List (Located Diagnostic)}
    (h : (same f).reports.holds ds ds') : ds' = ds.map (Located.move f) :=
  eq_map_of_forall₂ (fun _ _ hd => eq_move_of_same hd) h

end Correspondence

end SnlFront
