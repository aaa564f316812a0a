import Mathlib.Data.List.Infix
import SnlFront.Proofs.Checking.Items
import SnlFront.Proofs.Unknown.Suppression

/-!
# Names keep their first meaning

Types, variables and procedures of a level share one frame. A name that is declared several times
keeps the meaning that its first declaration gives it, with the types that were known there, and
each further declaration is reported where it stands. So it is at the level of a program and at the
level of a procedure, which starts with the name of the procedure itself and goes on with its
parameters.

## Main definitions

* `repeated`: the occurrences of names that are taken already.
* `Item.Gives`: the symbol that the names of an item are to stand for.
* `Item.ahead`, `Item.repeats`, `Item.behind`: what is reported at an item, in this order.
* `KeepsFirst`: what becomes of the names of a level, and what is reported there.

## Main statements

* `Item.settles_of_holeFree`: what one item does.
* `Item.keepsFirst_checkAll`: what the items of a level do.
* `levels_keepFirst`: the level of a program and the level of a procedure.
-/

namespace SnlFront

/-! ## Repeated names -/

/-- The occurrences of names that are taken where they stand, or have occurred further ahead. -/
def repeated (taken : String → Bool) (names : List (Located String)) : List (Located String) :=
  ((names.zip names.inits).filter fun (name, ahead) =>
    taken name.value || ahead.any fun other => other.value == name.value).map Prod.fst

theorem repeated_cons (taken : String → Bool) (name : Located String)
    (names : List (Located String)) :
    repeated taken (name :: names) =
      (if taken name.value then [name] else []) ++
        repeated (fun other => taken other || name.value == other) names := by
  rw [repeated, List.inits_cons, List.zip_cons_cons, List.zip_map_right, List.filter_cons,
    List.filter_map, repeated]
  by_cases h : taken name.value = true <;> simp [h, Function.comp_def, Bool.or_assoc]

/-- Names behind others are repeated if they are taken, or stand among those ahead of them. -/
theorem repeated_append (taken : String → Bool) (names others : List (Located String)) :
    repeated taken (names ++ others) =
      repeated taken names ++
        repeated (fun other => taken other || names.any fun name => name.value == other)
          others := by
  induction names generalizing taken with
  | nil => simp [repeated]
  | cons name names ih =>
    rw [List.cons_append, repeated_cons, repeated_cons, ih, List.append_assoc]
    simp [Bool.or_assoc]

/-! ## Names that are declared as far as they are free -/

namespace Scope

/-- Let a name stand for a symbol, unless the innermost frame knows the name. -/
def declareNew (s : Scope) (symbol : Symbol) (name : String) : Scope :=
  if s.isLocal name then s else s.declare name symbol

/-- The same for one name after the other. -/
def declareEach (s : Scope) (symbol : Symbol) (names : List (Located String)) : Scope :=
  names.foldl (fun s name => s.declareNew symbol name.value) s

theorem outer_declareNew (s : Scope) (symbol : Symbol) (name : String) :
    (s.declareNew symbol name).outer = s.outer := by
  unfold declareNew
  split <;> rfl

/-- A name that is declared as far as it is free keeps its first meaning. -/
theorem lookup_inner_declareNew (s : Scope) (symbol : Symbol) (name other : String) :
    (s.declareNew symbol name).inner.lookup other =
      (s.inner.lookup other).or (if name == other then some symbol else none) := by
  unfold declareNew
  by_cases h : name = other
  · subst h
    cases hlocal : s.inner.lookup name <;> simp [isLocal, hlocal, declare, Frame.lookup_put]
  · have hother : ¬ other = name := fun heq => h heq.symm
    split
    · simp [h]
    · simp [declare, Frame.lookup_put, h, hother]

theorem outer_declareEach (s : Scope) (symbol : Symbol) (names : List (Located String)) :
    (s.declareEach symbol names).outer = s.outer := by
  induction names generalizing s with
  | nil => rfl
  | cons name names ih => exact (ih _).trans (s.outer_declareNew symbol name.value)

/-- What was known stays, and the names that were free stand for the symbol. -/
theorem lookup_inner_declareEach (s : Scope) (symbol : Symbol) (names : List (Located String))
    (name : String) :
    (s.declareEach symbol names).inner.lookup name =
      (s.inner.lookup name).or
        (if names.any fun other => other.value == name then some symbol else none) := by
  induction names generalizing s with
  | nil => simp [declareEach]
  | cons first names ih =>
    rw [declareEach, List.foldl_cons]
    refine (ih _).trans ?_
    rw [lookup_inner_declareNew, List.any_cons, Option.or_assoc]
    cases first.value == name <;> cases names.any fun other => other.value == name <;> rfl

/-- Whether they were free or not, the names are there afterwards. -/
theorem isLocal_declareEach (s : Scope) (symbol : Symbol) (names : List (Located String))
    (name : String) :
    (s.declareEach symbol names).isLocal name =
      (s.isLocal name || names.any fun other => other.value == name) := by
  rw [isLocal, lookup_inner_declareEach, Option.isSome_or, isLocal]
  cases names.any fun other => other.value == name <;> rfl

end Scope

/-- The reports about names that are taken. -/
def duplicates (taken : String → Bool) (names : List (Located String)) :
    List (Located Diagnostic) :=
  (repeated taken names).map (Located.map Diagnostic.duplicatedIdentifier)

/-- Names that have been declared are taken for those that follow. -/
theorem duplicates_append (s : Scope) (symbol : Symbol) (names others : List (Located String)) :
    duplicates s.isLocal (names ++ others) =
      duplicates s.isLocal names ++ duplicates (s.declareEach symbol names).isLocal others := by
  have htaken : (s.declareEach symbol names).isLocal =
      fun other => s.isLocal other || names.any fun name => name.value == other :=
    funext (s.isLocal_declareEach symbol names)
  rw [duplicates, repeated_append, List.map_append, htaken]
  rfl

theorem duplicates_singleton (taken : String → Bool) (name : Located String) :
    duplicates taken [name] =
      if taken name.value then [⟨name.pos, .duplicatedIdentifier name.value⟩] else [] := by
  rw [duplicates, repeated_cons]
  cases taken name.value <;> rfl

namespace ScopeM

variable {ω α β : Type}

/-- A step that comes to a value hands it on, with the scope that it leaves. -/
theorem run_bind_of_ok {x : ScopeM ω α} {s t : Scope} {log : List ω} {a : α}
    (h : x.run s = (t, ⟨log, .ok a⟩)) (f : α → ScopeM ω β) :
    (x >>= f).run s =
      (((f a).run t).1, ⟨log ++ ((f a).run t).2.log, ((f a).run t).2.value⟩) := by
  rw [run_bind, h]

end ScopeM

open ScopeM

theorem run_declareFree (name : Located String) (symbol : Symbol) (s : Scope) :
    (declareFree name symbol).run s =
      (s.declareEach symbol [name], ⟨duplicates s.isLocal [name], .ok ()⟩) := by
  rw [declareFree, run_bind_of_ok (run_checkFree name s), duplicates_singleton]
  cases hlocal : s.isLocal name.value <;>
    simp [Scope.declareEach, Scope.declareNew, hlocal, Logged.pure]

/-- Names of one type are declared as far as they are free, and the others are reported. -/
theorem run_declareNames (τ : Ty) (names : List (Located String)) (s : Scope) :
    (declareNames τ names).run s =
      (s.declareEach (.variable τ) names, ⟨duplicates s.isLocal names, .ok ()⟩) := by
  induction names generalizing s with
  | nil => rfl
  | cons name names ih =>
    rw [declareNames, run_bind_of_ok (run_declareFree name _ s), ih, ← duplicates_append]
    rfl

/-! ## One item -/

/-- The symbol that the names of an item are to stand for: its types are those that are known in the
scope at the item. -/
inductive Item.Gives (s : Scope) : Item → Symbol → Prop
  | binding (name : Located String) (symbol : Symbol) : Gives s (.binding name symbol) symbol
  | alias {d : Located Alias} {τ : Ty} (base : d.value.base.value.resolve s = .ok τ) :
      Gives s (.alias d) (.type τ)
  | group {g : Located Group} {τ : Ty} (type : g.value.type.value.resolve s = .ok τ) :
      Gives s (.group g) (.variable τ)
  | procedure {p : Located Procedure} {τs : List Ty}
      (params : ParametersResolve s p.value.params τs) :
      Gives s (.procedure p) (.procedure τs)

namespace Item

/-- What is reported at an item before its names are looked at. -/
def ahead (s : Scope) : Item → List (Located Diagnostic)
  | .binding _ _ => []
  | .alias _ => []
  | .group g => (TypeExpr.check s g.value.type).log
  | .procedure p => ((checkParams p.value.params).run s).2.log

/-- What is reported about the names of an item. -/
def repeats (s : Scope) (item : Item) : List (Located Diagnostic) :=
  duplicates s.isLocal item.names

/-- What is reported at an item after its names have been looked at. -/
def behind (s : Scope) : Item → List (Located Diagnostic)
  | .binding _ _ => []
  | .alias d => if s.isLocal d.value.name then [] else (TypeExpr.check s d.value.base).log
  | .group _ => []
  | .procedure p =>
    match ((checkParams p.value.params).run s).2.value with
    | .ok args =>
      let around := s.declareNew (.procedure (args.map Prod.snd)) p.value.name
      ((p.value.inside args).run around.enter).2.log
    | .error _ => []

/-- What is reported at an item. -/
def reports (s : Scope) (item : Item) : List (Located Diagnostic) :=
  item.ahead s ++ item.repeats s ++ item.behind s

/-- Nothing inside an item is a hole. -/
def holeFree : Item → Bool
  | .binding _ _ => true
  | .alias d => d.value.base.value.holeFree
  | .group g => g.value.type.value.holeFree
  | .procedure p => p.value.holeFree

/-- The item is checked to its end. Its names stand for the symbol that it gives, as far as they
were free, and nothing else changes. -/
def Settles (s : Scope) (item : Item) : Prop :=
  ∃ symbol, item.Gives s symbol ∧
    item.check.run s = (s.declareEach symbol item.names, ⟨item.reports s, .ok ()⟩)

end Item

theorem TypeExpr.run_checkDeclaredType {t : Located TypeExpr} (h : t.value.holeFree = true)
    (s : Scope) :
    ∃ τ, t.value.resolve s = .ok τ ∧
      (checkDeclaredType t).run s = (s, ⟨(TypeExpr.check s t).log, .ok τ⟩) := by
  obtain ⟨τ, hτ⟩ := (TypeExpr.yields_check s h).value
  exact ⟨τ, TypeExpr.resolve_of_check hτ, by rw [checkDeclaredType, run_read, ← hτ]⟩

theorem Item.settles_binding (name : Located String) (symbol : Symbol) (s : Scope) :
    (Item.binding name symbol).Settles s := by
  refine ⟨symbol, .binding name symbol, ?_⟩
  rw [Item.check, run_declareFree]
  simp [Item.names, Item.reports, Item.ahead, Item.repeats, Item.behind]

/-- The type of an alias is looked at if its name is free; if not, there is nothing more to do. -/
theorem Item.settles_alias {d : Located Alias} (h : d.value.base.value.holeFree = true)
    (s : Scope) : (Item.alias d).Settles s := by
  obtain ⟨τ, hτ, hrun⟩ := TypeExpr.run_checkDeclaredType h s
  refine ⟨.type τ, .alias hτ, ?_⟩
  have hreports : (Item.alias d).reports s =
      if s.isLocal d.value.name then [⟨d.pos, .duplicatedIdentifier d.value.name⟩]
      else (TypeExpr.check s d.value.base).log := by
    simp only [Item.reports, Item.ahead, Item.repeats, Item.names, Item.behind,
      duplicates_singleton, Located.map]
    cases s.isLocal d.value.name <;> simp
  have hscope : s.declareEach (.type τ) (Item.alias d).names =
      s.declareNew (.type τ) d.value.name := rfl
  rw [Item.check, declareTypes, run_bind_of_ok (run_checkFree _ s), hreports, hscope]
  cases hlocal : s.isLocal d.value.name with
  | false =>
    simp [hlocal, Located.map, run_bind_of_ok hrun, declareTypes, Scope.declareNew, Logged.pure]
  | true => simp [hlocal, Located.map, declareTypes, Scope.declareNew, Logged.pure]

/-- A group declares its names with the type that was resolved ahead of them. -/
theorem Item.settles_group {g : Located Group} (h : g.value.type.value.holeFree = true)
    (s : Scope) : (Item.group g).Settles s := by
  obtain ⟨τ, hτ, hrun⟩ := TypeExpr.run_checkDeclaredType h s
  refine ⟨.variable τ, .group hτ, ?_⟩
  rw [Item.check, declareVariables, run_bind_of_ok hrun, run_bind_of_ok (run_declareNames τ _ s)]
  simp [declareVariables, Item.reports, Item.ahead, Item.repeats, Item.behind, Item.names,
    Logged.pure]

/-- Parameters keep all their names, also those that occur twice. -/
theorem names_of_checkParams {params : List (Located Parameter)} {s : Scope}
    {args : List (Located String × Ty)} (h : ((checkParams params).run s).2.value = .ok args) :
    args.map Prod.fst = params.flatMap fun param => param.value.group.names := by
  induction params generalizing args with
  | nil =>
    cases h
    rfl
  | cons param params ih =>
    rw [checkParams] at h
    obtain ⟨τ, _, hrest, -⟩ := ok_of_bind h
    obtain ⟨others, hothers, hargs, -⟩ := ok_of_bind hrest
    cases hargs
    rw [List.flatMap_cons, ← ih hothers, List.map_append]
    simp [Function.comp_def]

/-- What happens to a procedure: its parameters are looked at, then its name, and then it is checked
in a frame of its own. -/
theorem Procedure.run_check {p : Procedure} {s : Scope} {args : List (Located String × Ty)}
    (h : ((checkParams p.params).run s).2.value = .ok args) (q : Position) :
    let around := s.declareNew (.procedure (args.map Prod.snd)) p.name
    let inside := (p.inside args).run around.enter
    (p.check q).run s =
      (around, ⟨((checkParams p.params).run s).2.log ++ (duplicates s.isLocal [⟨q, p.name⟩] ++
        inside.2.log), inside.2.value⟩) := by
  have hparams : (checkParams p.params).run s =
      (s, ⟨((checkParams p.params).run s).2.log, .ok args⟩) := by
    refine Prod.ext (run_checkParams h).1 ?_
    rw [← h]
  rw [Procedure.check_eq, run_bind_of_ok hparams, run_bind_of_ok (run_declareFree _ _ s),
    (p.inside_keepsOuter args).run_inFrame]
  rfl

theorem Procedure.exists_args {p : Procedure} (h : p.holeFree = true) (s : Scope) :
    ∃ args, ((checkParams p.params).run s).2.value = .ok args := by
  obtain ⟨name, params, types, vars, procedures, body⟩ := p
  have hparams : parametersHoleFree params = true := by
    simp only [holeFree, Bool.and_eq_true] at h
    exact h.1.1.1.1
  exact (Yields.finishes (yields_checkParams hparams)) s

theorem Procedure.finishes_check {p : Procedure} (h : p.holeFree = true) (q : Position) :
    (p.check q).Finishes := by
  intro s
  have hall : Procedure.allHoleFree [⟨q, p⟩] = true := by simp [allHoleFree, h]
  obtain ⟨_, hvalue⟩ := Procedure.finishes_checkAll hall s
  rw [Procedure.checkAll] at hvalue
  obtain ⟨u, hu, -, -⟩ := ok_of_bind hvalue
  exact ⟨u, hu⟩

/-- A procedure declares its name around itself, and leaves nothing else there. -/
theorem Item.settles_procedure {p : Located Procedure} (h : p.value.holeFree = true) (s : Scope) :
    (Item.procedure p).Settles s := by
  obtain ⟨args, hargs⟩ := Procedure.exists_args h s
  obtain ⟨_, hends⟩ := Procedure.finishes_check h p.pos s
  refine ⟨.procedure (args.map Prod.snd), .procedure (run_checkParams hargs).2, ?_⟩
  have hrun := Procedure.run_check hargs p.pos
  have hbehind : (Item.procedure p).behind s = ((p.value.inside args).run
      (s.declareNew (.procedure (args.map Prod.snd)) p.value.name).enter).2.log := by
    simp only [Item.behind, hargs]
  rw [hrun] at hends
  rw [Item.check, hrun, Item.reports, hbehind, ← List.append_assoc]
  rw [hends]
  rfl

/-- What one item does. -/
theorem Item.settles_of_holeFree {item : Item} (h : item.holeFree = true) (s : Scope) :
    item.Settles s := by
  cases item with
  | binding name symbol => exact Item.settles_binding name symbol s
  | «alias» d => exact Item.settles_alias h s
  | group g => exact Item.settles_group h s
  | procedure p => exact Item.settles_procedure h s

/-! ## All items of a level -/

/-- The items of a level, each with the scope in which it is checked. -/
def Item.stations (s : Scope) (items : List Item) : List (Item × Scope) :=
  items.zip (items.inits.map fun before => ((Item.checkAll before).run s).1)

/-- The names of items, in their order. -/
def Item.allNames (items : List Item) : List (Located String) := items.flatMap Item.names

/-- A level is checked item by item and to its end. The innermost frame then knows its former names,
with their symbols, and the names of the items. A name that is new stands for the symbol that the
first item with this name gives in the scope before it. What is reported is what each item reports,
and the reports about names are those about the occurrences that are repeated. -/
structure KeepsFirst (s : Scope) (items : List Item) (x : Analysis Unit) : Prop where
  course : x = Item.checkAll items
  ends : (x.run s).2.value = .ok ()
  outer : (x.run s).1.outer = s.outer
  known : ∀ name, (x.run s).1.isLocal name = true ↔
    s.isLocal name = true ∨ name ∈ (Item.allNames items).map Located.value
  kept : ∀ name, s.isLocal name = true → (x.run s).1.inner.lookup name = s.inner.lookup name
  first : ∀ before item after name, items = before ++ item :: after → s.isLocal name = false →
    name ∉ (Item.allNames before).map Located.value → name ∈ item.names.map Located.value →
    ∃ symbol, item.Gives ((Item.checkAll before).run s).1 symbol ∧
      (x.run s).1.inner.lookup name = some symbol
  reports : (x.run s).2.log = (Item.stations s items).flatMap fun (item, here) => item.reports here
  repeats : ((Item.stations s items).flatMap fun (item, here) => item.repeats here) =
    duplicates s.isLocal (Item.allNames items)

theorem Item.mem_names_iff (item : Item) (name : String) :
    name ∈ item.names.map Located.value ↔ (item.names.any fun n => n.value == name) = true := by
  simp

theorem keepsFirst_nil (s : Scope) : KeepsFirst s [] (Item.checkAll []) where
  course := rfl
  ends := rfl
  outer := rfl
  known name := by simp [Item.checkAll, Item.allNames]
  kept _ _ := rfl
  first before item after name h := by simp at h
  reports := rfl
  repeats := rfl

section Cons

variable {s t : Scope} {item : Item} {items : List Item} {log : List (Located Diagnostic)}

theorem Item.run_checkAll_cons (h : item.check.run s = (t, ⟨log, .ok ()⟩)) (items : List Item) :
    (Item.checkAll (item :: items)).run s =
      (((Item.checkAll items).run t).1,
        ⟨log ++ ((Item.checkAll items).run t).2.log, ((Item.checkAll items).run t).2.value⟩) :=
  ScopeM.run_bind_of_ok h _

/-- The stations behind an item are those of the scope that it leaves. -/
theorem Item.stations_cons (h : item.check.run s = (t, ⟨log, .ok ()⟩)) (items : List Item) :
    Item.stations s (item :: items) = (item, s) :: Item.stations t items := by
  rw [stations, List.inits_cons, List.map_cons, List.zip_cons_cons, List.map_map]
  have hscopes : ((fun before => ((Item.checkAll before).run s).1) ∘ fun before => item :: before) =
      fun before => ((Item.checkAll before).run t).1 := by
    funext before
    rw [Function.comp_apply, Item.run_checkAll_cons h before]
  rw [hscopes]
  rfl

/-- One more item in front. -/
theorem KeepsFirst.cons (hitem : item.Settles s)
    (hitems : ∀ t, KeepsFirst t items (Item.checkAll items)) :
    KeepsFirst s (item :: items) (Item.checkAll (item :: items)) := by
  obtain ⟨symbol, hgives, hrun⟩ := hitem
  have hlevel := hitems (s.declareEach symbol item.names)
  have hall := Item.run_checkAll_cons hrun items
  have hstations := Item.stations_cons hrun items
  have hlocal := s.isLocal_declareEach symbol item.names
  have hfound := s.lookup_inner_declareEach symbol item.names
  constructor
  case course => rfl
  case ends =>
    rw [hall]
    exact hlevel.ends
  case outer =>
    rw [hall]
    exact hlevel.outer.trans (s.outer_declareEach symbol item.names)
  case known =>
    intro name
    rw [hall]
    simp only [hlevel.known, hlocal, Item.allNames, List.flatMap_cons, List.map_append,
      List.mem_append, Item.mem_names_iff, Bool.or_eq_true, or_assoc]
  case kept =>
    intro name hname
    rw [hall, hlevel.kept name (by simp [hlocal, hname]), hfound]
    obtain ⟨known, hknown⟩ := Option.isSome_iff_exists.1 hname
    simp [hknown]
  case first =>
    intro before other after name heq hnew hbefore hname
    rw [hall]
    cases before with
    | nil =>
      -- The name is declared here, and what follows keeps its symbol.
      obtain ⟨rfl, rfl⟩ := List.cons.inj heq
      have hany := (Item.mem_names_iff item name).1 hname
      have hnone : s.inner.lookup name = none := by simpa [Scope.isLocal] using hnew
      refine ⟨symbol, hgives, ?_⟩
      rw [hlevel.kept name (by simp [hlocal, hany]), hfound, hany, hnone]
      rfl
    | cons head before =>
      obtain ⟨rfl, rfl⟩ := List.cons.inj heq
      simp only [Item.allNames, List.flatMap_cons, List.map_append, List.mem_append, not_or]
        at hbefore
      have hany : (item.names.any fun n => n.value == name) = false := by
        simpa [Item.mem_names_iff] using hbefore.1
      have hfree : (s.declareEach symbol item.names).isLocal name = false := by
        rw [hlocal, hnew, hany]
        rfl
      rw [Item.run_checkAll_cons hrun before]
      exact hlevel.first before other after name rfl hfree hbefore.2 hname
  case reports => rw [hall, hstations, List.flatMap_cons, ← hlevel.reports]
  case repeats =>
    rw [hstations, List.flatMap_cons, hlevel.repeats]
    exact (duplicates_append s symbol item.names _).symm

end Cons

/-- What the items of a level do. -/
theorem Item.keepsFirst_checkAll {items : List Item} (h : ∀ item ∈ items, item.holeFree = true)
    (s : Scope) : KeepsFirst s items (Item.checkAll items) := by
  induction items generalizing s with
  | nil => exact keepsFirst_nil s
  | cons item items ih =>
    obtain ⟨hitem, hitems⟩ := List.forall_mem_cons.1 h
    exact .cons (Item.settles_of_holeFree hitem s) (ih hitems)

/-! ## Levels -/

/-- Nothing inside the declarations of a level is a hole. -/
def Declarations.holeFree (d : Declarations) : Bool :=
  aliasesHoleFree d.types && variablesHoleFree d.vars && Procedure.allHoleFree d.procedures

theorem Procedure.allHoleFree_iff (procedures : List (Located Procedure)) :
    Procedure.allHoleFree procedures = true ↔ ∀ p ∈ procedures, p.value.holeFree = true := by
  induction procedures with
  | nil => simp [Procedure.allHoleFree]
  | cons p procedures ih => simp [Procedure.allHoleFree, ih]

theorem Declarations.holeFree_items {d : Declarations} (h : d.holeFree = true) :
    ∀ item ∈ d.items, item.holeFree = true := by
  simp only [holeFree, aliasesHoleFree, variablesHoleFree, Bool.and_eq_true, List.all_eq_true,
    Procedure.allHoleFree_iff] at h
  obtain ⟨⟨htypes, hvars⟩, hprocedures⟩ := h
  intro item hitem
  simp only [items, List.mem_append, List.mem_map] at hitem
  rcases hitem with (⟨a, ha, rfl⟩ | ⟨g, hg, rfl⟩) | ⟨p, hp, rfl⟩
  · exact htypes a ha
  · exact hvars g hg
  · exact hprocedures p hp

theorem Procedure.holeFree_declarations {p : Procedure} (h : p.holeFree = true) :
    p.declarations.holeFree = true := by
  obtain ⟨name, params, types, vars, procedures, body⟩ := p
  simp only [holeFree, Bool.and_eq_true] at h
  simp [declarations, Declarations.holeFree, h.1]

/-- Parameters are items without a hole, since their types are found. -/
theorem Procedure.holeFree_levelItems {p : Procedure} (h : p.holeFree = true)
    (args : List (Located String × Ty)) : ∀ item ∈ p.levelItems args, item.holeFree = true := by
  intro item hitem
  rcases List.mem_append.1 hitem with hitem | hitem
  · obtain ⟨arg, _, rfl⟩ := List.mem_map.1 hitem
    rfl
  · exact Declarations.holeFree_items (holeFree_declarations h) item hitem

/-- The reports from inside a procedure are those of its level, if that is checked to its end, and
those of its body. -/
theorem Procedure.log_inside (p : Procedure) (args : List (Located String × Ty)) {s t : Scope}
    {log : List (Located Diagnostic)}
    (h : (Item.checkAll (p.levelItems args)).run
      ⟨[(p.name, .procedure (args.map Prod.snd))], s.frames⟩ = (t, ⟨log, .ok ()⟩)) :
    ((p.inside args).run s.enter).2.log = log ++ (Statement.checkAll t p.body).log := by
  have hopened : (ScopeM.declare p.name (.procedure (args.map Prod.snd)) : Analysis Unit).run
      s.enter = (⟨[(p.name, .procedure (args.map Prod.snd))], s.frames⟩, ⟨[], .ok ()⟩) := rfl
  rw [inside, run_bind_of_ok hopened, run_bind_of_ok h]
  rfl

/-- Names keep their first meaning, at the level of a program and inside a procedure. There the
level starts with the name of the procedure, which stands for all its parameters, also for those
with the same name; parameters have the types that are known around the procedure, and the
declarations of the procedure follow. -/
theorem levels_keepFirst :
    (∀ (d : Declarations) (s : Scope), d.holeFree = true → KeepsFirst s d.items d.check) ∧
    ∀ (p : Procedure) (q : Position) (s : Scope), p.holeFree = true →
      ∃ args, ((checkParams p.params).run s).2.value = .ok args ∧
        args.map Prod.fst = p.params.flatMap (fun param => param.value.group.names) ∧
        ParametersResolve s p.params (args.map Prod.snd) ∧
        let symbol := Symbol.procedure (args.map Prod.snd)
        let opened : Scope := ⟨[(p.name, symbol)], (s.declareNew symbol p.name).frames⟩
        let level : Analysis Unit := do declareParams args; p.declarations.check
        KeepsFirst opened (p.levelItems args) level ∧
        ((p.check q).run s).2.log = ((checkParams p.params).run s).2.log ++
          duplicates s.isLocal [⟨q, p.name⟩] ++ (level.run opened).2.log ++
          (Statement.checkAll (level.run opened).1 p.body).log := by
  constructor
  · intro d s hd
    rw [d.check_eq_checkAll]
    exact Item.keepsFirst_checkAll (Declarations.holeFree_items hd) s
  · intro p q s hp
    obtain ⟨args, hargs⟩ := Procedure.exists_args hp s
    refine ⟨args, hargs, names_of_checkParams hargs, (run_checkParams hargs).2, ?_⟩
    intro symbol opened level
    have hlevel : KeepsFirst opened (p.levelItems args) level := by
      rw [show level = Item.checkAll (p.levelItems args) from p.level_eq_checkAll args]
      exact Item.keepsFirst_checkAll (Procedure.holeFree_levelItems hp args) opened
    have hrun : (Item.checkAll (p.levelItems args)).run opened =
        ((level.run opened).1, ⟨(level.run opened).2.log, .ok ()⟩) := by
      rw [← hlevel.ends, ← hlevel.course]
    refine ⟨hlevel, ?_⟩
    rw [Procedure.run_check hargs q, p.log_inside args hrun]
    simp only [List.append_assoc]

/-- A procedure `x` with two parameters `a` of different types and a variable `a`. -/
def sameNames : Procedure :=
  ⟨"x", [⟨⟨4, 13⟩, false, ⟨⟨4, 13⟩, .named "t"⟩, [⟨⟨4, 15⟩, "a"⟩]⟩,
      ⟨⟨4, 18⟩, true, ⟨⟨4, 22⟩, .char⟩, [⟨⟨4, 27⟩, "a"⟩]⟩],
    [], [⟨⟨5, 5⟩, ⟨⟨5, 5⟩, .named "t"⟩, [⟨⟨5, 7⟩, "a"⟩, ⟨⟨5, 10⟩, "t"⟩]⟩], [], []⟩

/-- Two aliases `t`, a variable `t`, and a procedure that has the name of a variable. -/
def clashes : Declarations :=
  ⟨[⟨⟨1, 6⟩, "t", ⟨⟨1, 10⟩, .integer⟩⟩, ⟨⟨2, 6⟩, "t", ⟨⟨2, 10⟩, .named "t"⟩⟩],
    [⟨⟨3, 5⟩, ⟨⟨3, 5⟩, .named "t"⟩, [⟨⟨3, 7⟩, "x"⟩, ⟨⟨3, 10⟩, "t"⟩]⟩], [⟨⟨4, 11⟩, sameNames⟩]⟩

theorem clashes_keepFirst :
    let known : Scope := ⟨[("x", .variable .integer), ("t", .type .integer)], []⟩
    let symbol := Symbol.procedure [.integer, .char]
    let args : List (Located String × Ty) := [(⟨⟨4, 15⟩, "a"⟩, .integer), (⟨⟨4, 27⟩, "a"⟩, .char)]
    clashes.holeFree = true ∧ KeepsFirst .empty clashes.items clashes.check ∧
      (clashes.check.run .empty).1 = known ∧
      duplicates Scope.empty.isLocal (Item.allNames clashes.items) =
        [⟨⟨2, 6⟩, .duplicatedIdentifier "t"⟩, ⟨⟨3, 10⟩, .duplicatedIdentifier "t"⟩,
          ⟨⟨4, 11⟩, .duplicatedIdentifier "x"⟩] ∧
      sameNames.holeFree = true ∧
      KeepsFirst ⟨[("x", symbol)], known.frames⟩ (sameNames.levelItems args)
        (do declareParams args; sameNames.declarations.check) := by
  intro known symbol args
  refine ⟨by decide, levels_keepFirst.1 clashes .empty (by decide), by decide, by decide,
    by decide, ?_⟩
  obtain ⟨_, hargs, -, -, hlevel, -⟩ := levels_keepFirst.2 sameNames ⟨4, 11⟩ known (by decide)
  have heq : ((checkParams sameNames.params).run known).2.value = .ok args := by rfl
  cases heq.symm.trans hargs
  exact hlevel

end SnlFront
