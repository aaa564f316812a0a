import SnlFront.Proofs.Scope.Additions

/-!
# Declarations one by one

The declarations of a level are of several kinds, but they are checked one after the other in the
order in which they are written. As items of one list they can be looked at alike: a level is
checked by checking its items, and so is the level of a procedure, whose first items are the
parameters.

## Main definitions

* `Item`: one declaration, or a name with the symbol it is to stand for.
* `Item.check`, `Item.checkAll`: check items.
* `Declarations.items`, `Procedure.levelItems`: the items of a level.
* `Procedure.inside`: what is done in the frame of a procedure.

## Main statements

* `Declarations.check_eq_checkAll`: the declarations of a level are checked item by item.
* `Procedure.check_eq`: what is done with a procedure.
-/

namespace SnlFront

/-! ## Computations in a row -/

namespace ScopeM

variable {ω α β γ : Type}

/-- A computation is what it does in each scope. -/
theorem ext_run {x y : ScopeM ω α} (h : ∀ s, x.run s = y.run s) : x = y := by
  obtain ⟨f⟩ := x
  obtain ⟨g⟩ := y
  exact congrArg ScopeM.mk (funext h)

/-- Computations in a row may be grouped in any way. What was noted before is put in front in the
same order. -/
theorem bind_assoc_eq (x : ScopeM ω α) (f : α → ScopeM ω β) (g : β → ScopeM ω γ) :
    ((x >>= f) >>= g) = (x >>= fun a => f a >>= g) := by
  refine ext_run fun s => ?_
  rw [run_bind, run_bind, run_bind]
  cases (x.run s).2.value with
  | error fault => rfl
  | ok a =>
    simp only [run_bind]
    cases ((f a).run (x.run s).1).2.value with
    | error fault => rfl
    | ok b => simp

theorem bind_pure_eq (x : ScopeM ω α) : (x >>= fun a => Pure.pure a) = x := by
  refine ext_run fun s => ?_
  rw [run_bind]
  obtain ⟨t, log, value⟩ := x.run s
  cases value with
  | error fault => rfl
  | ok a => simp [Logged.pure]

theorem pure_bind_eq (a : α) (f : α → ScopeM ω β) : (Pure.pure a >>= f) = f a := by
  refine ext_run fun s => ?_
  rw [run_bind, run_pure]
  simp [Logged.pure]

instance : LawfulMonad (ScopeM ω) :=
  .mk' _ bind_pure_eq pure_bind_eq bind_assoc_eq

end ScopeM

/-! ## Items -/

/-- One declaration of a level, or a name with the symbol that it is to stand for. -/
inductive Item
  | binding (name : Located String) (symbol : Symbol)
  | alias (declaration : Located Alias)
  | group (group : Located Group)
  | procedure (procedure : Located Procedure)

namespace Item

/-- The names that an item declares. -/
def names : Item → List (Located String)
  | .binding name _ => [name]
  | .alias d => [d.map Alias.name]
  | .group g => g.value.names
  | .procedure p => [p.map Procedure.name]

/-- Check an item. -/
def check : Item → Analysis Unit
  | .binding name symbol => declareFree name symbol
  | .alias d => declareTypes [d]
  | .group g => declareVariables [g]
  | .procedure p => p.value.check p.pos

/-- Check items one after the other. -/
def checkAll : List Item → Analysis Unit
  | [] => pure ()
  | item :: items => do
    item.check
    checkAll items

/-- Two rows of items are checked one after the other. -/
theorem checkAll_append (items others : List Item) :
    checkAll (items ++ others) = (do checkAll items; checkAll others) := by
  induction items with
  | nil => rw [List.nil_append, checkAll, pure_bind]
  | cons item items ih => rw [List.cons_append, checkAll, checkAll, ih, bind_assoc]

end Item

/-! ## Levels -/

/-- Parameters as items: they are variables whose types are known. -/
def parameterItems (args : List (Located String × Ty)) : List Item :=
  args.map fun arg => .binding arg.1 (.variable arg.2)

/-- The items of a level. -/
def Declarations.items (d : Declarations) : List Item :=
  d.types.map .alias ++ d.vars.map .group ++ d.procedures.map .procedure

/-- The items of the level of a procedure, given its parameters with their types. -/
def Procedure.levelItems (p : Procedure) (args : List (Located String × Ty)) : List Item :=
  parameterItems args ++ p.declarations.items

/-- Each part of a level is checked item by item: the parameters, -/
theorem declareParams_eq_checkAll (args : List (Located String × Ty)) :
    declareParams args = Item.checkAll (parameterItems args) := by
  induction args with
  | nil => rfl
  | cons arg args ih =>
    rw [declareParams, ih]
    rfl

/-- An alias whose name is taken is passed over, so that the others do not depend on how it
ended. -/
theorem declareTypes_cons (declaration : Located Alias) (types : List (Located Alias)) :
    declareTypes (declaration :: types) =
      (do declareTypes [declaration]; declareTypes types) := by
  rw [declareTypes, declareTypes, bind_assoc]
  refine bind_congr fun free => ?_
  cases free with
  | false => exact (pure_bind () fun _ => declareTypes types).symm
  | true => simp [declareTypes]

/-- the aliases, -/
theorem declareTypes_eq_checkAll (types : List (Located Alias)) :
    declareTypes types = Item.checkAll (types.map .alias) := by
  induction types with
  | nil => rfl
  | cons declaration types ih =>
    rw [declareTypes_cons, ih]
    rfl

/-- the variables, -/
theorem declareVariables_eq_checkAll (vars : List (Located Group)) :
    declareVariables vars = Item.checkAll (vars.map .group) := by
  induction vars with
  | nil => rfl
  | cons group vars ih =>
    rw [declareVariables, ih, List.map_cons, Item.checkAll, Item.check]
    simp [declareVariables]

/-- and the procedures. -/
theorem Procedure.checkAll_eq_checkAll (procedures : List (Located Procedure)) :
    Procedure.checkAll procedures = Item.checkAll (procedures.map .procedure) := by
  induction procedures with
  | nil => rfl
  | cons procedure procedures ih =>
    rw [Procedure.checkAll, ih]
    rfl

/-- The declarations of a level are checked item by item. -/
theorem Declarations.check_eq_checkAll (d : Declarations) : d.check = Item.checkAll d.items := by
  rw [Declarations.check, Declarations.items, Item.checkAll_append, Item.checkAll_append,
    declareTypes_eq_checkAll, declareVariables_eq_checkAll, Procedure.checkAll_eq_checkAll,
    bind_assoc]

/-- The level of a procedure is checked item by item. -/
theorem Procedure.level_eq_checkAll (p : Procedure) (args : List (Located String × Ty)) :
    (do declareParams args; p.declarations.check) = Item.checkAll (p.levelItems args) := by
  rw [Procedure.levelItems, Item.checkAll_append, declareParams_eq_checkAll,
    Declarations.check_eq_checkAll]

/-- What is done inside a procedure: it is known by its name from the start, its parameters and
declarations follow, and behind them its body. -/
def Procedure.inside (p : Procedure) (args : List (Located String × Ty)) : Analysis Unit := do
  ScopeM.declare p.name (.procedure (args.map Prod.snd))
  Item.checkAll (p.levelItems args)
  ScopeM.read fun s => Statement.checkAll s p.body

/-- What is done inside a procedure works on its own frame. -/
theorem Procedure.inside_keepsOuter (p : Procedure) (args : List (Located String × Ty)) :
    (p.inside args).KeepsOuter := by
  rw [inside, ← p.level_eq_checkAll]
  refine (ScopeM.keepsOuter_declare _ _).bind fun _ => ?_
  refine ScopeM.KeepsOuter.bind ?_ fun _ => ScopeM.keepsOuter_read _
  exact (keepsOuter_declareParams args).bind fun _ => p.declarations.keepsOuter_check

/-- A procedure is known by its name at the level around it, if that is free there. The rest is done
in a frame of its own. -/
theorem Procedure.check_eq (q : Position) (p : Procedure) :
    p.check q = (do
      let args ← checkParams p.params
      declareFree ⟨q, p.name⟩ (.procedure (args.map Prod.snd))
      ScopeM.inFrame (p.inside args)) := by
  obtain ⟨name, params, types, vars, procedures, body⟩ := p
  rw [Procedure.check]
  simp only [inside, ← Procedure.level_eq_checkAll, Procedure.declarations, Declarations.check,
    bind_assoc]

end SnlFront
