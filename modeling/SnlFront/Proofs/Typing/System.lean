import Mathlib.Data.List.Forall2
import Mathlib.Data.String.Basic
import SnlFront.Checking.Types
import SnlFront.Proofs.Syntax.Levels

/-!
# The type system

What it means for a program to be well typed, as a system of rules. The rules know what names stand
for, but nothing of frames, diagnostics or types that could not be determined: an expression has a
type, or there is no rule for it.

That no name is declared twice at a level is a condition on the tree alone. An environment therefore
only has to say what a name stands for; where a name is declared again at an inner level, the inner
declaration replaces the outer one.

## Main definitions

* `Env`: what the visible names stand for.
* `TypeExpr.Denotes`: the type that a type expression denotes.
* `Expression.HasType`, `Term.HasType`, `Factor.HasType`, `Variable.HasType`: the types of
  expressions and their parts.
* `Statement.WellTyped`, `Procedure.WellTyped`, `Program.WellTyped`.
-/

namespace SnlFront

/-- What the names that are visible at a point of a program stand for. -/
abbrev Env := String → Option Symbol

namespace Env

/-- No name is visible. -/
def empty : Env := fun _ => none

/-- The environment behind a declaration. -/
def bind (Γ : Env) (name : String) (symbol : Symbol) : Env :=
  fun other => if other = name then some symbol else Γ other

/-- The environment behind declarations, of which a later one replaces an earlier one. -/
def extend (Γ : Env) (bindings : List (String × Symbol)) : Env :=
  bindings.foldl (fun Γ binding => Γ.bind binding.1 binding.2) Γ

end Env

/-! ## Types -/

mutual

/-- The type that a type expression denotes. The fields of a record have distinct names, and the
order in which they are written does not matter: its type lists them by name. -/
inductive TypeExpr.Denotes (Γ : Env) : TypeExpr → Ty → Prop
  | integer : TypeExpr.Denotes Γ .integer .integer
  | char : TypeExpr.Denotes Γ .char .char
  | array {base : BaseType} {lower upper : Int} (bounds : lower ≤ upper) :
      TypeExpr.Denotes Γ (.array base lower upper) (.array base.toTy lower upper)
  | record {groups : List Group} {members fields : List (String × Ty)}
      (denoted : Group.MembersDenote Γ groups members)
      (distinct : (members.map Prod.fst).Nodup)
      (sorted : fields.Pairwise fun a b => a.1 < b.1)
      (same : fields.Perm members) :
      TypeExpr.Denotes Γ (.record groups) (.record fields)
  | named {name : String} {τ : Ty} (visible : Γ name = some (.type τ)) :
      TypeExpr.Denotes Γ (.named name) τ

/-- The members of a record as they are written, each with its type. -/
inductive Group.MembersDenote (Γ : Env) : List Group → List (String × Ty) → Prop
  | nil : Group.MembersDenote Γ [] []
  | cons {group : Group} {groups : List Group} {τ : Ty} {members : List (String × Ty)}
      (first : TypeExpr.Denotes Γ group.type.value τ)
      (others : Group.MembersDenote Γ groups members) :
      Group.MembersDenote Γ (group :: groups)
        (group.declared.map (fun name => (name, τ)) ++ members)

end

/-- The types of values that can be read, written and compared. -/
inductive Ty.Basic : Ty → Prop
  | integer : Basic .integer
  | char : Basic .char

/-! ## Expressions -/

/-- The part of a value that a field selects, if one is given. Only records have fields. -/
inductive Ty.Selects : Ty → Option (Located String) → Ty → Prop
  | whole {τ : Ty} : Selects τ none τ
  | field {fields : List (String × Ty)} {name : Located String} {τ : Ty}
      (member : (name.value, τ) ∈ fields) : Selects (.record fields) (some name) τ

mutual

/-- The type of a chain is the type of all its operands. -/
inductive Expression.HasType (Γ : Env) : Expression → Ty → Prop
  | last {left : Located Term} {sign : Option String} {τ : Ty}
      (operand : Term.HasType Γ left.value τ) : Expression.HasType Γ (.last left sign) τ
  | chain {left : Located Term} {sign : Option String} {right : Located Expression} {τ : Ty}
      (operand : Term.HasType Γ left.value τ) (others : Expression.HasType Γ right.value τ) :
      Expression.HasType Γ (.chain left sign right) τ

inductive Term.HasType (Γ : Env) : Term → Ty → Prop
  | last {left : Located Factor} {sign : Option String} {τ : Ty}
      (operand : Factor.HasType Γ left.value τ) : Term.HasType Γ (.last left sign) τ
  | chain {left : Located Factor} {sign : Option String} {right : Located Term} {τ : Ty}
      (operand : Factor.HasType Γ left.value τ) (others : Term.HasType Γ right.value τ) :
      Term.HasType Γ (.chain left sign right) τ

inductive Factor.HasType (Γ : Env) : Factor → Ty → Prop
  | bracket {inner : Expression} {τ : Ty} (typed : Expression.HasType Γ inner τ) :
      Factor.HasType Γ (.bracket inner) τ
  | constant {value : Int} : Factor.HasType Γ (.constant value) .integer
  | variable {v : Variable} {τ : Ty} (typed : Variable.HasType Γ v τ) :
      Factor.HasType Γ (.variable v) τ

/-- A variable starts with the name of one. An index is an integer, and only arrays have
elements. -/
inductive Variable.HasType (Γ : Env) : Variable → Ty → Prop
  | whole {base : Located String} {τ : Ty} (visible : Γ base.value = some (.variable τ)) :
      Variable.HasType Γ (.whole base) τ
  | part {base : Located String} {field : Option (Located String)} {τ σ : Ty}
      (visible : Γ base.value = some (.variable τ)) (selected : τ.Selects field σ) :
      Variable.HasType Γ (.part base field none) σ
  | element {base : Located String} {field : Option (Located String)} {index : Expression}
      {τ σ : Ty} {lower upper : Int}
      (visible : Γ base.value = some (.variable τ))
      (selected : τ.Selects field (.array σ lower upper))
      (indexed : Expression.HasType Γ index .integer) :
      Variable.HasType Γ (.part base field (some index)) σ

end

/-! ## Statements -/

/-- Both sides of a comparison have types whose values can be compared. -/
inductive Relation.WellTyped (Γ : Env) (r : Relation) : Prop
  | intro {τ σ : Ty} (left : r.left.HasType Γ τ) (leftBasic : τ.Basic)
      (right : r.right.HasType Γ σ) (rightBasic : σ.Basic)

/-- A call names a procedure and has an argument of the right type for each of its parameters. -/
inductive Call.WellTyped (Γ : Env) (call : Call) : Prop
  | intro {params : List Ty} (visible : Γ call.name = some (.procedure params))
      (arguments : List.Forall₂ (Expression.HasType Γ) call.arguments params)

/-- The statements that are well typed where names stand for what an environment says. -/
inductive Statement.WellTyped (Γ : Env) : Statement → Prop
  | conditional {condition : Relation} {body otherwise : List Statement}
      (compared : condition.WellTyped Γ) (chosen : ∀ s ∈ body, Statement.WellTyped Γ s)
      (rejected : ∀ s ∈ otherwise, Statement.WellTyped Γ s) :
      Statement.WellTyped Γ (.conditional condition body otherwise)
  | loop {condition : Relation} {body : List Statement}
      (compared : condition.WellTyped Γ) (repeated : ∀ s ∈ body, Statement.WellTyped Γ s) :
      Statement.WellTyped Γ (.loop condition body)
  | input {name : Located String} {τ : Ty}
      (visible : Γ name.value = some (.variable τ)) (basic : τ.Basic) :
      Statement.WellTyped Γ (.input name)
  | output {value : Expression} {τ : Ty} (typed : value.HasType Γ τ) (basic : τ.Basic) :
      Statement.WellTyped Γ (.output value)
  | result {value : Expression} {τ : Ty} (typed : value.HasType Γ τ) :
      Statement.WellTyped Γ (.result value)
  | assign {target : Variable} {value : Expression} {τ : Ty}
      (stored : target.HasType Γ τ) (typed : value.HasType Γ τ) :
      Statement.WellTyped Γ (.assign target value)
  | call {called : Located Call} (typed : called.value.WellTyped Γ) :
      Statement.WellTyped Γ (.call called)

/-! ## Declarations -/

/-- The variables of a group with their common type. -/
def Group.bindings (g : Group) (τ : Ty) : List (String × Symbol) :=
  g.declared.map fun name => (name, .variable τ)

/-- Aliases and what they stand for; each may use those before it. -/
inductive TypesDenote : Env → List (Located Alias) → List (String × Symbol) → Prop
  | nil {Γ : Env} : TypesDenote Γ [] []
  | cons {Γ : Env} {declaration : Located Alias} {types : List (Located Alias)} {τ : Ty}
      {bindings : List (String × Symbol)}
      (first : declaration.value.base.value.Denotes Γ τ)
      (others : TypesDenote (Γ.bind declaration.value.name (.type τ)) types bindings) :
      TypesDenote Γ (declaration :: types) ((declaration.value.name, .type τ) :: bindings)

/-- Variables and what they stand for. A group hides what its names stood for before. -/
inductive VariablesDenote : Env → List (Located Group) → List (String × Symbol) → Prop
  | nil {Γ : Env} : VariablesDenote Γ [] []
  | cons {Γ : Env} {group : Located Group} {groups : List (Located Group)} {τ : Ty}
      {bindings : List (String × Symbol)}
      (first : group.value.type.value.Denotes Γ τ)
      (others : VariablesDenote (Γ.extend (group.value.bindings τ)) groups bindings) :
      VariablesDenote Γ (group :: groups) (group.value.bindings τ ++ bindings)

/-- Parameters with their types, which are those of the level around the procedure. -/
inductive ParametersDenote (Γ : Env) : List (Located Parameter) → List (String × Ty) → Prop
  | nil : ParametersDenote Γ [] []
  | cons {param : Located Parameter} {params : List (Located Parameter)} {τ : Ty}
      {args : List (String × Ty)}
      (first : param.value.group.type.value.Denotes Γ τ) (others : ParametersDenote Γ params args) :
      ParametersDenote Γ (param :: params)
        (param.value.group.declared.map (fun name => (name, τ)) ++ args)

/-- The environment behind the head of a procedure: its name, and its parameters as variables. -/
def Env.enterProcedure (Γ : Env) (name : String) (args : List (String × Ty)) : Env :=
  (Γ.bind name (.procedure (args.map Prod.snd))).extend
    (args.map fun arg => (arg.1, .variable arg.2))

mutual

/-- A procedure is well typed, with the types of its parameters. It may call itself. -/
inductive Procedure.WellTyped : Env → Procedure → List Ty → Prop
  | intro {Γ : Env} {p : Procedure} {args : List (String × Ty)}
      (params : ParametersDenote Γ p.params args) (distinct : p.levelNames.Nodup)
      (level : LevelWellTyped (Γ.enterProcedure p.name args) p.declarations p.body) :
      Procedure.WellTyped Γ p (args.map Prod.snd)

/-- The declarations of a level are well typed, and so is the body in which they are visible. -/
inductive LevelWellTyped : Env → Declarations → List Statement → Prop
  | intro {Γ : Env} {d : Declarations} {body : List Statement}
      {types vars procedures : List (String × Symbol)}
      (typesDenote : TypesDenote Γ d.types types)
      (varsDenote : VariablesDenote (Γ.extend types) d.vars vars)
      (nested : Procedure.AllWellTyped ((Γ.extend types).extend vars) d.procedures procedures)
      (bodyTyped : ∀ s ∈ body, s.WellTyped (((Γ.extend types).extend vars).extend procedures)) :
      LevelWellTyped Γ d body

/-- Procedures and what they stand for; each may call those before it. -/
inductive Procedure.AllWellTyped :
    Env → List (Located Procedure) → List (String × Symbol) → Prop
  | nil {Γ : Env} : Procedure.AllWellTyped Γ [] []
  | cons {Γ : Env} {procedure : Located Procedure} {procedures : List (Located Procedure)}
      {params : List Ty} {bindings : List (String × Symbol)}
      (first : Procedure.WellTyped Γ procedure.value params)
      (others : Procedure.AllWellTyped (Γ.bind procedure.value.name (.procedure params))
        procedures bindings) :
      Procedure.AllWellTyped Γ (procedure :: procedures)
        ((procedure.value.name, .procedure params) :: bindings)

end

/-- A program is well typed if its only level is, where no name is visible from outside. -/
structure Program.WellTyped (p : Program) : Prop where
  distinct : p.declarations.names.Nodup
  level : LevelWellTyped .empty p.declarations p.body

end SnlFront
