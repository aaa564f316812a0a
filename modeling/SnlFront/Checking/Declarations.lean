import SnlFront.Checking.Statements
import SnlFront.Checking.Types

/-!
# Checking declarations

Declarations are processed in the order in which they are written, and each sees those before it. A
name that is taken at its level is reported and keeps its first meaning. A procedure is known by
its name outside, and inside from the start of a level of its own, which ends with the procedure.

## Main definitions

* `declareTypes`, `declareVariables`: the declarations of types and variables.
* `Procedure.check`, `Declarations.check`: procedures, and all declarations of a level.
* `Program.analyze`: the diagnostics of a program.
-/

namespace SnlFront

/-- Whether a name is free at the innermost level; it is reported if not. -/
def checkFree (name : Located String) : Analysis Bool :=
  .read fun s => do
    require (!s.isLocal name.value) name.pos (.duplicatedIdentifier name.value)
    return !s.isLocal name.value

/-- Let a name stand for a symbol if it is free at the innermost level. -/
def declareFree (name : Located String) (symbol : Symbol) : Analysis Unit := do
  if ← checkFree name then
    ScopeM.declare name.value symbol

/-- Let names stand for variables of a type, as far as they are free. -/
def declareNames (type : Ty) : List (Located String) → Analysis Unit
  | [] => pure ()
  | name :: names => do
    declareFree name (.variable type)
    declareNames type names

/-- Check the type that a declaration names. -/
def checkDeclaredType (t : Located TypeExpr) : Analysis Ty := .read fun s => TypeExpr.check s t

/-- Declare aliases. The type of an alias whose name is taken is not looked at. -/
def declareTypes : List (Located Alias) → Analysis Unit
  | [] => pure ()
  | declaration :: declarations => do
    if ← checkFree (declaration.map Alias.name) then
      let type ← checkDeclaredType declaration.value.base
      ScopeM.declare declaration.value.name (.type type)
    declareTypes declarations

/-- Declare variables. -/
def declareVariables : List (Located Group) → Analysis Unit
  | [] => pure ()
  | group :: groups => do
    let type ← checkDeclaredType group.value.type
    declareNames type group.value.names
    declareVariables groups

/-- The parameters of a procedure, each with its type. -/
def checkParams : List (Located Parameter) → Analysis (List (Located String × Ty))
  | [] => pure []
  | param :: params => do
    let type ← checkDeclaredType param.value.group.type
    let others ← checkParams params
    return param.value.group.names.map (fun name => (name, type)) ++ others

/-- Declare parameters at the level of their procedure. -/
def declareParams : List (Located String × Ty) → Analysis Unit
  | [] => pure ()
  | (name, type) :: params => do
    declareFree name (.variable type)
    declareParams params

mutual

/-- Check a procedure whose name stands at a position. -/
def Procedure.check (p : Position) : Procedure → Analysis Unit
  | ⟨name, params, types, vars, procedures, body⟩ => do
    let params ← checkParams params
    let symbol := Symbol.procedure (params.map Prod.snd)
    declareFree ⟨p, name⟩ symbol
    ScopeM.inFrame do
      ScopeM.declare name symbol
      declareParams params
      declareTypes types
      declareVariables vars
      Procedure.checkAll procedures
      ScopeM.read fun s => Statement.checkAll s body

/-- Check procedures one after the other. -/
def Procedure.checkAll : List (Located Procedure) → Analysis Unit
  | [] => pure ()
  | ⟨p, procedure⟩ :: procedures => do
    procedure.check p
    Procedure.checkAll procedures

end

/-- Check the declarations of a level. -/
def Declarations.check (d : Declarations) : Analysis Unit := do
  declareTypes d.types
  declareVariables d.vars
  Procedure.checkAll d.procedures

/-- Check a program in the scope it is run in. -/
def Program.check (p : Program) : Analysis Unit := do
  p.declarations.check
  ScopeM.read fun s => Statement.checkAll s p.body

/-- The diagnostics of a program, in the order of discovery; none means that it is valid. -/
def Program.analyze (p : Program) : Except Fault (List (Located Diagnostic)) :=
  let checked := (p.check.run .empty).2
  checked.value.map fun _ => checked.log

end SnlFront
