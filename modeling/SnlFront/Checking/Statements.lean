import SnlFront.Checking.Expressions

/-!
# Checking statements

Statements are checked in the order in which they are written, and the parts of a statement from
left to right; what a statement itself demands of its parts comes after them.

## Main definitions

* `Relation.check`, `Call.check`: comparisons and calls.
* `Statement.check`, `Statement.checkAll`: statements.
-/

namespace SnlFront

/-- Whether values of a type can be read, written and compared, as far as is known. -/
def Ty.mayBeBase (t : Ty) : Bool := t.isUnknown || t.isBase

/-- Check one side of a comparison. -/
def checkOperand (s : Scope) (e : Expression) : Checked Unit := do
  let type ← e.check s
  require type.mayBeBase e.left.pos (.invalidOperand type)

/-- Check a comparison. -/
def Relation.check (s : Scope) (r : Relation) : Checked Unit := do
  checkOperand s r.left
  checkOperand s r.right

/-- Check the target of an input. -/
def checkInput (s : Scope) (name : Located String) : Checked Unit :=
  match s.lookup name.value with
  | none => report name.pos (.undefinedIdentifier name.value)
  | some (.variable type) => require type.mayBeBase name.pos (.invalidInput (.type type))
  | some symbol => report name.pos (.invalidInput (.word symbol.kind))

/-- Check an assignment. Nothing can be assigned to a variable of which nothing is known. -/
def checkAssignment (s : Scope) (target : Variable) (value : Expression) : Checked Unit := do
  let expected ← target.check s
  let got ← value.check s
  if expected.isUnknown then
    report target.base.pos .invalidAssignee
  else
    require (expected.compatible got) target.base.pos (.assignmentMismatch expected got)

/-- Check arguments against parameters. Arguments without a parameter are checked on their own. -/
def checkArguments (s : Scope) : List Ty → List Expression → Checked Unit
  | _, [] => pure ()
  | [], argument :: arguments => do
    let _ ← argument.check s
    checkArguments s [] arguments
  | param :: params, argument :: arguments => do
    let type ← argument.check s
    require (param.compatible type) argument.left.pos (.argumentMismatch param type)
    checkArguments s params arguments

/-- The parameters of the procedure that a call names. There are none if it names no procedure. -/
def checkCallee (s : Scope) (p : Position) (call : Call) : Checked (List Ty) :=
  match s.lookup call.name with
  | none => do
    report p (.undefinedIdentifier call.name)
    return []
  | some (.procedure params) => do
    require (params.length = call.arguments.length) p
      (.argumentCount params.length call.arguments.length)
    return params
  | some symbol => do
    report p (.notAProcedure symbol.kind)
    return []

/-- Check a call. -/
def Call.check (s : Scope) (call : Located Call) : Checked Unit := do
  let params ← checkCallee s call.pos call.value
  checkArguments s params call.value.arguments

mutual

/-- Check a statement. -/
def Statement.check (s : Scope) : Statement → Checked Unit
  | .conditional condition body otherwise => do
    condition.check s
    Statement.checkAll s body
    Statement.checkAll s otherwise
  | .loop condition body => do
    condition.check s
    Statement.checkAll s body
  | .input name => checkInput s name
  | .output value => do
    let type ← value.check s
    require type.mayBeBase value.left.pos (.invalidOutput type)
  | .result value => do
    let _ ← value.check s
    pure ()
  | .assign target value => checkAssignment s target value
  | .call called => Call.check s called
  | .hole => Logged.fail .unfinished

/-- Check statements one after the other. -/
def Statement.checkAll (s : Scope) : List Statement → Checked Unit
  | [] => pure ()
  | statement :: statements => do
    statement.check s
    Statement.checkAll s statements

end

end SnlFront
