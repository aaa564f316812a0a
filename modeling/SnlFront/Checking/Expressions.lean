import SnlFront.Checking.Basic
import SnlFront.Syntax

/-!
# The types of expressions

The type of a chain of operands is that of its first operand. Every operand has to be compatible
with the one before it; whatever is wrong with an operand itself is reported first. A variable of
which nothing is known raises no further questions.

## Main definitions

* `Expression.check`, `Term.check`, `Factor.check`, `Variable.check`: the type of an expression or
  of a part of it, and what is wrong with it.
-/

namespace SnlFront

/-- The type of a name used as a variable. -/
def checkBase (s : Scope) (base : Located String) : Checked Ty :=
  match s.lookup base.value with
  | none => do
    report base.pos (.undefinedIdentifier base.value)
    return .unknown
  | some (.variable type) => pure type
  | some _ => do
    report base.pos (.notAVariable base.value)
    return .unknown

/-- The type of a field of a value, if one is asked for. -/
def checkField (type : Ty) : Option (Located String) → Checked Ty
  | none => pure type
  | some field =>
    match type with
    | .unknown => pure .unknown
    | .record fields =>
      match Ty.field? fields field.value with
      | some fieldType => pure fieldType
      | none => do
        report field.pos (.undefinedField field.value)
        return .unknown
    | other => do
      report field.pos (.fieldOfNonRecord field.value other)
      return .unknown

/-- The type of an element of a value. The index stands at a position and has a type. -/
def checkElement (type : Ty) (p : Position) (index : Ty) : Checked Ty :=
  match type with
  | .unknown => pure .unknown
  | .array base _ _ => do
    require (Ty.integer.compatible index) p (.incompatibleType .integer index)
    return base
  | other => do
    report p (.unexpectedIndex other)
    return .unknown

mutual

/-- The type of an expression. -/
def Expression.check (s : Scope) : Expression → Checked Ty
  | .last ⟨_, left⟩ _ => left.check s
  | .chain ⟨_, left⟩ _ ⟨p, right⟩ => do
    let type ← left.check s
    let other ← right.check s
    require (type.compatible other) p (.incompatibleType type other)
    return type

/-- The type of a term. -/
def Term.check (s : Scope) : Term → Checked Ty
  | .last ⟨_, left⟩ _ => left.check s
  | .chain ⟨_, left⟩ _ ⟨p, right⟩ => do
    let type ← left.check s
    let other ← right.check s
    require (type.compatible other) p (.incompatibleType type other)
    return type

/-- The type of a factor. -/
def Factor.check (s : Scope) : Factor → Checked Ty
  | .bracket inner => inner.check s
  | .constant _ => pure .integer
  | .variable v => v.check s
  | .hole => Logged.fail .unfinished

/-- The type of a variable. -/
def Variable.check (s : Scope) : Variable → Checked Ty
  | .whole base => checkBase s base
  | .part base field none => do
    let type ← checkBase s base
    checkField type field
  | .part base field (some index) => do
    let type ← checkBase s base
    let type ← checkField type field
    let indexType ← index.check s
    checkElement type index.left.pos indexType

end

end SnlFront
