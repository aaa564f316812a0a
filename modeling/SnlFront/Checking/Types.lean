import SnlFront.Checking.Basic
import SnlFront.Syntax

/-!
# The meaning of type expressions

A type expression is looked at twice: `resolve` finds the type it denotes, with `unknown` for every
name that denotes none, and `validate` reports what is wrong with it. The two agree on where a name
resolves and on which of two fields of one name counts.

## Main definitions

* `TypeExpr.resolve`: the type that an expression denotes.
* `TypeExpr.validate`: what is wrong with a type expression.
* `TypeExpr.check`: both.
-/

namespace SnlFront

/-- The type that a base type denotes. -/
def BaseType.toTy : BaseType → Ty
  | .integer => .integer
  | .char => .char

/-- The type that a name denotes, if it denotes one. -/
def Scope.lookupType? (s : Scope) (name : String) : Option Ty :=
  match s.lookup name with
  | some (.type type) => some type
  | _ => none

mutual

/-- The type that a type expression denotes in a scope. -/
def TypeExpr.resolve (s : Scope) : TypeExpr → Except Fault Ty
  | .integer => .ok .integer
  | .char => .ok .char
  | .array base lower upper => .ok (.array base.toTy lower upper)
  | .record fields => (Group.resolveMembers s fields).map Ty.ofMembers
  | .named name => .ok ((s.lookupType? name).getD .unknown)
  | .hole => .error .unfinished

/-- The members of a record, in the order in which they are written. -/
def Group.resolveMembers (s : Scope) : List Group → Except Fault (List (String × Ty))
  | [] => .ok []
  | ⟨⟨_, type⟩, names⟩ :: groups => do
    let type ← type.resolve s
    let members ← Group.resolveMembers s groups
    return names.map (fun name => (name.value, type)) ++ members

end

/-- Report the names that occur among those seen before. -/
def reportRepeated (seen : List String) : List (Located String) → Checked Unit
  | [] => pure ()
  | name :: names => do
    require (!seen.contains name.value) name.pos (.duplicatedIdentifier name.value)
    reportRepeated (name.value :: seen) names

mutual

/-- Report what is wrong with a type expression at a position. -/
def TypeExpr.validate (s : Scope) (p : Position) : TypeExpr → Checked Unit
  | .integer => pure ()
  | .char => pure ()
  | .array base lower upper =>
    require (lower ≤ upper) p (.invalidArray (.array base.toTy lower upper))
  | .record fields => Group.validateAll s [] fields
  | .named name => require (s.lookupType? name).isSome p (.undefinedType name)
  | .hole => Logged.fail .unfinished

/-- Report what is wrong with the fields of a record, after fields with some names. -/
def Group.validateAll (s : Scope) (seen : List String) : List Group → Checked Unit
  | [] => pure ()
  | ⟨⟨p, type⟩, names⟩ :: groups => do
    type.validate s p
    reportRepeated seen names
    Group.validateAll s (names.map Located.value ++ seen) groups

end

/-- Report what is wrong with a type expression, and find the type it denotes. -/
def TypeExpr.check (s : Scope) (t : Located TypeExpr) : Checked Ty := do
  t.value.validate s t.pos
  Logged.ofExcept (t.value.resolve s)

end SnlFront
