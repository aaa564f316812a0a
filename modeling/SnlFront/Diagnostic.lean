import SnlFront.Position
import SnlFront.Ty.Signature

/-!
# Diagnostics

What the analysis has to say about a program. A diagnostic has a kind and up to three details: a
name, and what was expected and found. Which details a kind uses is fixed by its wording; a detail
that the wording asks for and that is absent shows as such.

## Main definitions

* `Diagnostic.Kind`, `Diagnostic.Detail`, `Diagnostic`.
* `Diagnostic.message`: the wording.
* `Diagnostic.listing`: located diagnostics, one a line.
-/

namespace SnlFront

namespace Diagnostic

/-- The kinds of diagnostics. -/
inductive Kind
  | duplicatedIdentifier
  | undefinedIdentifier
  | undefinedType
  | incompatibleType
  | notAVariable
  | invalidArray
  | unexpectedIndex
  | fieldOfNonRecord
  | undefinedField
  | assignmentMismatch
  | invalidAssignee
  | argumentMismatch
  | argumentCount
  | invalidOperand
  | invalidInput
  | invalidOutput
deriving DecidableEq, Repr

namespace Kind

/-- All kinds. -/
def all : List Kind :=
  [.duplicatedIdentifier, .undefinedIdentifier, .undefinedType, .incompatibleType, .notAVariable,
   .invalidArray, .unexpectedIndex, .fieldOfNonRecord, .undefinedField, .assignmentMismatch,
   .invalidAssignee, .argumentMismatch, .argumentCount, .invalidOperand, .invalidInput,
   .invalidOutput]

/-- The label of a kind, by which other programs know it. -/
def label : Kind → String
  | .duplicatedIdentifier => "DuplicatedIdentifier"
  | .undefinedIdentifier => "UndefinedIdentifier"
  | .undefinedType => "UndefinedType"
  | .incompatibleType => "UncompatableType"
  | .notAVariable => "InvalidVariableRepresent"
  | .invalidArray => "InvalidArrayDefinition"
  | .unexpectedIndex => "UnexpectedArrayIndex"
  | .fieldOfNonRecord => "InvalidFieldIndexType"
  | .undefinedField => "UndefinedRecordField"
  | .assignmentMismatch => "AssignTypeMismatch"
  | .invalidAssignee => "InvalidAssignee"
  | .argumentMismatch => "CallParameterTypeMismatch"
  | .argumentCount => "CallParameterCountMismatch"
  | .invalidOperand => "InvalidBoolExpression"
  | .invalidInput => "InvalidReadType"
  | .invalidOutput => "InvalidWriteType"

/-- The kind with a label. -/
def ofLabel? (label : String) : Option Kind := all.find? fun kind => kind.label == label

end Kind

/-- What was expected or found. -/
inductive Detail
  | type (t : Ty)
  | word (w : String)
  | count (n : Int)
deriving DecidableEq, Repr

/-- How a detail is written. -/
def Detail.text : Detail → String
  | .type t => t.signature
  | .word w => w
  | .count n => toString n

end Diagnostic

/-- Something wrong with the meaning of a program. -/
structure Diagnostic where
  kind : Diagnostic.Kind
  name : Option String
  expected : Option Diagnostic.Detail
  got : Option Diagnostic.Detail
deriving DecidableEq, Repr

namespace Diagnostic

/-- How an absent detail is written. -/
def absent : String := "None"

/-- The wording of a diagnostic. -/
def message (d : Diagnostic) : String :=
  let name := d.name.getD absent
  let expected := (d.expected.map Detail.text).getD absent
  let got := (d.got.map Detail.text).getD absent
  match d.kind with
  | .duplicatedIdentifier => "duplicated identifier: " ++ name
  | .undefinedIdentifier => "undefined identifier: " ++ name
  | .undefinedType => "undefined type: " ++ name
  | .incompatibleType => "incompatible type: expected " ++ expected ++ ", got " ++ got
  | .notAVariable => name ++ " is not a variable"
  | .invalidArray =>
    "invalid array definition " ++ got ++ ": lower bound is larger than upper bound"
  | .unexpectedIndex => "unexpected array index on " ++ got
  | .fieldOfNonRecord => "field access ." ++ name ++ " on non-record type " ++ got
  | .undefinedField => "undefined record field: " ++ name
  | .assignmentMismatch => "assignment type mismatch: expected " ++ expected ++ ", got " ++ got
  | .invalidAssignee => "invalid assignee"
  | .argumentMismatch => "call parameter type mismatch: expected " ++ expected ++ ", got " ++ got
  | .argumentCount => "invalid number of arguments: expected " ++ expected ++ ", got " ++ got
  | .invalidOperand => "invalid boolean expression operand of type " ++ got
  | .invalidInput => "can only read integers and chars, not " ++ got
  | .invalidOutput => "can only write integers and chars, not " ++ got

/-- A diagnostic with its position in front. -/
def line (d : Located Diagnostic) : String := (d.map message).remark

/-- Diagnostics, one a line. -/
def listing (ds : List (Located Diagnostic)) : String := "\n".intercalate (ds.map line)

/-! ## What the analysis reports -/

/-- A name declared twice at one level, or twice in one record. -/
def duplicatedIdentifier (name : String) : Diagnostic :=
  ⟨.duplicatedIdentifier, some name, none, none⟩

/-- A name that stands for nothing. -/
def undefinedIdentifier (name : String) : Diagnostic :=
  ⟨.undefinedIdentifier, some name, none, none⟩

/-- A name that stands for no type. -/
def undefinedType (name : String) : Diagnostic := ⟨.undefinedType, some name, none, none⟩

/-- Values of two types that may not meet. -/
def incompatibleType (expected got : Ty) : Diagnostic :=
  ⟨.incompatibleType, none, some (.type expected), some (.type got)⟩

/-- A call of something that is no procedure. -/
def notAProcedure (got : String) : Diagnostic :=
  ⟨.incompatibleType, none, some (.word "procedure"), some (.word got)⟩

/-- A name that stands for no variable. -/
def notAVariable (name : String) : Diagnostic := ⟨.notAVariable, some name, none, none⟩

/-- An array with bounds the wrong way round. -/
def invalidArray (got : Ty) : Diagnostic := ⟨.invalidArray, none, none, some (.type got)⟩

/-- An index on something that is no array. -/
def unexpectedIndex (got : Ty) : Diagnostic := ⟨.unexpectedIndex, none, none, some (.type got)⟩

/-- A field of something that is no record. -/
def fieldOfNonRecord (name : String) (got : Ty) : Diagnostic :=
  ⟨.fieldOfNonRecord, some name, none, some (.type got)⟩

/-- A field that a record does not have. -/
def undefinedField (name : String) : Diagnostic := ⟨.undefinedField, some name, none, none⟩

/-- A value assigned to a variable of another type. -/
def assignmentMismatch (expected got : Ty) : Diagnostic :=
  ⟨.assignmentMismatch, none, some (.type expected), some (.type got)⟩

/-- An assignment to a variable of which nothing is known. -/
def invalidAssignee : Diagnostic := ⟨.invalidAssignee, none, none, none⟩

/-- An argument of another type than the parameter. -/
def argumentMismatch (expected got : Ty) : Diagnostic :=
  ⟨.argumentMismatch, none, some (.type expected), some (.type got)⟩

/-- A wrong number of arguments. -/
def argumentCount (expected got : Nat) : Diagnostic :=
  ⟨.argumentCount, none, some (.count expected), some (.count got)⟩

/-- A comparison of values that cannot be compared. -/
def invalidOperand (got : Ty) : Diagnostic := ⟨.invalidOperand, none, none, some (.type got)⟩

/-- Input into something that cannot be read. -/
def invalidInput (got : Detail) : Diagnostic := ⟨.invalidInput, none, none, some got⟩

/-- Output of something that cannot be written. -/
def invalidOutput (got : Ty) : Diagnostic := ⟨.invalidOutput, none, none, some (.type got)⟩

end Diagnostic

end SnlFront
