import SnlFront.Text.Quoted

/-!
# Faults

Errors in a program are reported as diagnostics and never stop the analysis. A fault is different:
it says that the analysis was asked for something that has no answer, and it breaks off.
-/

namespace SnlFront

/-- Why a computation breaks off. -/
inductive Fault
  /-- A tree has a hole where a type, a statement or a factor belongs. -/
  | unfinished
  /-- The outermost frame of a scope was to be left. -/
  | outermost
  /-- An array type was handed over with elements of a type that arrays cannot have. -/
  | strangeBase (name : String)
  /-- A step of a script stopped on purpose. -/
  | stopped (message : String)
deriving DecidableEq, Repr

/-- The wording of a fault; the two that point at a mistake of the caller say nothing. -/
def Fault.message : Fault → String
  | .unfinished => ""
  | .outermost => ""
  | .strangeBase name => Text.quoted name ++ " is not a valid BaseType"
  | .stopped message => message

end SnlFront
