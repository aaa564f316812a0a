import SnlFront.Position

/-!
# Syntax trees

The trees of SNL programs. Positions stand where a later message may have to point: at declared
names, at types, at both ends of a chain of operands, at the base and the field of a variable, and
at calls.

Trees may also come from a caller instead of the parser. Three kinds of node then have a `hole`, a
place that was never filled in; it says nothing and no analysis gets past it. Such trees may also
hold an operator sign of any spelling, or none; signs carry no meaning for the analysis.

## Main definitions

* `TypeExpr`, `Group`: type expressions, and names that share a type.
* `Expression`, `Term`, `Factor`, `Variable`: operands chained by operators of two precedences.
* `Statement`, `Relation`, `Call`.
* `Declarations`, `Procedure`, `Program`.
-/

namespace SnlFront

/-! ## Types -/

/-- The types that an array may have as elements. -/
inductive BaseType
  | integer
  | char
deriving DecidableEq, Repr

namespace BaseType

/-- The name of a base type. -/
def text : BaseType → String
  | .integer => "integer"
  | .char => "char"

/-- The base type of a name. -/
def ofText? : String → Option BaseType
  | "integer" => some .integer
  | "char" => some .char
  | _ => none

end BaseType

mutual

/-- A type as it is written. -/
inductive TypeExpr
  | integer
  | char
  | array (base : BaseType) (lower upper : Int)
  | record (fields : List Group)
  | named (name : String)
  | hole

/-- Names that are declared together, with their common type. -/
structure Group where
  type : Located TypeExpr
  names : List (Located String)

end

/-! ## Expressions -/

mutual

/-- Terms chained by additive signs. The chain nests to the right, and every right part is located
at its own first term. -/
inductive Expression
  | last (left : Located Term) (sign : Option String)
  | chain (left : Located Term) (sign : Option String) (right : Located Expression)

/-- Factors chained by multiplicative signs, nested to the right. -/
inductive Term
  | last (left : Located Factor) (sign : Option String)
  | chain (left : Located Factor) (sign : Option String) (right : Located Term)

/-- A single operand. -/
inductive Factor
  | bracket (inner : Expression)
  | constant (value : Int)
  | variable (v : Variable)
  | hole

/-- A variable as a whole, or a part of it: a field, an element, or an element of a field. -/
inductive Variable
  | whole (base : Located String)
  | part (base : Located String) (field : Option (Located String)) (index : Option Expression)

end

/-- The first term of a chain; messages about an expression point at it. -/
def Expression.left : Expression → Located Term
  | .last left _ => left
  | .chain left _ _ => left

/-- The first factor of a chain. -/
def Term.left : Term → Located Factor
  | .last left _ => left
  | .chain left _ _ => left

/-- The name a variable starts with. -/
def Variable.base : Variable → Located String
  | .whole base => base
  | .part base _ _ => base

/-! ## Statements -/

/-- A comparison of two expressions. -/
structure Relation where
  left : Expression
  sign : Option String
  right : Expression

/-- A call of a procedure. -/
structure Call where
  name : String
  arguments : List Expression

/-- A statement. -/
inductive Statement
  | conditional (condition : Relation) (body : List Statement) (otherwise : List Statement)
  | loop (condition : Relation) (body : List Statement)
  | input (name : Located String)
  | output (value : Expression)
  | result (value : Expression)
  | assign (target : Variable) (value : Expression)
  | call (call : Located Call)
  | hole

/-! ## Declarations -/

/-- A name for a type. -/
structure Alias where
  name : String
  base : Located TypeExpr

/-- Parameters that are declared together. -/
structure Parameter where
  byReference : Bool
  group : Group

/-- A procedure with the declarations of its own level and its body. -/
structure Procedure where
  name : String
  params : List (Located Parameter)
  types : List (Located Alias)
  vars : List (Located Group)
  procedures : List (Located Procedure)
  body : List Statement

/-- The declarations of one level, in the order in which they are written: types, then variables,
then procedures. -/
structure Declarations where
  types : List (Located Alias)
  vars : List (Located Group)
  procedures : List (Located Procedure)

/-- The declarations at the level of a procedure. -/
def Procedure.declarations (p : Procedure) : Declarations := ⟨p.types, p.vars, p.procedures⟩

/-- A program. -/
structure Program where
  name : String
  declarations : Declarations
  body : List Statement

end SnlFront
