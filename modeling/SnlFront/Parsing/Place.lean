import SnlFront.Syntax
import SnlFront.Token

/-!
# Places in an unfinished tree

While a program is being read, what has been read so far is a tree with one place still open. A
place records everything around the open part: what was finished to its left, and the place of the
node it belongs to. There is one kind of place for each kind of node that can be under way, so an
unfinished tree is well formed by its type.

## Main definitions

* `Outline`: the enclosing program or procedures with the declarations read so far.
* `TypePlace`, `GroupPlace`: where a type or a list of names goes.
* `StatementPlace`, `BlockPlace`: where a statement or a list of statements goes.
* `ExpressionPlace`, `OperandPlace`, `VariablePlace`: where an expression and its parts go.
-/

namespace SnlFront.Parsing

/-! ## Declarations -/

mutual

/-- The program or procedure that is being read, without its declarations and body. -/
inductive Head
  | program (start : Position) (name : String)
  | procedure (name : Located String) (params : List (Located Parameter)) (outer : Outline)

/-- A program or procedure with the declarations read so far. -/
structure Outline where
  head : Head
  types : List (Located Alias)
  vars : List (Located Group)
  procedures : List (Located Procedure)

end

namespace Outline

/-- A program or procedure of which no declaration has been read. -/
def start (head : Head) : Outline := ⟨head, [], [], []⟩

/-- The declarations read so far. -/
def declarations (o : Outline) : Declarations := ⟨o.types, o.vars, o.procedures⟩

/-- The outline after one more alias. -/
def addType (o : Outline) (a : Located Alias) : Outline := { o with types := o.types ++ [a] }

/-- The outline after one more group of variables. -/
def addVariables (o : Outline) (g : Located Group) : Outline :=
  { o with vars := o.vars ++ [g] }

/-- The outline after one more procedure. -/
def addProcedure (o : Outline) (p : Located Procedure) : Outline :=
  { o with procedures := o.procedures ++ [p] }

end Outline

mutual

/-- Where a type goes. -/
inductive TypePlace
  /-- Behind the equals sign of an alias. -/
  | alias (name : Located String) (outline : Outline)
  /-- In front of a list of names. -/
  | group (place : GroupPlace)

/-- Where names with a common type go. -/
inductive GroupPlace
  | vars (outline : Outline)
  /-- Into a record that starts at a position, after some fields. -/
  | fields (start : Position) (before : List Group) (place : TypePlace)
  /-- Into the parameters of a procedure, after some others. A position is given for parameters by
  reference: it is that of the word which makes them so. -/
  | params (reference : Option Position) (before : List (Located Parameter))
      (procedure : Located String) (outer : Outline)

end

/-! ## Statements -/

mutual

/-- Where a list of statements goes. -/
inductive BlockPlace
  /-- The body of a program or procedure. -/
  | body (outline : Outline)
  | thenBranch (condition : Relation) (place : StatementPlace)
  | elseBranch (condition : Relation) (body : List Statement) (place : StatementPlace)
  | loopBody (condition : Relation) (place : StatementPlace)

/-- Where a statement goes: after some statements of a list. -/
structure StatementPlace where
  before : List Statement
  block : BlockPlace

end

/-! ## Expressions -/

/-- The two statements that start with a comparison. -/
inductive Guarded
  | conditional
  | loop
deriving DecidableEq, Repr

/-- The two statements that consist of a word and a value in brackets. -/
inductive Emission
  | output
  | result
deriving DecidableEq, Repr

mutual

/-- Where an expression goes. -/
inductive ExpressionPlace
  | bracket (start : Position) (place : OperandPlace)
  | index (base : Located String) (field : Option (Located String)) (place : VariablePlace)
  | relationLeft (guarded : Guarded) (place : StatementPlace)
  | relationRight (left : Expression) (sign : Mark) (guarded : Guarded) (place : StatementPlace)
  | emitted (emission : Emission) (place : StatementPlace)
  | assigned (target : Variable) (place : StatementPlace)
  | argument (procedure : Located String) (before : List Expression) (place : StatementPlace)

/-- Where an operand goes: after factors of the same term and terms of the same expression, each
with the sign behind it, the nearest first. -/
structure OperandPlace where
  factors : List (Located Factor × Mark)
  terms : List (Located Term × Mark)
  expression : ExpressionPlace

/-- Where a variable goes. -/
inductive VariablePlace
  | operand (place : OperandPlace)
  | target (place : StatementPlace)

end

namespace OperandPlace

/-- The first operand of an expression. -/
def first (place : ExpressionPlace) : OperandPlace := ⟨[], [], place⟩

/-- The term that ends with a factor. -/
def term (p : OperandPlace) (last : Located Factor) : Located Term :=
  p.factors.foldl (fun right left => ⟨left.1.pos, .chain left.1 (some left.2.text) right⟩)
    ⟨last.pos, .last last none⟩

/-- The expression that ends with a factor. -/
def whole (p : OperandPlace) (last : Located Factor) : Expression :=
  let term := p.term last
  (p.terms.foldl (fun right left => ⟨left.1.pos, .chain left.1 (some left.2.text) right⟩)
    (⟨term.pos, .last term none⟩ : Located Expression)).value

/-- The next operand, after a factor and a multiplicative sign. -/
def addFactor (p : OperandPlace) (factor : Located Factor) (sign : Mark) : OperandPlace :=
  { p with factors := (factor, sign) :: p.factors }

/-- The next operand, after a factor that ends a term and an additive sign. -/
def addTerm (p : OperandPlace) (factor : Located Factor) (sign : Mark) : OperandPlace :=
  ⟨[], (p.term factor, sign) :: p.terms, p.expression⟩

end OperandPlace

namespace StatementPlace

/-- The place of the first statement of a list. -/
def first (block : BlockPlace) : StatementPlace := ⟨[], block⟩

/-- The place after one more statement. -/
def add (p : StatementPlace) (s : Statement) : StatementPlace :=
  { p with before := p.before ++ [s] }

end StatementPlace

end SnlFront.Parsing
