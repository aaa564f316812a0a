import SnlFront.Datum
import SnlFront.Syntax

/-!
# Syntax trees shown as data

Every kind of node has a name and named fields, in a fixed order. Located parts are put in an
envelope with their position, absent parts are null, and the holes of a tree are nodes without
fields.

## Main definitions

* `TypeExpr.toDatum`, `Expression.toDatum`, `Statement.toDatum`, `Declarations.toDatum`,
  `Program.toDatum`: the data of a tree.
-/

namespace SnlFront

namespace Datum

/-- A value that may be absent. -/
def optional {α : Type} (encode : α → Datum) : Option α → Datum
  | none => .null
  | some a => encode a

/-- A name with its position. -/
def ofName (name : Located String) : Datum := .located name.pos (.text name.value)

/-- Names with their positions. -/
def ofNames (names : List (Located String)) : Datum := .list (names.map ofName)

end Datum

/-! ## Types -/

mutual

/-- The data of a type. -/
def TypeExpr.toDatum : TypeExpr → Datum
  | .integer => .node "IntegerType" []
  | .char => .node "CharType" []
  | .array base lower upper =>
    .node "ArrayType"
      [("base", .text base.text), ("lower_bound", .int lower), ("upper_bound", .int upper)]
  | .record fields => .node "RecordType" [("fields", .list (Group.listToData fields))]
  | .named name => .node "NamedType" [("name", .text name)]
  | .hole => .node "Type" []

/-- The data of a group of names. -/
def Group.toDatum : Group → Datum
  | ⟨⟨pos, type⟩, names⟩ =>
    .node "TypedIdentifiers"
      [("type_name", .located pos type.toDatum), ("identifiers", .ofNames names)]

/-- The data of some groups. -/
def Group.listToData : List Group → List Datum
  | [] => []
  | group :: groups => group.toDatum :: Group.listToData groups

end

/-! ## Expressions -/

mutual

/-- The data of an expression. -/
def Expression.toDatum : Expression → Datum
  | .last ⟨pos, left⟩ sign =>
    .node "Expression"
      [("left", .located pos left.toDatum), ("op", .optional .text sign), ("right", .null)]
  | .chain ⟨pos, left⟩ sign ⟨rightPos, right⟩ =>
    .node "Expression"
      [("left", .located pos left.toDatum), ("op", .optional .text sign),
       ("right", .located rightPos right.toDatum)]

/-- The data of a term. -/
def Term.toDatum : Term → Datum
  | .last ⟨pos, left⟩ sign =>
    .node "Term"
      [("left", .located pos left.toDatum), ("op", .optional .text sign), ("right", .null)]
  | .chain ⟨pos, left⟩ sign ⟨rightPos, right⟩ =>
    .node "Term"
      [("left", .located pos left.toDatum), ("op", .optional .text sign),
       ("right", .located rightPos right.toDatum)]

/-- The data of a factor. -/
def Factor.toDatum : Factor → Datum
  | .bracket inner => .node "BracketFactor" [("expression", inner.toDatum)]
  | .constant value => .node "ConstantFactor" [("value", .int value)]
  | .variable v => .node "VariableFactor" [("variable", v.toDatum)]
  | .hole => .node "Factor" []

/-- The data of a variable. -/
def Variable.toDatum : Variable → Datum
  | .whole base => .node "VariableRepresent" [("base", .ofName base), ("visit", .null)]
  | .part base field none =>
    .node "VariableRepresent"
      [("base", .ofName base),
       ("visit", .node "VariableVisit" [("dot", .optional .ofName field), ("sqbr", .null)])]
  | .part base field (some index) =>
    .node "VariableRepresent"
      [("base", .ofName base),
       ("visit",
        .node "VariableVisit" [("dot", .optional .ofName field), ("sqbr", index.toDatum)])]

end

/-! ## Statements -/

/-- The data of a comparison. -/
def Relation.toDatum (r : Relation) : Datum :=
  .node "RelationExpression"
    [("left", r.left.toDatum), ("op", .optional .text r.sign), ("right", r.right.toDatum)]

/-- The data of a call. -/
def Call.toDatum (c : Call) : Datum :=
  .node "Call" [("name", .text c.name), ("params", .list (c.arguments.map Expression.toDatum))]

mutual

/-- The data of a statement. -/
def Statement.toDatum : Statement → Datum
  | .conditional condition body otherwise =>
    .node "ConditionalStatement"
      [("condition", condition.toDatum), ("body", .list (Statement.listToData body)),
       ("else_body", .list (Statement.listToData otherwise))]
  | .loop condition body =>
    .node "LoopStatement"
      [("condition", condition.toDatum), ("body", .list (Statement.listToData body))]
  | .input name => .node "InputStatement" [("variable", .ofName name)]
  | .output value => .node "OutputStatement" [("value", value.toDatum)]
  | .result value => .node "ReturnStatement" [("value", value.toDatum)]
  | .assign target value =>
    .node "AssignStatement" [("variable", target.toDatum), ("value", value.toDatum)]
  | .call ⟨pos, called⟩ => .node "CallStatement" [("call", .located pos called.toDatum)]
  | .hole => .node "Statement" []

/-- The data of some statements. -/
def Statement.listToData : List Statement → List Datum
  | [] => []
  | statement :: statements => statement.toDatum :: Statement.listToData statements

end

/-! ## Declarations -/

/-- The data of an alias. -/
def Alias.toDatum (a : Alias) : Datum :=
  .node "TypeDeclare"
    [("name", .text a.name), ("base", .located a.base.pos a.base.value.toDatum)]

/-- The data of parameters. -/
def Parameter.toDatum (p : Parameter) : Datum :=
  .node "Param" [("is_var", .flag p.byReference), ("definition", p.group.toDatum)]

/-- The data of located things. -/
def Datum.ofLocated {α : Type} (encode : α → Datum) (xs : List (Located α)) : Datum :=
  .list (xs.map fun x => .located x.pos (encode x.value))

/-- The data of the declarations of a level, of which the procedures are data already. -/
def Declarations.assemble (types : List (Located Alias)) (vars : List (Located Group))
    (procedures : List Datum) : Datum :=
  .node "ProgramDeclare"
    [("type_declare", .ofLocated Alias.toDatum types),
     ("variable_declare", .ofLocated Group.toDatum vars),
     ("procedure_declare", .list procedures)]

mutual

/-- The data of a procedure. -/
def Procedure.toDatum : Procedure → Datum
  | ⟨name, params, types, vars, procedures, body⟩ =>
    .node "ProcedureDeclare"
      [("name", .text name), ("params", .ofLocated Parameter.toDatum params),
       ("declare", Declarations.assemble types vars (Procedure.listToData procedures)),
       ("body", .list (Statement.listToData body))]

/-- The data of some located procedures. -/
def Procedure.listToData : List (Located Procedure) → List Datum
  | [] => []
  | ⟨pos, procedure⟩ :: procedures =>
    .located pos procedure.toDatum :: Procedure.listToData procedures

end

/-- The data of the declarations of a level. -/
def Declarations.toDatum (d : Declarations) : Datum :=
  Declarations.assemble d.types d.vars (Procedure.listToData d.procedures)

/-- The data of a program. -/
def Program.toDatum (p : Program) : Datum :=
  .node "Program"
    [("name", .text p.name), ("declare", p.declarations.toDatum),
     ("body", .list (Statement.listToData p.body))]

/-- The data of a program with its position. -/
def Program.locatedToDatum (p : Located Program) : Datum := .located p.pos p.value.toDatum

end SnlFront
