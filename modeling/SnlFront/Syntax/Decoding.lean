import SnlFront.Syntax.Encoding

/-!
# Syntax trees handed over as data

A tree may be handed over as data. Fields that are usually empty may then be left out, and fields
may come in any order, so the data is first brought into the form in which trees are shown; after
that each node is read by its exact form.

## Main definitions

* `Datum.complete`: fields in their order, with defaults for those left out.
* `Datum.strangeBase?`: the first base of an array type that is no base type.
* `Program.ofDatum?` and the readers of the other kinds of tree.
-/

namespace SnlFront

namespace Datum

/-! ## Completing data -/

/-- The fields of a kind of node in their order, each with its default, if it has one. -/
def shape : String → List (String × Option Datum)
  | "Positional" => [("line", none), ("column", none), ("value", none)]
  | "Program" => [("name", none), ("declare", none), ("body", none)]
  | "ProgramDeclare" =>
    [("type_declare", some (.list [])), ("variable_declare", some (.list [])),
     ("procedure_declare", some (.list []))]
  | "TypeDeclare" => [("name", none), ("base", none)]
  | "TypedIdentifiers" => [("type_name", none), ("identifiers", none)]
  | "ProcedureDeclare" => [("name", none), ("params", none), ("declare", none), ("body", none)]
  | "Param" => [("is_var", none), ("definition", none)]
  | "ArrayType" => [("base", none), ("lower_bound", none), ("upper_bound", none)]
  | "RecordType" => [("fields", none)]
  | "NamedType" => [("name", none)]
  | "Expression" => [("left", none), ("op", some .null), ("right", some .null)]
  | "Term" => [("left", none), ("op", some .null), ("right", some .null)]
  | "BracketFactor" => [("expression", none)]
  | "ConstantFactor" => [("value", none)]
  | "VariableFactor" => [("variable", none)]
  | "VariableRepresent" => [("base", none), ("visit", some .null)]
  | "VariableVisit" => [("dot", some .null), ("sqbr", some .null)]
  | "RelationExpression" => [("left", none), ("op", some .null), ("right", none)]
  | "ConditionalStatement" =>
    [("condition", none), ("body", none), ("else_body", some (.list []))]
  | "LoopStatement" => [("condition", none), ("body", none)]
  | "InputStatement" => [("variable", none)]
  | "OutputStatement" => [("value", none)]
  | "ReturnStatement" => [("value", none)]
  | "AssignStatement" => [("variable", none), ("value", none)]
  | "CallStatement" => [("call", none)]
  | "Call" => [("name", none), ("params", some (.list []))]
  | _ => []

/-- The given fields of a node in the order of its kind, with defaults for those left out. -/
def arrange (kind : String) (fields : List (String × Datum)) : List (String × Datum) :=
  (shape kind).filterMap fun (name, default?) =>
    ((fields.lookup name).or default?).map fun value => (name, value)

mutual

/-- Bring every node into the form of its kind. -/
def complete : Datum → Datum
  | .list items => .list (completeItems items)
  | .node kind fields => .node kind (arrange kind (completeFields fields))
  | d => d

/-- Complete the items of a list. -/
def completeItems : List Datum → List Datum
  | [] => []
  | item :: items => item.complete :: completeItems items

/-- Complete the fields of a node. -/
def completeFields : List (String × Datum) → List (String × Datum)
  | [] => []
  | (name, value) :: fields => (name, value.complete) :: completeFields fields

end

/-! ## Bases of arrays -/

/-- The base of an array type, if it is no base type. -/
def ownStrangeBase? (kind : String) (fields : List (String × Datum)) : Option String :=
  match kind, fields.lookup "base" with
  | "ArrayType", some (.text name) =>
    if (BaseType.ofText? name).isSome then none else some name
  | _, _ => none

mutual

/-- The first base of an array type that is no base type. Inner nodes come before the nodes around
them, and fields in the order in which they are given. -/
def strangeBase? : Datum → Option String
  | .list items => strangeBaseInItems? items
  | .node kind fields => (strangeBaseInFields? fields).or (ownStrangeBase? kind fields)
  | _ => none

/-- The first strange base in the items of a list. -/
def strangeBaseInItems? : List Datum → Option String
  | [] => none
  | item :: items => item.strangeBase?.or (strangeBaseInItems? items)

/-- The first strange base in the fields of a node. -/
def strangeBaseInFields? : List (String × Datum) → Option String
  | [] => none
  | (_, value) :: fields => value.strangeBase?.or (strangeBaseInFields? fields)

end

/-! ## Reading simple parts -/

/-- Read a value in an envelope. -/
def toLocated? {α : Type} (decode : Datum → Option α) : Datum → Option (Located α)
  | .node "Positional" [("line", .int line), ("column", .int column), ("value", value)] =>
    (decode value).map fun a => ⟨⟨line, column⟩, a⟩
  | _ => none

/-- Read a text; anything else is none. Signs are read in this way, so that whatever stands in their
place is taken. -/
def toText? : Datum → Option String
  | .text value => some value
  | _ => none

/-- Read a located name. -/
def toName? : Datum → Option (Located String) := toLocated? toText?

/-- Read a list. -/
def toList? {α : Type} (decode : Datum → Option α) : Datum → Option (List α)
  | .list items => items.mapM decode
  | _ => none

/-- Read a value that may be absent. -/
def toOptional? {α : Type} (decode : Datum → Option α) : Datum → Option (Option α)
  | .null => some none
  | d => (decode d).map some

end Datum

/-! ## Types -/

mutual

/-- Read a type. -/
def TypeExpr.ofDatum? : Datum → Option TypeExpr
  | .node "IntegerType" [] => some .integer
  | .node "CharType" [] => some .char
  | .node "ArrayType"
      [("base", .text base), ("lower_bound", .int lower), ("upper_bound", .int upper)] =>
    (BaseType.ofText? base).map fun base => .array base lower upper
  | .node "RecordType" [("fields", .list groups)] => (Group.ofData? groups).map .record
  | .node "NamedType" [("name", .text name)] => some (.named name)
  | .node "Type" [] => some .hole
  | _ => none

/-- Read a group of names. -/
def Group.ofDatum? : Datum → Option Group
  | .node "TypedIdentifiers"
      [("type_name",
        .node "Positional" [("line", .int line), ("column", .int column), ("value", type)]),
       ("identifiers", names)] => do
    let type ← TypeExpr.ofDatum? type
    let names ← names.toList? Datum.toName?
    return ⟨⟨⟨line, column⟩, type⟩, names⟩
  | _ => none

/-- Read some groups. -/
def Group.ofData? : List Datum → Option (List Group)
  | [] => some []
  | d :: ds => do
    let group ← Group.ofDatum? d
    let groups ← Group.ofData? ds
    return group :: groups

end

/-! ## Expressions -/

mutual

/-- Read an expression. -/
def Expression.ofDatum? : Datum → Option Expression
  | .node "Expression"
      [("left",
        .node "Positional" [("line", .int line), ("column", .int column), ("value", left)]),
       ("op", sign), ("right", .null)] => do
    let left ← Term.ofDatum? left
    return .last ⟨⟨line, column⟩, left⟩ sign.toText?
  | .node "Expression"
      [("left",
        .node "Positional" [("line", .int line), ("column", .int column), ("value", left)]),
       ("op", sign),
       ("right",
        .node "Positional" [("line", .int rightLine), ("column", .int rightColumn),
          ("value", right)])] => do
    let left ← Term.ofDatum? left
    let right ← Expression.ofDatum? right
    return .chain ⟨⟨line, column⟩, left⟩ sign.toText? ⟨⟨rightLine, rightColumn⟩, right⟩
  | _ => none

/-- Read a term. -/
def Term.ofDatum? : Datum → Option Term
  | .node "Term"
      [("left",
        .node "Positional" [("line", .int line), ("column", .int column), ("value", left)]),
       ("op", sign), ("right", .null)] => do
    let left ← Factor.ofDatum? left
    return .last ⟨⟨line, column⟩, left⟩ sign.toText?
  | .node "Term"
      [("left",
        .node "Positional" [("line", .int line), ("column", .int column), ("value", left)]),
       ("op", sign),
       ("right",
        .node "Positional" [("line", .int rightLine), ("column", .int rightColumn),
          ("value", right)])] => do
    let left ← Factor.ofDatum? left
    let right ← Term.ofDatum? right
    return .chain ⟨⟨line, column⟩, left⟩ sign.toText? ⟨⟨rightLine, rightColumn⟩, right⟩
  | _ => none

/-- Read a factor. -/
def Factor.ofDatum? : Datum → Option Factor
  | .node "BracketFactor" [("expression", inner)] => (Expression.ofDatum? inner).map .bracket
  | .node "ConstantFactor" [("value", .int value)] => some (.constant value)
  | .node "VariableFactor" [("variable", v)] => (Variable.ofDatum? v).map .variable
  | .node "Factor" [] => some .hole
  | _ => none

/-- Read a variable. -/
def Variable.ofDatum? : Datum → Option Variable
  | .node "VariableRepresent" [("base", base), ("visit", .null)] => base.toName?.map .whole
  | .node "VariableRepresent"
      [("base", base),
       ("visit", .node "VariableVisit" [("dot", field), ("sqbr", .null)])] => do
    let base ← base.toName?
    let field ← field.toOptional? Datum.toName?
    return .part base field none
  | .node "VariableRepresent"
      [("base", base),
       ("visit", .node "VariableVisit" [("dot", field), ("sqbr", index)])] => do
    let base ← base.toName?
    let field ← field.toOptional? Datum.toName?
    let index ← Expression.ofDatum? index
    return .part base field (some index)
  | _ => none

end

/-! ## Statements -/

/-- Read a comparison. -/
def Relation.ofDatum? : Datum → Option Relation
  | .node "RelationExpression" [("left", left), ("op", sign), ("right", right)] => do
    let left ← Expression.ofDatum? left
    let right ← Expression.ofDatum? right
    return ⟨left, sign.toText?, right⟩
  | _ => none

/-- Read a call. -/
def Call.ofDatum? : Datum → Option Call
  | .node "Call" [("name", .text name), ("params", arguments)] =>
    (arguments.toList? Expression.ofDatum?).map fun arguments => ⟨name, arguments⟩
  | _ => none

mutual

/-- Read a statement. -/
def Statement.ofDatum? : Datum → Option Statement
  | .node "ConditionalStatement"
      [("condition", condition), ("body", .list body), ("else_body", .list otherwise)] => do
    let condition ← Relation.ofDatum? condition
    let body ← Statement.ofData? body
    let otherwise ← Statement.ofData? otherwise
    return .conditional condition body otherwise
  | .node "LoopStatement" [("condition", condition), ("body", .list body)] => do
    let condition ← Relation.ofDatum? condition
    let body ← Statement.ofData? body
    return .loop condition body
  | .node "InputStatement" [("variable", name)] => name.toName?.map .input
  | .node "OutputStatement" [("value", value)] => (Expression.ofDatum? value).map .output
  | .node "ReturnStatement" [("value", value)] => (Expression.ofDatum? value).map .result
  | .node "AssignStatement" [("variable", target), ("value", value)] => do
    let target ← Variable.ofDatum? target
    let value ← Expression.ofDatum? value
    return .assign target value
  | .node "CallStatement" [("call", called)] => (called.toLocated? Call.ofDatum?).map .call
  | .node "Statement" [] => some .hole
  | _ => none

/-- Read some statements. -/
def Statement.ofData? : List Datum → Option (List Statement)
  | [] => some []
  | d :: ds => do
    let statement ← Statement.ofDatum? d
    let statements ← Statement.ofData? ds
    return statement :: statements

end

/-! ## Declarations -/

/-- Read an alias. -/
def Alias.ofDatum? : Datum → Option Alias
  | .node "TypeDeclare" [("name", .text name), ("base", base)] =>
    (base.toLocated? TypeExpr.ofDatum?).map fun base => ⟨name, base⟩
  | _ => none

/-- Read parameters. -/
def Parameter.ofDatum? : Datum → Option Parameter
  | .node "Param" [("is_var", .flag byReference), ("definition", group)] =>
    (Group.ofDatum? group).map fun group => ⟨byReference, group⟩
  | _ => none

mutual

/-- Read a procedure. -/
def Procedure.ofDatum? : Datum → Option Procedure
  | .node "ProcedureDeclare"
      [("name", .text name), ("params", params),
       ("declare", .node "ProgramDeclare"
          [("type_declare", types), ("variable_declare", vars),
           ("procedure_declare", .list procedures)]),
       ("body", .list body)] => do
    let params ← params.toList? (Datum.toLocated? Parameter.ofDatum?)
    let types ← types.toList? (Datum.toLocated? Alias.ofDatum?)
    let vars ← vars.toList? (Datum.toLocated? Group.ofDatum?)
    let procedures ← Procedure.ofData? procedures
    let body ← Statement.ofData? body
    return ⟨name, params, types, vars, procedures, body⟩
  | _ => none

/-- Read some located procedures. -/
def Procedure.ofData? : List Datum → Option (List (Located Procedure))
  | [] => some []
  | .node "Positional" [("line", .int line), ("column", .int column), ("value", d)] :: ds => do
    let procedure ← Procedure.ofDatum? d
    let procedures ← Procedure.ofData? ds
    return ⟨⟨line, column⟩, procedure⟩ :: procedures
  | _ => none

end

/-- Read the declarations of a level. -/
def Declarations.ofDatum? : Datum → Option Declarations
  | .node "ProgramDeclare"
      [("type_declare", types), ("variable_declare", vars),
       ("procedure_declare", .list procedures)] => do
    let types ← types.toList? (Datum.toLocated? Alias.ofDatum?)
    let vars ← vars.toList? (Datum.toLocated? Group.ofDatum?)
    let procedures ← Procedure.ofData? procedures
    return ⟨types, vars, procedures⟩
  | _ => none

/-- Read a program. -/
def Program.ofDatum? : Datum → Option Program
  | .node "Program" [("name", .text name), ("declare", declarations), ("body", .list body)] => do
    let declarations ← Declarations.ofDatum? declarations
    let body ← Statement.ofData? body
    return ⟨name, declarations, body⟩
  | _ => none

end SnlFront
