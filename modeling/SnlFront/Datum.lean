import SnlFront.Position
import SnlFront.Text.Escaped

/-!
# Trees as data

A datum is a tree without a type of its own: a node has a kind and named fields, and its fields
hold data again. Syntax trees are shown in this form, and can be handed over in it.

## Main definitions

* `Datum`: plain data.
* `Datum.render`: the text of a datum, one field or item a line, indented by depth.
* `Datum.located`: a datum in an envelope that gives its position.
* `Datum.read?`: a part of a datum by name; envelopes let reads through to what they hold.
-/

namespace SnlFront

/-- Plain data. -/
inductive Datum
  | null
  | flag (value : Bool)
  | int (value : Int)
  | text (value : String)
  | list (items : List Datum)
  | node (kind : String) (fields : List (String × Datum))

namespace Datum

/-! ## Text -/

/-- The start of a line at a depth: two blanks for each level. -/
def newline (depth : Nat) : List Char := '\n' :: List.replicate (2 * depth) ' '

/-- What stands in front of the value of a field. -/
def fieldName (name : String) : List Char := Text.escaped name.toList ++ [':', ' ']

mutual

/-- The text of a datum that starts at a depth. A node shows its kind as its first field. -/
def chars (depth : Nat) : Datum → List Char
  | .null => "null".toList
  | .flag true => "true".toList
  | .flag false => "false".toList
  | .int value => (toString value).toList
  | .text value => Text.escaped value.toList
  | .list [] => ['[', ']']
  | .list (item :: items) =>
    '[' :: newline (depth + 1) ++ chars (depth + 1) item ++ moreItems (depth + 1) items
      ++ newline depth ++ [']']
  | .node kind fields =>
    '\x7b' :: newline (depth + 1) ++ fieldName "node" ++ Text.escaped kind.toList
      ++ moreFields (depth + 1) fields ++ newline depth ++ ['\x7d']

/-- The text of the items of a list behind the first. -/
def moreItems (depth : Nat) : List Datum → List Char
  | [] => []
  | item :: items => ',' :: newline depth ++ chars depth item ++ moreItems depth items

/-- The text of the fields of a node. -/
def moreFields (depth : Nat) : List (String × Datum) → List Char
  | [] => []
  | (name, value) :: fields =>
    ',' :: newline depth ++ fieldName name ++ chars depth value ++ moreFields depth fields

end

/-- The text of a datum. -/
def render (d : Datum) : String := String.ofList (d.chars 0)

/-! ## Envelopes and parts -/

/-- A datum in an envelope that gives its position. -/
def located (p : Position) (value : Datum) : Datum :=
  .node "Positional" [("line", .int p.line), ("column", .int p.column), ("value", value)]

/-- What a datum holds inside all its envelopes. -/
def innermost : Datum → Datum
  | .node "Positional" [("line", _), ("column", _), ("value", value)] => value.innermost
  | d => d

/-- The parts of a whole number, seen as a fraction and as a complex number. -/
def numberPart? (n : Int) : String → Option Int
  | "numerator" => some n
  | "denominator" => some 1
  | "real" => some n
  | "imag" => some 0
  | _ => none

/-- A part of a datum by name: a field of a node, or a part of a number. -/
def field? (name : String) : Datum → Option Datum
  | .node _ fields => fields.lookup name
  | .int n => (numberPart? n name).map .int
  | _ => none

/-- A part of a located datum by name: the envelope's own parts, and behind them the fields of what
it holds. The two coordinates can also be read together. -/
def read? (p : Position) (value : Datum) (name : String) : Option Datum :=
  match name with
  | "line" => some (.int p.line)
  | "column" => some (.int p.column)
  | "position" => some (.list [.int p.line, .int p.column])
  | "value" => some value
  | _ => value.innermost.field? name

end Datum

end SnlFront
