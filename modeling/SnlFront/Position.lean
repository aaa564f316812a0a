/-!
# Source positions

A position is a line and a column, both counted from one in a text that is read from its start.
They are integers rather than naturals because a syntax tree may also be handed over by a caller
with positions of its own, and nothing in the library depends on their sign.

## Main definitions

* `Position`: a line and a column.
* `Position.advance`: the position after some characters.
* `Located`: a value together with the position it stands at.
-/

namespace SnlFront

/-- A line and a column of a source text. -/
structure Position where
  line : Int
  column : Int
deriving DecidableEq, Repr, Inhabited

namespace Position

/-- Where a text starts. -/
def origin : Position := ⟨1, 1⟩

/-- The position after one character. Only a line feed starts a line, so a carriage return and
every other character moves one column on. -/
def step (p : Position) (c : Char) : Position :=
  if c = '\n' then ⟨p.line + 1, 1⟩ else ⟨p.line, p.column + 1⟩

/-- The position after a run of characters. -/
def advance (p : Position) (cs : List Char) : Position := cs.foldl step p

@[simp] theorem advance_nil (p : Position) : p.advance [] = p := rfl

@[simp] theorem advance_cons (p : Position) (c : Char) (cs : List Char) :
    p.advance (c :: cs) = (p.step c).advance cs := rfl

/-- The place behind two texts in a row is found through the place between them. -/
@[simp] theorem advance_append (p : Position) (cs ds : List Char) :
    p.advance (cs ++ ds) = (p.advance cs).advance ds := by
  simp [advance]

/-- How a position is named in front of a message. -/
def describe (p : Position) : String :=
  "line " ++ toString p.line ++ ", column " ++ toString p.column

end Position

/-- A value and the position it stands at. -/
structure Located (α : Type) where
  pos : Position
  value : α
deriving DecidableEq, Repr

namespace Located

/-- Change the value and keep the position. -/
def map {α β : Type} (f : α → β) (x : Located α) : Located β := ⟨x.pos, f x.value⟩

@[simp] theorem pos_map {α β : Type} (f : α → β) (x : Located α) : (x.map f).pos = x.pos := rfl

@[simp] theorem value_map {α β : Type} (f : α → β) (x : Located α) :
    (x.map f).value = f x.value := rfl

/-- A message with its position in front. -/
def remark (x : Located String) : String := x.pos.describe ++ ": " ++ x.value

end Located

end SnlFront
