import SnlFront.Proofs.Syntax.Levels

/-!
# Uses of names and where they are visible

The static rule of scoping, read off the tree. A body stands inside a chain of levels, from its own
level out to that of the program. Each level contributes to what is visible in the body: the own
level all its names, a level further out only those procedures that come no later than the one in
which the body lies. Types play no part in it, nor does it matter whether a name is declared twice.

## Main definitions

* `Expression.uses`, `Statement.uses`: the occurrences of used names, in the order of reading.
* `Level`: the names that a level contributes.
* `Site`: a body with the levels around it.
* `Program.sites`: the bodies of a program, each after the bodies of the procedures inside it.
* `Program.unresolved`: the occurrences whose name is not visible.
-/

namespace SnlFront

/-! ## Occurrences -/

mutual

/-- The names used in an expression. -/
def Expression.uses : Expression → List (Located String)
  | .last ⟨_, left⟩ _ => left.uses
  | .chain ⟨_, left⟩ _ ⟨_, right⟩ => left.uses ++ right.uses

/-- The names used in a term. -/
def Term.uses : Term → List (Located String)
  | .last ⟨_, left⟩ _ => left.uses
  | .chain ⟨_, left⟩ _ ⟨_, right⟩ => left.uses ++ right.uses

/-- The names used in a factor. -/
def Factor.uses : Factor → List (Located String)
  | .bracket inner => inner.uses
  | .constant _ => []
  | .variable v => v.uses
  | .hole => []

/-- The names used in a variable: its base, and those in its index. A field is no use of a name. -/
def Variable.uses : Variable → List (Located String)
  | .whole base => [base]
  | .part base _ none => [base]
  | .part base _ (some index) => base :: index.uses

end

/-- The names used in a comparison. -/
def Relation.uses (r : Relation) : List (Located String) := r.left.uses ++ r.right.uses

/-- The names used in a call: that of the procedure, and those in the arguments. -/
def Call.uses (call : Located Call) : List (Located String) :=
  call.map Call.name :: call.value.arguments.flatMap Expression.uses

mutual

/-- The names used in a statement. -/
def Statement.uses : Statement → List (Located String)
  | .conditional condition body otherwise =>
    condition.uses ++ Statement.usesAll body ++ Statement.usesAll otherwise
  | .loop condition body => condition.uses ++ Statement.usesAll body
  | .input name => [name]
  | .output value => value.uses
  | .result value => value.uses
  | .assign target value => target.uses ++ value.uses
  | .call called => Call.uses called
  | .hole => []

/-- The names used in statements, one after the other. -/
def Statement.usesAll : List Statement → List (Located String)
  | [] => []
  | statement :: statements => statement.uses ++ Statement.usesAll statements

end

/-! ## Visible names -/

/-- The names that a level contributes to what is visible inside it. -/
structure Level where
  /-- The name of the procedure and its parameters; none for the program. -/
  own : List String
  types : List String
  vars : List String
  /-- The procedures that can be seen from where one stands. -/
  procedures : List String

/-- All names that a level contributes. -/
def Level.names (l : Level) : List String := l.own ++ l.types ++ l.vars ++ l.procedures

/-- A level with one more procedure in sight. -/
def Level.see (l : Level) (name : String) : Level :=
  { l with procedures := l.procedures ++ [name] }

/-- Whether one of some levels contributes a name. -/
def visibleIn (levels : List Level) (name : String) : Bool :=
  levels.any fun level => level.names.contains name

/-- A body with the levels around it, its own first. -/
structure Site where
  levels : List Level
  body : List Statement

/-- The occurrences in a body whose name is not visible there. -/
def Site.unresolved (site : Site) : List (Located String) :=
  (Statement.usesAll site.body).filter fun use => !visibleIn site.levels use.value

mutual

/-- The bodies of a procedure inside some levels. -/
def Procedure.sites (outer : List Level) : Procedure → List Site
  | ⟨name, params, types, vars, procedures, body⟩ =>
    let level : Level := ⟨name :: parameterNames params, typeNames types, variableNames vars, []⟩
    Procedure.sitesAll outer level procedures
      ++ [⟨{ level with procedures := procedureNames procedures } :: outer, body⟩]

/-- The bodies of the procedures of a level. Each sees itself and those before it. -/
def Procedure.sitesAll (outer : List Level) (level : Level) : List (Located Procedure) → List Site
  | [] => []
  | ⟨_, procedure⟩ :: procedures =>
    procedure.sites (level.see procedure.name :: outer)
      ++ Procedure.sitesAll outer (level.see procedure.name) procedures

end

/-- The bodies of a program. -/
def Program.sites (p : Program) : List Site :=
  let level : Level := ⟨[], typeNames p.declarations.types, variableNames p.declarations.vars, []⟩
  Procedure.sitesAll [] level p.declarations.procedures
    ++ [⟨[{ level with procedures := procedureNames p.declarations.procedures }], p.body⟩]

/-- The occurrences in a program whose name is not visible where they stand. -/
def Program.unresolved (p : Program) : List (Located String) := p.sites.flatMap Site.unresolved

end SnlFront
