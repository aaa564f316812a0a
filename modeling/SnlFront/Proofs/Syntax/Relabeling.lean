import SnlFront.Syntax

/-!
# Relabeled trees

A tree carries labels that say nothing about its form: the positions of its parts, and the names in
it. A relabeling puts another position in place of each position and another name in place of each
name. Everything else stays: the signs, the numbers, the holes, and the order of the parts.

## Main definitions

* `Relabeling`: what becomes of positions and of names.
* `Relabeling.ofPlaces`, `Relabeling.ofNames`: only positions change, or only names.
* `TypeExpr.relabel`, `Expression.relabel`, `Statement.relabel`, `Procedure.relabel`,
  `Declarations.relabel`, `Program.relabel`: relabeled trees.

## Main statements

* `Expression.relabel_self`, `Statement.relabelAll_self`, `Declarations.relabel_self`: a tree stays
  as it is if none of its labels changes.
-/

namespace SnlFront

/-- What becomes of the positions and of the names in a tree. -/
structure Relabeling where
  place : Position → Position
  name : String → String

namespace Relabeling

/-- Only positions change. -/
def ofPlaces (f : Position → Position) : Relabeling := ⟨f, id⟩

/-- Only names change. -/
def ofNames (r : String → String) : Relabeling := ⟨id, r⟩

end Relabeling

/-- Move a value, and change it. -/
def Located.relabel {α β : Type} (ρ : Relabeling) (g : α → β) (x : Located α) : Located β :=
  ⟨ρ.place x.pos, g x.value⟩

@[simp] theorem Located.pos_relabel {α β : Type} (ρ : Relabeling) (g : α → β) (x : Located α) :
    (x.relabel ρ g).pos = ρ.place x.pos := rfl

@[simp] theorem Located.value_relabel {α β : Type} (ρ : Relabeling) (g : α → β) (x : Located α) :
    (x.relabel ρ g).value = g x.value := rfl

/-- A row whose parts stay the same stays the same, positions included. -/
theorem Located.map_relabel_self {α : Type} {g : α → α} (h : ∀ a, g a = a)
    (xs : List (Located α)) : xs.map (Located.relabel (.ofPlaces id) g) = xs := by
  have hsame : Located.relabel (.ofPlaces id) g = id := by
    funext x
    rw [relabel, h]
    rfl
  rw [hsame, List.map_id]

/-! ## Types -/

mutual

/-- A type expression with other labels. -/
def TypeExpr.relabel (ρ : Relabeling) : TypeExpr → TypeExpr
  | .integer => .integer
  | .char => .char
  | .array base lower upper => .array base lower upper
  | .record fields => .record (Group.relabelAll ρ fields)
  | .named name => .named (ρ.name name)
  | .hole => .hole

/-- The fields of a record with other labels. -/
def Group.relabelAll (ρ : Relabeling) : List Group → List Group
  | [] => []
  | ⟨⟨p, type⟩, names⟩ :: groups =>
    ⟨⟨ρ.place p, type.relabel ρ⟩, names.map (Located.relabel ρ ρ.name)⟩ ::
      Group.relabelAll ρ groups

end

/-- A group with other labels. -/
def Group.relabel (ρ : Relabeling) (g : Group) : Group :=
  ⟨g.type.relabel ρ (TypeExpr.relabel ρ), g.names.map (Located.relabel ρ ρ.name)⟩

/-- The rows of groups inside a record are relabeled group by group. -/
theorem Group.relabelAll_eq_map (ρ : Relabeling) (groups : List Group) :
    Group.relabelAll ρ groups = groups.map (Group.relabel ρ) := by
  induction groups with
  | nil => rfl
  | cons group groups ih =>
    obtain ⟨⟨p, type⟩, names⟩ := group
    rw [Group.relabelAll, ih]
    rfl

mutual

/-- Without a change of places and names a type expression stays as it is. The same holds of all
trees. -/
theorem TypeExpr.relabel_self : (t : TypeExpr) → t.relabel (.ofPlaces id) = t
  | .integer => rfl
  | .char => rfl
  | .array _ _ _ => rfl
  | .record fields => by rw [TypeExpr.relabel, Group.relabelAll_self fields]
  | .named _ => rfl
  | .hole => rfl

theorem Group.relabelAll_self : (groups : List Group) →
    Group.relabelAll (.ofPlaces id) groups = groups
  | [] => rfl
  | ⟨⟨p, type⟩, names⟩ :: groups => by
    have hnames :=
      Located.map_relabel_self (g := (Relabeling.ofPlaces id).name) (fun _ => rfl) names
    rw [Group.relabelAll, TypeExpr.relabel_self type, Group.relabelAll_self groups, hnames]
    rfl

end

theorem Group.relabel_self (g : Group) : g.relabel (.ofPlaces id) = g := by
  have h := Group.relabelAll_self [g]
  rw [Group.relabelAll_eq_map] at h
  exact List.singleton_inj.1 h

/-! ## Expressions -/

mutual

/-- An expression with other labels. -/
def Expression.relabel (ρ : Relabeling) : Expression → Expression
  | .last ⟨p, left⟩ sign => .last ⟨ρ.place p, left.relabel ρ⟩ sign
  | .chain ⟨p, left⟩ sign ⟨q, right⟩ =>
    .chain ⟨ρ.place p, left.relabel ρ⟩ sign ⟨ρ.place q, right.relabel ρ⟩

/-- A term with other labels. -/
def Term.relabel (ρ : Relabeling) : Term → Term
  | .last ⟨p, left⟩ sign => .last ⟨ρ.place p, left.relabel ρ⟩ sign
  | .chain ⟨p, left⟩ sign ⟨q, right⟩ =>
    .chain ⟨ρ.place p, left.relabel ρ⟩ sign ⟨ρ.place q, right.relabel ρ⟩

/-- A factor with other labels. -/
def Factor.relabel (ρ : Relabeling) : Factor → Factor
  | .bracket inner => .bracket (inner.relabel ρ)
  | .constant value => .constant value
  | .variable v => .variable (v.relabel ρ)
  | .hole => .hole

/-- A variable with other labels. -/
def Variable.relabel (ρ : Relabeling) : Variable → Variable
  | .whole base => .whole (base.relabel ρ ρ.name)
  | .part base field none =>
    .part (base.relabel ρ ρ.name) (field.map (Located.relabel ρ ρ.name)) none
  | .part base field (some index) =>
    .part (base.relabel ρ ρ.name) (field.map (Located.relabel ρ ρ.name)) (some (index.relabel ρ))

end

/-- The operand at the front of a chain is relabeled in its place. -/
@[simp] theorem Expression.left_relabel (ρ : Relabeling) (e : Expression) :
    (e.relabel ρ).left = e.left.relabel ρ (Term.relabel ρ) := by
  cases e <;> rfl

/-- The base of a variable is relabeled as a name. -/
@[simp] theorem Variable.base_relabel (ρ : Relabeling) (v : Variable) :
    (v.relabel ρ).base = v.base.relabel ρ ρ.name := by
  cases v with
  | whole base => rfl
  | part base field index => cases index <;> rfl

theorem Variable.map_field_self (field : Option (Located String)) :
    field.map (Located.relabel (.ofPlaces id) (Relabeling.ofPlaces id).name) = field := by
  cases field <;> rfl

mutual

/-- Expressions stay as they are, and so do terms, factors and variables. -/
theorem Expression.relabel_self : (e : Expression) → e.relabel (.ofPlaces id) = e
  | .last ⟨p, left⟩ sign => by
    rw [Expression.relabel, Term.relabel_self left]
    rfl
  | .chain ⟨p, left⟩ sign ⟨q, right⟩ => by
    rw [Expression.relabel, Term.relabel_self left, Expression.relabel_self right]
    rfl

theorem Term.relabel_self : (t : Term) → t.relabel (.ofPlaces id) = t
  | .last ⟨p, left⟩ sign => by
    rw [Term.relabel, Factor.relabel_self left]
    rfl
  | .chain ⟨p, left⟩ sign ⟨q, right⟩ => by
    rw [Term.relabel, Factor.relabel_self left, Term.relabel_self right]
    rfl

theorem Factor.relabel_self : (f : Factor) → f.relabel (.ofPlaces id) = f
  | .bracket inner => by rw [Factor.relabel, Expression.relabel_self inner]
  | .constant _ => rfl
  | .variable v => by rw [Factor.relabel, Variable.relabel_self v]
  | .hole => rfl

theorem Variable.relabel_self : (v : Variable) → v.relabel (.ofPlaces id) = v
  | .whole base => rfl
  | .part base field none => by
    rw [Variable.relabel, Variable.map_field_self]
    rfl
  | .part base field (some index) => by
    rw [Variable.relabel, Variable.map_field_self, Expression.relabel_self index]
    rfl

end

/-! ## Statements -/

/-- A comparison with other labels. -/
def Relation.relabel (ρ : Relabeling) (r : Relation) : Relation :=
  ⟨r.left.relabel ρ, r.sign, r.right.relabel ρ⟩

/-- A call with other labels. -/
def Call.relabel (ρ : Relabeling) (call : Call) : Call :=
  ⟨ρ.name call.name, call.arguments.map (Expression.relabel ρ)⟩

mutual

/-- A statement with other labels. -/
def Statement.relabel (ρ : Relabeling) : Statement → Statement
  | .conditional condition body otherwise =>
    .conditional (condition.relabel ρ) (Statement.relabelAll ρ body)
      (Statement.relabelAll ρ otherwise)
  | .loop condition body => .loop (condition.relabel ρ) (Statement.relabelAll ρ body)
  | .input name => .input (name.relabel ρ ρ.name)
  | .output value => .output (value.relabel ρ)
  | .result value => .result (value.relabel ρ)
  | .assign target value => .assign (target.relabel ρ) (value.relabel ρ)
  | .call called => .call (called.relabel ρ (Call.relabel ρ))
  | .hole => .hole

/-- Statements with other labels. -/
def Statement.relabelAll (ρ : Relabeling) : List Statement → List Statement
  | [] => []
  | statement :: statements => statement.relabel ρ :: Statement.relabelAll ρ statements

end

/-- Rows of statements are relabeled statement by statement. -/
theorem Statement.relabelAll_eq_map (ρ : Relabeling) (statements : List Statement) :
    Statement.relabelAll ρ statements = statements.map (Statement.relabel ρ) := by
  induction statements with
  | nil => rfl
  | cons statement statements ih => rw [Statement.relabelAll, ih, List.map_cons]

theorem Relation.relabel_self (r : Relation) : r.relabel (.ofPlaces id) = r := by
  rw [Relation.relabel, Expression.relabel_self, Expression.relabel_self]

theorem Call.relabel_self (call : Call) : call.relabel (.ofPlaces id) = call := by
  have harguments : call.arguments.map (Expression.relabel (.ofPlaces id)) = call.arguments := by
    rw [funext Expression.relabel_self, List.map_id']
  rw [Call.relabel, harguments]
  rfl

mutual

/-- Statements stay as they are. -/
theorem Statement.relabel_self : (statement : Statement) →
    statement.relabel (.ofPlaces id) = statement
  | .conditional condition body otherwise => by
    rw [Statement.relabel, Relation.relabel_self, Statement.relabelAll_self body,
      Statement.relabelAll_self otherwise]
  | .loop condition body => by
    rw [Statement.relabel, Relation.relabel_self, Statement.relabelAll_self body]
  | .input name => rfl
  | .output value => by rw [Statement.relabel, Expression.relabel_self]
  | .result value => by rw [Statement.relabel, Expression.relabel_self]
  | .assign target value => by
    rw [Statement.relabel, Variable.relabel_self, Expression.relabel_self]
  | .call called => by
    rw [Statement.relabel, Located.relabel, Call.relabel_self]
    rfl
  | .hole => rfl

theorem Statement.relabelAll_self : (statements : List Statement) →
    Statement.relabelAll (.ofPlaces id) statements = statements
  | [] => rfl
  | statement :: statements => by
    rw [Statement.relabelAll, Statement.relabel_self statement,
      Statement.relabelAll_self statements]

end

/-! ## Declarations -/

/-- An alias with other labels. -/
def Alias.relabel (ρ : Relabeling) (declaration : Alias) : Alias :=
  ⟨ρ.name declaration.name, declaration.base.relabel ρ (TypeExpr.relabel ρ)⟩

/-- Parameters with other labels. -/
def Parameter.relabel (ρ : Relabeling) (param : Parameter) : Parameter :=
  ⟨param.byReference, param.group.relabel ρ⟩

mutual

/-- A procedure with other labels. -/
def Procedure.relabel (ρ : Relabeling) : Procedure → Procedure
  | ⟨name, params, types, vars, procedures, body⟩ =>
    ⟨ρ.name name, params.map (Located.relabel ρ (Parameter.relabel ρ)),
      types.map (Located.relabel ρ (Alias.relabel ρ)),
      vars.map (Located.relabel ρ (Group.relabel ρ)), Procedure.relabelAll ρ procedures,
      Statement.relabelAll ρ body⟩

/-- Procedures with other labels. -/
def Procedure.relabelAll (ρ : Relabeling) : List (Located Procedure) → List (Located Procedure)
  | [] => []
  | ⟨p, procedure⟩ :: procedures =>
    ⟨ρ.place p, procedure.relabel ρ⟩ :: Procedure.relabelAll ρ procedures

end

/-- Rows of procedures are relabeled procedure by procedure. -/
theorem Procedure.relabelAll_eq_map (ρ : Relabeling) (procedures : List (Located Procedure)) :
    Procedure.relabelAll ρ procedures =
      procedures.map (Located.relabel ρ (Procedure.relabel ρ)) := by
  induction procedures with
  | nil => rfl
  | cons procedure procedures ih =>
    rw [Procedure.relabelAll, ih]
    rfl

/-- Declarations with other labels. -/
def Declarations.relabel (ρ : Relabeling) (d : Declarations) : Declarations :=
  ⟨d.types.map (Located.relabel ρ (Alias.relabel ρ)),
    d.vars.map (Located.relabel ρ (Group.relabel ρ)), Procedure.relabelAll ρ d.procedures⟩

/-- A program with other labels. -/
def Program.relabel (ρ : Relabeling) (p : Program) : Program :=
  ⟨ρ.name p.name, p.declarations.relabel ρ, Statement.relabelAll ρ p.body⟩

theorem Alias.relabel_self (declaration : Alias) :
    declaration.relabel (.ofPlaces id) = declaration := by
  rw [Alias.relabel, Located.relabel, TypeExpr.relabel_self]
  rfl

theorem Parameter.relabel_self (param : Parameter) : param.relabel (.ofPlaces id) = param := by
  rw [Parameter.relabel, Group.relabel_self]

mutual

/-- Procedures stay as they are, and those inside them. -/
theorem Procedure.relabel_self : (p : Procedure) → p.relabel (.ofPlaces id) = p
  | ⟨name, params, types, vars, procedures, body⟩ => by
    rw [Procedure.relabel, Located.map_relabel_self Parameter.relabel_self,
      Located.map_relabel_self Alias.relabel_self, Located.map_relabel_self Group.relabel_self,
      Procedure.relabelAll_self procedures, Statement.relabelAll_self]
    rfl

theorem Procedure.relabelAll_self : (procedures : List (Located Procedure)) →
    Procedure.relabelAll (.ofPlaces id) procedures = procedures
  | [] => rfl
  | ⟨p, procedure⟩ :: procedures => by
    rw [Procedure.relabelAll, Procedure.relabel_self procedure,
      Procedure.relabelAll_self procedures]
    rfl

end

/-- The declarations of a level stay as they are. -/
theorem Declarations.relabel_self (d : Declarations) : d.relabel (.ofPlaces id) = d := by
  rw [Declarations.relabel, Located.map_relabel_self Alias.relabel_self,
    Located.map_relabel_self Group.relabel_self, Procedure.relabelAll_self]

end SnlFront
