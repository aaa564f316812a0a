import Mathlib.Data.List.Basic
import SnlFront.Proofs.Grammar.Derivation

/-!
# Trees over a row of tokens

A tree is anchored in a row of tokens if every place in it that a message may point at is that of a
token of the row, and every name in it stands at a token that is an identifier with this name. A
tree with a hole is anchored nowhere. The trees that the grammar derives are anchored in the tokens
they are derived from: each production designates a token of its own, or takes the position over
from a part.

## Main definitions

* `Tokens.HasName`, `Tokens.HasPlace`: a row of tokens has an identifier, or any token, at a
  position.
* `TypeExpr.Anchored`, `Expression.Anchored`, `Statement.Anchored`, `Procedure.Anchored`,
  `Program.Anchored`.

## Main statements

* `Parsing.DerivesProgram.anchored`: derived programs are anchored.
-/

namespace SnlFront

open Parsing

namespace Parsing.Tokens

/-- A row of tokens has the identifier of a name at its position. -/
def HasName (ts : Tokens) (name : Located String) : Prop := name.map Token.ident ∈ ts

/-- A row of tokens has a token at a position. -/
def HasPlace (ts : Tokens) (p : Position) : Prop := ∃ t ∈ ts, t.pos = p

/-- Where a name stands, a token stands. -/
theorem HasName.hasPlace {ts : Tokens} {name : Located String} (h : ts.HasName name) :
    ts.HasPlace name.pos := ⟨_, h, rfl⟩

end Parsing.Tokens

/-! ## Trees -/

mutual

/-- A type expression at a position is anchored. -/
def TypeExpr.Anchored (ts : Tokens) (p : Position) : TypeExpr → Prop
  | .integer => True
  | .char => True
  | .array _ _ _ => ts.HasPlace p
  | .record fields => Group.AllAnchored ts fields
  | .named name => ts.HasName ⟨p, name⟩
  | .hole => False

/-- The types and the names of fields are anchored. -/
def Group.AllAnchored (ts : Tokens) : List Group → Prop
  | [] => True
  | ⟨⟨p, type⟩, names⟩ :: groups =>
    (type.Anchored ts p ∧ ∀ name ∈ names, ts.HasName name) ∧ Group.AllAnchored ts groups

end

/-- A type and the names that share it are anchored. -/
structure Group.Anchored (ts : Tokens) (group : Group) : Prop where
  type : group.type.value.Anchored ts group.type.pos
  names : ∀ name ∈ group.names, ts.HasName name

/-- A record is anchored group by group. -/
theorem Group.allAnchored_iff (ts : Tokens) (groups : List Group) :
    Group.AllAnchored ts groups ↔ ∀ group ∈ groups, group.Anchored ts := by
  induction groups with
  | nil => simp [Group.AllAnchored]
  | cons group groups ih =>
    obtain ⟨⟨p, type⟩, names⟩ := group
    rw [Group.AllAnchored, ih, List.forall_mem_cons]
    exact and_congr_left fun _ => ⟨fun h => ⟨h.1, h.2⟩, fun h => ⟨h.1, h.2⟩⟩

mutual

/-- An expression is anchored. -/
def Expression.Anchored (ts : Tokens) : Expression → Prop
  | .last ⟨p, left⟩ _ => ts.HasPlace p ∧ left.Anchored ts
  | .chain ⟨p, left⟩ _ ⟨q, right⟩ =>
    (ts.HasPlace p ∧ left.Anchored ts) ∧ ts.HasPlace q ∧ right.Anchored ts

/-- A term is anchored. -/
def Term.Anchored (ts : Tokens) : Term → Prop
  | .last ⟨p, left⟩ _ => ts.HasPlace p ∧ left.Anchored ts
  | .chain ⟨p, left⟩ _ ⟨q, right⟩ =>
    (ts.HasPlace p ∧ left.Anchored ts) ∧ ts.HasPlace q ∧ right.Anchored ts

/-- A factor is anchored. -/
def Factor.Anchored (ts : Tokens) : Factor → Prop
  | .bracket inner => inner.Anchored ts
  | .constant _ => True
  | .variable v => v.Anchored ts
  | .hole => False

/-- The names and the index of a variable are anchored. -/
def Variable.Anchored (ts : Tokens) : Variable → Prop
  | .whole base => ts.HasName base
  | .part base field none => ts.HasName base ∧ ∀ name ∈ field, ts.HasName name
  | .part base field (some index) =>
    (ts.HasName base ∧ ∀ name ∈ field, ts.HasName name) ∧ index.Anchored ts

end

/-- The first operand of an expression stands at a token. -/
theorem Expression.Anchored.left {ts : Tokens} {e : Expression} (h : e.Anchored ts) :
    ts.HasPlace e.left.pos := by
  cases e with
  | last left sign => exact h.1
  | chain left sign right => exact h.1.1

/-- The base of a variable is an identifier of the row. -/
theorem Variable.Anchored.base {ts : Tokens} {v : Variable} (h : v.Anchored ts) :
    ts.HasName v.base := by
  cases v with
  | whole base => exact h
  | part base field index =>
    cases index with
    | none => exact h.1
    | some index => exact h.1.1

/-- Both sides of a comparison are anchored. -/
structure Relation.Anchored (ts : Tokens) (r : Relation) : Prop where
  left : r.left.Anchored ts
  right : r.right.Anchored ts

/-- The name and the arguments of a call are anchored. -/
structure Call.Anchored (ts : Tokens) (call : Located Call) : Prop where
  name : ts.HasName (call.map Call.name)
  arguments : ∀ argument ∈ call.value.arguments, argument.Anchored ts

mutual

/-- A statement is anchored. -/
def Statement.Anchored (ts : Tokens) : Statement → Prop
  | .conditional condition body otherwise =>
    condition.Anchored ts ∧ Statement.AllAnchored ts body ∧ Statement.AllAnchored ts otherwise
  | .loop condition body => condition.Anchored ts ∧ Statement.AllAnchored ts body
  | .input name => ts.HasName name
  | .output value => value.Anchored ts
  | .result value => value.Anchored ts
  | .assign target value => target.Anchored ts ∧ value.Anchored ts
  | .call called => Call.Anchored ts called
  | .hole => False

/-- All statements of a list are anchored. -/
def Statement.AllAnchored (ts : Tokens) : List Statement → Prop
  | [] => True
  | statement :: statements => statement.Anchored ts ∧ Statement.AllAnchored ts statements

end

/-- A row of statements is anchored statement by statement. -/
theorem Statement.allAnchored_iff (ts : Tokens) (statements : List Statement) :
    Statement.AllAnchored ts statements ↔ ∀ statement ∈ statements, statement.Anchored ts := by
  induction statements with
  | nil => simp [Statement.AllAnchored]
  | cons statement statements ih => rw [Statement.AllAnchored, ih, List.forall_mem_cons]

/-- The name and the type of an alias are anchored. -/
structure Alias.Anchored (ts : Tokens) (declaration : Located Alias) : Prop where
  name : ts.HasName (declaration.map Alias.name)
  base : declaration.value.base.value.Anchored ts declaration.value.base.pos

mutual

/-- A procedure whose name stands at a position is anchored. -/
def Procedure.Anchored (ts : Tokens) (p : Position) : Procedure → Prop
  | ⟨name, params, types, vars, procedures, body⟩ =>
    ts.HasName ⟨p, name⟩ ∧ (∀ param ∈ params, param.value.group.Anchored ts) ∧
      (∀ declaration ∈ types, Alias.Anchored ts declaration) ∧
      (∀ group ∈ vars, group.value.Anchored ts) ∧ Procedure.AllAnchored ts procedures ∧
      Statement.AllAnchored ts body

/-- All procedures of a list are anchored. -/
def Procedure.AllAnchored (ts : Tokens) : List (Located Procedure) → Prop
  | [] => True
  | ⟨p, procedure⟩ :: procedures =>
    procedure.Anchored ts p ∧ Procedure.AllAnchored ts procedures

end

/-- Procedures are anchored one by one, each at its own place. -/
theorem Procedure.allAnchored_iff (ts : Tokens) (procedures : List (Located Procedure)) :
    Procedure.AllAnchored ts procedures ↔
      ∀ procedure ∈ procedures, procedure.value.Anchored ts procedure.pos := by
  induction procedures with
  | nil => simp [Procedure.AllAnchored]
  | cons procedure procedures ih => rw [Procedure.AllAnchored, ih, List.forall_mem_cons]

/-- The declarations of a level are anchored. -/
structure Declarations.Anchored (ts : Tokens) (d : Declarations) : Prop where
  types : ∀ declaration ∈ d.types, Alias.Anchored ts declaration
  vars : ∀ group ∈ d.vars, group.value.Anchored ts
  procedures : Procedure.AllAnchored ts d.procedures

/-- The declarations and the body of a program are anchored. -/
structure Program.Anchored (ts : Tokens) (p : Program) : Prop where
  declarations : p.declarations.Anchored ts
  body : Statement.AllAnchored ts p.body

/-! ## Derived trees -/

namespace Parsing

variable {ts : Tokens}

/-- A list that grows at its end. -/
theorem forall_mem_snoc {α : Type} {P : α → Prop} {xs : List α} {x : α} (hxs : ∀ y ∈ xs, P y)
    (hx : P x) : ∀ y ∈ xs ++ [x], P y := by
  simpa [or_imp, forall_and] using ⟨hxs, hx⟩

theorem DerivesNames.anchored {us : Tokens} {names : List (Located String)}
    (h : DerivesNames us names) (hus : us ⊆ ts) : ∀ name ∈ names, ts.HasName name := by
  induction h with
  | one p name => simpa [Tokens.HasName, Located.map] using hus
  | more p q name hnames ih =>
    rw [List.append_subset] at hus
    refine forall_mem_snoc (ih hus.1) (hus.2 ?_)
    simp [Located.map]

mutual

/-- Every name in a derived type is an identifier of the row. The type may be derived from a part of
the row only. -/
theorem DerivesType.anchored {us : Tokens} {type : Located TypeExpr} : DerivesType us type →
    us ⊆ ts → type.value.Anchored ts type.pos
  | .integer p, _ => trivial
  | .char p, _ => trivial
  | .named p name, hus => hus List.mem_cons_self
  | .array p _ _ _ _ _ _ lower upper hbase, hus => ⟨_, hus List.mem_cons_self, rfl⟩
  | .record p q hfields, hus => by
    rw [List.append_subset, List.append_subset] at hus
    exact (Group.allAnchored_iff ts _).2 (DerivesFields.anchored hfields hus.1.2)

/-- So it is with a group of names and its type. -/
theorem DerivesGroup.anchored {us : Tokens} {group : Located Group} : DerivesGroup us group →
    us ⊆ ts → group.value.Anchored ts
  | .intro htype hnames, hus => by
    rw [List.append_subset] at hus
    exact ⟨DerivesType.anchored htype hus.1, hnames.anchored hus.2⟩

theorem DerivesFields.anchored {us : Tokens} {fields : List Group} : DerivesFields us fields →
    us ⊆ ts → ∀ group ∈ fields, group.Anchored ts
  | .one p hgroup, hus => by
    rw [List.append_subset] at hus
    exact List.forall_mem_singleton.2 (DerivesGroup.anchored hgroup hus.1)
  | .more p hfields hgroup, hus => by
    rw [List.append_subset, List.append_subset] at hus
    exact forall_mem_snoc (DerivesFields.anchored hfields hus.1.1)
      (DerivesGroup.anchored hgroup hus.1.2)

end

mutual

/-- Derived expressions are anchored. The four kinds of operands are taken together, since each may
hold the others. -/
theorem DerivesExpression.anchored {us : Tokens} {e : Expression} : DerivesExpression us e →
    us ⊆ ts → e.Anchored ts
  | .last hterm, hus => DerivesTerm.anchored hterm hus
  | .plus p hterm hright, hus | .minus p hterm hright, hus => by
    rw [List.append_subset, List.append_subset] at hus
    have hrest := DerivesExpression.anchored hright hus.2
    exact ⟨DerivesTerm.anchored hterm hus.1.1, hrest.left, hrest⟩

/-- A term also has a place, which reports about a longer chain point at. -/
theorem DerivesTerm.anchored {us : Tokens} {term : Located Term} : DerivesTerm us term → us ⊆ ts →
    ts.HasPlace term.pos ∧ term.value.Anchored ts
  | .last hfactor, hus => by
    have hfirst := DerivesFactor.anchored hfactor hus
    exact ⟨hfirst.1, hfirst⟩
  | .times p hfactor hright, hus | .over p hfactor hright, hus => by
    rw [List.append_subset, List.append_subset] at hus
    have hfirst := DerivesFactor.anchored hfactor hus.1.1
    exact ⟨hfirst.1, hfirst, DerivesTerm.anchored hright hus.2⟩

theorem DerivesFactor.anchored {us : Tokens} {factor : Located Factor} : DerivesFactor us factor →
    us ⊆ ts → ts.HasPlace factor.pos ∧ factor.value.Anchored ts
  | .bracket p q hinner, hus => by
    rw [List.append_subset, List.append_subset] at hus
    exact ⟨⟨_, hus.1.1 List.mem_cons_self, rfl⟩, DerivesExpression.anchored hinner hus.1.2⟩
  | .constant p value, hus => ⟨⟨_, hus List.mem_cons_self, rfl⟩, trivial⟩
  | .variable hv, hus => by
    -- A variable has no position of its own: the factor stands at the name.
    have hanchored := DerivesVariable.anchored hv hus
    exact ⟨hanchored.base.hasPlace, hanchored⟩

theorem DerivesVariable.anchored {us : Tokens} {v : Variable} : DerivesVariable us v → us ⊆ ts →
    v.Anchored ts
  | .whole p name, hus => hus List.mem_cons_self
  | .field p p₁ q name part, hus => by
    simp only [List.cons_subset] at hus
    exact ⟨hus.1, by simpa [Tokens.HasName, Located.map] using hus.2.2.1⟩
  | .element p p₁ p₂ name hindex, hus => by
    simp only [List.append_subset, List.cons_subset] at hus
    exact ⟨⟨hus.1.1.1, by simp⟩, DerivesExpression.anchored hindex hus.1.2⟩
  | .fieldElement p p₁ q p₂ p₃ name part hindex, hus => by
    simp only [List.append_subset, List.cons_subset] at hus
    exact ⟨⟨hus.1.1.1, by simpa [Tokens.HasName, Located.map] using hus.1.1.2.2.1⟩,
      DerivesExpression.anchored hindex hus.1.2⟩

end

theorem DerivesRelation.anchored {us : Tokens} {r : Relation} (h : DerivesRelation us r)
    (hus : us ⊆ ts) : r.Anchored ts := by
  cases h with
  | less p hleft hright | equal p hleft hright =>
    rw [List.append_subset, List.append_subset] at hus
    exact ⟨hleft.anchored hus.1.1, hright.anchored hus.2⟩

theorem DerivesArguments.anchored {us : Tokens} {arguments : List Expression}
    (h : DerivesArguments us arguments) (hus : us ⊆ ts) :
    ∀ argument ∈ arguments, argument.Anchored ts := by
  induction h with
  | one hargument => exact List.forall_mem_singleton.2 (hargument.anchored hus)
  | more p harguments hargument ih =>
    rw [List.append_subset, List.append_subset] at hus
    exact forall_mem_snoc (ih hus.1.1) (hargument.anchored hus.2)

mutual

/-- Derived statements are anchored, and so are the rows inside branches and loops. -/
theorem DerivesStatement.anchored {us : Tokens} {statement : Statement} :
    DerivesStatement us statement → us ⊆ ts → statement.Anchored ts
  | .conditional _ _ _ _ hcondition hbody hotherwise, hus => by
    simp only [List.append_subset] at hus
    exact ⟨hcondition.anchored hus.1.1.1.1.1.2, DerivesStatementList.anchored hbody hus.1.1.1.2,
      DerivesStatementList.anchored hotherwise hus.1.2⟩
  | .oneSided _ _ _ hcondition hbody, hus => by
    simp only [List.append_subset] at hus
    exact ⟨hcondition.anchored hus.1.1.1.2, DerivesStatementList.anchored hbody hus.1.2, trivial⟩
  | .loop _ _ _ hcondition hbody, hus => by
    simp only [List.append_subset] at hus
    exact ⟨hcondition.anchored hus.1.1.1.2, DerivesStatementList.anchored hbody hus.1.2⟩
  | .input _ _ q _ name, hus => by
    simp only [List.cons_subset] at hus
    exact hus.2.2.1
  | .output _ _ _ hvalue, hus | .result _ _ _ hvalue, hus => by
    simp only [List.append_subset] at hus
    exact hvalue.anchored hus.1.2
  | .assign _ htarget hvalue, hus => by
    simp only [List.append_subset] at hus
    exact ⟨htarget.anchored hus.1.1, hvalue.anchored hus.2⟩
  | .callPlain p _ _ name, hus => ⟨hus List.mem_cons_self, by simp⟩
  | .callWith p _ _ name harguments, hus => by
    simp only [List.append_subset] at hus
    exact ⟨hus.1.1 List.mem_cons_self, harguments.anchored hus.1.2⟩

theorem DerivesStatements.anchored {us : Tokens} {statements : List Statement} :
    DerivesStatements us statements → us ⊆ ts → ∀ statement ∈ statements, statement.Anchored ts
  | .one hstatement, hus => List.forall_mem_singleton.2 (DerivesStatement.anchored hstatement hus)
  | .more _ hstatements hstatement, hus => by
    simp only [List.append_subset] at hus
    exact forall_mem_snoc (DerivesStatements.anchored hstatements hus.1.1)
      (DerivesStatement.anchored hstatement hus.2)

theorem DerivesStatementList.anchored {us : Tokens} {statements : List Statement} :
    DerivesStatementList us statements → us ⊆ ts → Statement.AllAnchored ts statements
  | .none, _ => trivial
  | .plain hstatements, hus =>
    (Statement.allAnchored_iff ts _).2 (DerivesStatements.anchored hstatements hus)
  | .trailing _ hstatements, hus => by
    rw [List.append_subset] at hus
    exact (Statement.allAnchored_iff ts _).2 (DerivesStatements.anchored hstatements hus.1)

end

/-- An alias is anchored at its name, and what it stands for at the first token of that. -/
theorem DerivesAlias.anchored {us : Tokens} {declaration : Located Alias}
    (h : DerivesAlias us declaration) (hus : us ⊆ ts) : Alias.Anchored ts declaration := by
  cases h with
  | intro p p₁ p₂ name hbase =>
    simp only [List.append_subset] at hus
    exact ⟨hus.1.1 List.mem_cons_self, hbase.anchored hus.1.2⟩

theorem DerivesAliases.anchored {us : Tokens} {declarations : List (Located Alias)}
    (h : DerivesAliases us declarations) (hus : us ⊆ ts) :
    ∀ declaration ∈ declarations, Alias.Anchored ts declaration := by
  induction h with
  | one hdeclaration => exact List.forall_mem_singleton.2 (hdeclaration.anchored hus)
  | more hdeclarations hdeclaration ih =>
    rw [List.append_subset] at hus
    exact forall_mem_snoc (ih hus.1) (hdeclaration.anchored hus.2)

theorem DerivesTypePart.anchored {us : Tokens} {declarations : List (Located Alias)}
    (h : DerivesTypePart us declarations) (hus : us ⊆ ts) :
    ∀ declaration ∈ declarations, Alias.Anchored ts declaration := by
  cases h with
  | none => simp
  | some p hdeclarations =>
    rw [List.append_subset] at hus
    exact hdeclarations.anchored hus.2

/-- Variable groups are anchored one by one. -/
theorem DerivesVariables.anchored {us : Tokens} {groups : List (Located Group)}
    (h : DerivesVariables us groups) (hus : us ⊆ ts) :
    ∀ group ∈ groups, group.value.Anchored ts := by
  induction h with
  | one p hgroup =>
    rw [List.append_subset] at hus
    exact List.forall_mem_singleton.2 (hgroup.anchored hus.1)
  | more p hgroups hgroup ih =>
    rw [List.append_subset, List.append_subset] at hus
    exact forall_mem_snoc (ih hus.1.1) (hgroup.anchored hus.1.2)

theorem DerivesVarPart.anchored {us : Tokens} {groups : List (Located Group)}
    (h : DerivesVarPart us groups) (hus : us ⊆ ts) : ∀ group ∈ groups, group.value.Anchored ts := by
  cases h with
  | none => simp
  | some p hgroups =>
    rw [List.append_subset] at hus
    exact hgroups.anchored hus.2

/-- A parameter is a group of names, by value or by reference. -/
theorem DerivesParameter.anchored {us : Tokens} {param : Located Parameter}
    (h : DerivesParameter us param) (hus : us ⊆ ts) : param.value.group.Anchored ts := by
  cases h with
  | byValue hgroup => exact hgroup.anchored hus
  | byReference p hgroup =>
    rw [List.append_subset] at hus
    exact hgroup.anchored hus.2

theorem DerivesParameters.anchored {us : Tokens} {params : List (Located Parameter)}
    (h : DerivesParameters us params) (hus : us ⊆ ts) :
    ∀ param ∈ params, param.value.group.Anchored ts := by
  induction h with
  | one hparam => exact List.forall_mem_singleton.2 (hparam.anchored hus)
  | more p hparams hparam ih =>
    rw [List.append_subset, List.append_subset] at hus
    exact forall_mem_snoc (ih hus.1.1) (hparam.anchored hus.2)

theorem DerivesParameterList.anchored {us : Tokens} {params : List (Located Parameter)}
    (h : DerivesParameterList us params) (hus : us ⊆ ts) :
    ∀ param ∈ params, param.value.group.Anchored ts := by
  cases h with
  | none => simp
  | some hparams => exact hparams.anchored hus

mutual

/-- Derived procedures are anchored, with all that is declared inside them. -/
theorem DerivesProcedure.anchored {us : Tokens} {procedure : Located Procedure} :
    DerivesProcedure us procedure → us ⊆ ts → procedure.value.Anchored ts procedure.pos
  | .intro _ p _ _ _ _ _ name hparams hinside hbody _, hus => by
    simp only [List.append_subset, List.cons_subset] at hus
    obtain ⟨⟨⟨⟨⟨⟨⟨hhead, hus⟩, -⟩, hvs⟩, -⟩, hws⟩, -⟩, -⟩ := hus
    have hdeclared := DerivesDeclarations.anchored hinside hvs
    exact ⟨hhead.2.1, hparams.anchored hus, hdeclared.types, hdeclared.vars, hdeclared.procedures,
      hbody.anchored hws⟩

theorem DerivesProcedures.anchored {us : Tokens} {procedures : List (Located Procedure)} :
    DerivesProcedures us procedures → us ⊆ ts →
    ∀ procedure ∈ procedures, procedure.value.Anchored ts procedure.pos
  | .none, _ => by simp
  | .more hprocedures hprocedure, hus => by
    rw [List.append_subset] at hus
    exact forall_mem_snoc (DerivesProcedures.anchored hprocedures hus.1)
      (DerivesProcedure.anchored hprocedure hus.2)

/-- The three parts of a level come from three parts of the row. -/
theorem DerivesDeclarations.anchored {us : Tokens} {d : Declarations} :
    DerivesDeclarations us d → us ⊆ ts → d.Anchored ts
  | .intro htypes hvars hprocedures, hus => by
    rw [List.append_subset, List.append_subset] at hus
    exact ⟨htypes.anchored hus.1.1, hvars.anchored hus.1.2,
      (Procedure.allAnchored_iff ts _).2 (DerivesProcedures.anchored hprocedures hus.2)⟩

end

/-- A derived program is anchored in every row with the tokens that it is derived from. -/
theorem DerivesProgram.anchored {us : Tokens} {p : Located Program} (h : DerivesProgram us p)
    (hus : us ⊆ ts) : p.value.Anchored ts := by
  cases h with
  | intro p p₁ p₂ p₃ p₄ name hsemi hinside hbody =>
    simp only [List.append_subset] at hus
    obtain ⟨⟨⟨⟨-, hvs⟩, -⟩, hws⟩, -⟩ := hus
    exact ⟨hinside.anchored hvs, hbody.anchored hws⟩

end Parsing

end SnlFront
