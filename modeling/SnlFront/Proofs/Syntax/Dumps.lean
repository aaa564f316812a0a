import SnlFront.Proofs.Syntax.Rendering
import SnlFront.Proofs.Syntax.RoundTrip

/-!
# The dump of a tree loses nothing

Trees of every kind can be dumped, with or without envelopes around them. The dump tells the tree:
the text tells the data that are shown, the kind of the outermost node tells what kind of tree they
show, and data of that kind can be read back.

## Main definitions

* `Tree`: a tree of any kind, as it can be dumped.
* `Tree.dump`: its text.
* `Tree.Family`: the kinds of trees.

## Main statements

* `Tree.toDatum_inj`: the data of a tree tell the tree.
* `dump_eq_iff`: so does the dump.
-/

namespace SnlFront

/-- A tree of any kind, or a name, with its position; a tree may be put in an envelope. -/
inductive Tree
  | located (pos : Position) (tree : Tree)
  | ofName (name : Located String)
  | ofType (type : TypeExpr)
  | ofGroup (group : Group)
  | ofAlias (declaration : Alias)
  | ofParameter (param : Parameter)
  | ofDeclarations (declarations : Declarations)
  | ofProcedure (procedure : Procedure)
  | ofExpression (expression : Expression)
  | ofTerm (term : Term)
  | ofFactor (factor : Factor)
  /-- What is selected of a variable: a field, an element, both or neither. -/
  | ofSelection (field : Option (Located String)) (index : Option Expression)
  | ofVariable (v : Variable)
  | ofRelation (relation : Relation)
  | ofStatement (statement : Statement)
  | ofCall (call : Call)
  | ofProgram (program : Program)

namespace Tree

/-- The data of what is selected of a variable. -/
def selectionToDatum (field : Option (Located String)) (index : Option Expression) : Datum :=
  .node "VariableVisit"
    [("dot", .optional .ofName field), ("sqbr", .optional Expression.toDatum index)]

/-- The data of a tree. -/
def toDatum : Tree → Datum
  | .located pos tree => .located pos tree.toDatum
  | .ofName name => .ofName name
  | .ofType type => type.toDatum
  | .ofGroup group => group.toDatum
  | .ofAlias declaration => declaration.toDatum
  | .ofParameter param => param.toDatum
  | .ofDeclarations declarations => declarations.toDatum
  | .ofProcedure procedure => procedure.toDatum
  | .ofExpression expression => expression.toDatum
  | .ofTerm term => term.toDatum
  | .ofFactor factor => factor.toDatum
  | .ofSelection field index => selectionToDatum field index
  | .ofVariable v => v.toDatum
  | .ofRelation relation => relation.toDatum
  | .ofStatement statement => statement.toDatum
  | .ofCall call => call.toDatum
  | .ofProgram program => program.toDatum

/-- The text of a tree. -/
def dump (t : Tree) : String := t.toDatum.render

/-! ## Kinds of trees -/

/-- The kinds of trees. Names are in envelopes, as other trees may be. -/
inductive Family
  | envelope
  | type
  | group
  | declaration
  | parameter
  | declarations
  | procedure
  | expression
  | term
  | factor
  | selection
  | variable
  | relation
  | statement
  | call
  | program

/-- The kind of trees that a kind of node belongs to. -/
def Family.ofKind? : String → Option Family
  | "Positional" => some .envelope
  | "IntegerType" | "CharType" | "ArrayType" | "RecordType" | "NamedType" | "Type" => some .type
  | "TypedIdentifiers" => some .group
  | "TypeDeclare" => some .declaration
  | "Param" => some .parameter
  | "ProgramDeclare" => some .declarations
  | "ProcedureDeclare" => some .procedure
  | "Expression" => some .expression
  | "Term" => some .term
  | "BracketFactor" | "ConstantFactor" | "VariableFactor" | "Factor" => some .factor
  | "VariableVisit" => some .selection
  | "VariableRepresent" => some .variable
  | "RelationExpression" => some .relation
  | "ConditionalStatement" | "LoopStatement" | "InputStatement" | "OutputStatement"
  | "ReturnStatement" | "AssignStatement" | "CallStatement" | "Statement" => some .statement
  | "Call" => some .call
  | "Program" => some .program
  | _ => none

/-- The kind of a tree. -/
def family : Tree → Family
  | .located _ _ | .ofName _ => .envelope
  | .ofType _ => .type
  | .ofGroup _ => .group
  | .ofAlias _ => .declaration
  | .ofParameter _ => .parameter
  | .ofDeclarations _ => .declarations
  | .ofProcedure _ => .procedure
  | .ofExpression _ => .expression
  | .ofTerm _ => .term
  | .ofFactor _ => .factor
  | .ofSelection _ _ => .selection
  | .ofVariable _ => .variable
  | .ofRelation _ => .relation
  | .ofStatement _ => .statement
  | .ofCall _ => .call
  | .ofProgram _ => .program

/-- The kind of tree that data show, by their outermost node. -/
def Family.shown? : Datum → Option Family
  | .node kind _ => ofKind? kind
  | _ => none

theorem shown?_toDatum (t : Tree) : Family.shown? t.toDatum = some t.family := by
  cases t with
  | located pos tree => rfl
  | ofName name => rfl
  | ofType type => cases type <;> rfl
  | ofGroup group => cases group; rfl
  | ofAlias declaration => rfl
  | ofParameter param => rfl
  | ofDeclarations declarations => rfl
  | ofProcedure procedure => cases procedure; rfl
  | ofExpression expression => cases expression <;> rfl
  | ofTerm term => cases term <;> rfl
  | ofFactor factor => cases factor <;> rfl
  | ofSelection field index => rfl
  | ofVariable v =>
    cases v with
    | whole base => rfl
    | part base field index => cases index <;> rfl
  | ofRelation relation => rfl
  | ofStatement statement => cases statement <;> rfl
  | ofCall call => rfl
  | ofProgram program => rfl

/-! ## Trees and their data -/

/-- What can be read back from data is told by them. -/
theorem eq_of_readable {α : Type} {encode : α → Datum} {decode : Datum → Option α}
    (h : ∀ a, decode (encode a) = some a) {a b : α} (heq : encode a = encode b) : a = b := by
  have hsome : some a = some b := by rw [← h a, ← h b, heq]
  exact Option.some.inj hsome

/-- A selection is read back as that of a variable. -/
theorem selection_inj {field field' : Option (Located String)} {index index' : Option Expression}
    (h : selectionToDatum field index = selectionToDatum field' index') :
    field = field' ∧ index = index' := by
  let base : Located String := ⟨.origin, ""⟩
  have hpart : ∀ (f : Option (Located String)) (i : Option Expression),
      (Variable.part base f i).toDatum =
        .node "VariableRepresent" [("base", .ofName base), ("visit", selectionToDatum f i)] := by
    intro f i
    cases i <;> rfl
  have hsame : Variable.part base field index = Variable.part base field' index' :=
    eq_of_readable Variable.ofDatum?_toDatum (by rw [hpart, hpart, h])
  injection hsame with _ hfield hindex
  exact ⟨hfield, hindex⟩

theorem located_inj {p q : Position} {d e : Datum} (h : Datum.located p d = .located q e) :
    p = q ∧ d = e := by
  obtain ⟨line, column⟩ := p
  obtain ⟨line', column'⟩ := q
  simp only [Datum.located, Datum.node.injEq, List.cons.injEq, Prod.mk.injEq, Datum.int.injEq,
    true_and, and_true] at h
  obtain ⟨rfl, rfl, rfl⟩ := h
  exact ⟨rfl, rfl⟩

theorem family_eq_of_toDatum {t u : Tree} (h : t.toDatum = u.toDatum) : t.family = u.family := by
  have hsome : some t.family = some u.family := by rw [← shown?_toDatum, ← shown?_toDatum, h]
  exact Option.some.inj hsome

theorem toDatum_ne_text (t : Tree) (s : String) : t.toDatum ≠ .text s := by
  intro h
  have hshown := t.shown?_toDatum
  rw [h] at hshown
  cases hshown

/-- The data of a tree tell the tree. -/
theorem toDatum_inj {t u : Tree} (h : t.toDatum = u.toDatum) : t = u := by
  induction t generalizing u with
  | located pos tree ih =>
    cases u <;> cases family_eq_of_toDatum h
    · obtain ⟨rfl, hinner⟩ := located_inj h
      rw [ih hinner]
    · exact absurd (located_inj h).2 (tree.toDatum_ne_text _)
  | ofName name =>
    cases u <;> cases family_eq_of_toDatum h
    · next pos tree => exact absurd (located_inj h).2.symm (tree.toDatum_ne_text _)
    · exact congrArg ofName (eq_of_readable Datum.toName?_ofName h)
  | ofType type =>
    cases u <;> cases family_eq_of_toDatum h
    exact congrArg ofType (eq_of_readable TypeExpr.ofDatum?_toDatum h)
  | ofGroup group =>
    cases u <;> cases family_eq_of_toDatum h
    exact congrArg ofGroup (eq_of_readable Group.ofDatum?_toDatum h)
  | ofAlias declaration =>
    cases u <;> cases family_eq_of_toDatum h
    exact congrArg ofAlias (eq_of_readable Alias.ofDatum?_toDatum h)
  | ofParameter param =>
    cases u <;> cases family_eq_of_toDatum h
    exact congrArg ofParameter (eq_of_readable Parameter.ofDatum?_toDatum h)
  | ofDeclarations declarations =>
    cases u <;> cases family_eq_of_toDatum h
    exact congrArg ofDeclarations (eq_of_readable Declarations.ofDatum?_toDatum h)
  | ofProcedure procedure =>
    cases u <;> cases family_eq_of_toDatum h
    exact congrArg ofProcedure (eq_of_readable Procedure.ofDatum?_toDatum h)
  | ofExpression expression =>
    cases u <;> cases family_eq_of_toDatum h
    exact congrArg ofExpression (eq_of_readable Expression.ofDatum?_toDatum h)
  | ofTerm term =>
    cases u <;> cases family_eq_of_toDatum h
    exact congrArg ofTerm (eq_of_readable Term.ofDatum?_toDatum h)
  | ofFactor factor =>
    cases u <;> cases family_eq_of_toDatum h
    exact congrArg ofFactor (eq_of_readable Factor.ofDatum?_toDatum h)
  | ofSelection field index =>
    cases u <;> cases family_eq_of_toDatum h
    obtain ⟨rfl, rfl⟩ := selection_inj h
    rfl
  | ofVariable v =>
    cases u <;> cases family_eq_of_toDatum h
    exact congrArg ofVariable (eq_of_readable Variable.ofDatum?_toDatum h)
  | ofRelation relation =>
    cases u <;> cases family_eq_of_toDatum h
    exact congrArg ofRelation (eq_of_readable Relation.ofDatum?_toDatum h)
  | ofStatement statement =>
    cases u <;> cases family_eq_of_toDatum h
    exact congrArg ofStatement (eq_of_readable Statement.ofDatum?_toDatum h)
  | ofCall call =>
    cases u <;> cases family_eq_of_toDatum h
    exact congrArg ofCall (eq_of_readable Call.ofDatum?_toDatum h)
  | ofProgram program =>
    cases u <;> cases family_eq_of_toDatum h
    exact congrArg ofProgram (eq_of_readable Program.ofDatum?_toDatum h)

end Tree

/-- The dump of a tree tells the tree, whatever trees are compared. In particular this holds of
programs with their positions, the form in which the compiler shows them. -/
theorem dump_eq_iff :
    (∀ t u : Tree, t.dump = u.dump ↔ t = u) ∧
    ∀ p q : Located Program,
      (Program.locatedToDatum p).render = (Program.locatedToDatum q).render ↔ p = q := by
  have htrees : ∀ t u : Tree, t.dump = u.dump ↔ t = u := fun t u =>
    ⟨fun h => Tree.toDatum_inj (Datum.render_inj h), fun h => h ▸ rfl⟩
  refine ⟨htrees, fun p q => ?_⟩
  have hprograms :=
    htrees (.located p.pos (.ofProgram p.value)) (.located q.pos (.ofProgram q.value))
  refine hprograms.trans ⟨fun h => ?_, fun h => h ▸ rfl⟩
  injection h with hpos hvalue
  injection hvalue with hvalue
  obtain ⟨pos, value⟩ := p
  obtain ⟨pos', value'⟩ := q
  subst hpos hvalue
  rfl

end SnlFront
