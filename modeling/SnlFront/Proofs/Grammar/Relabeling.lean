import SnlFront.Proofs.Grammar.Reading
import SnlFront.Proofs.Syntax.Relabeling

/-!
# Reading relabeled tokens

Whether a token is accepted does not depend on where it stands, nor on the name if it is an
identifier. Positions and names are only put into the tree. So an unfinished program goes through
the same states if the tokens get other labels, and each state differs in its labels only. This also
holds where tokens are refused and reading starts over.

## Main definitions

* `Token.relabel`: a token with another name.
* `Parsing.Outline.relabel`, `Parsing.TypePlace.relabel`, `Parsing.StatementPlace.relabel`,
  `Parsing.OperandPlace.relabel`, `Parsing.State.relabel`: places and states with other labels.
* `Reading.relabel`: what comes of reading, with other labels.

## Main statements

* `Parsing.State.push_relabel`: one token.
* `readTokens_relabel`: a row of tokens.
-/

namespace SnlFront

/-- A token with another name. -/
def Token.relabel (ρ : Relabeling) : Token → Token
  | .ident name => .ident (ρ.name name)
  | .number value => .number value
  | .keyword word => .keyword word
  | .mark sign => .mark sign

/-- A token at another position with another name. -/
abbrev Token.relabelAt (ρ : Relabeling) : Located Token → Located Token :=
  Located.relabel ρ (Token.relabel ρ)

namespace Parsing

variable (ρ : Relabeling)

/-! ## Places with other labels -/

mutual

/-- The program or procedure that is being read, with other labels. -/
def Head.relabel : Head → Head
  | .program start name => .program (ρ.place start) (ρ.name name)
  | .procedure name params outer =>
    .procedure (name.relabel ρ ρ.name) (params.map (Located.relabel ρ (Parameter.relabel ρ)))
      outer.relabel

/-- A program or procedure with the declarations read so far, with other labels. -/
def Outline.relabel : Outline → Outline
  | ⟨head, types, vars, procedures⟩ =>
    ⟨head.relabel, types.map (Located.relabel ρ (Alias.relabel ρ)),
      vars.map (Located.relabel ρ (Group.relabel ρ)),
      procedures.map (Located.relabel ρ (Procedure.relabel ρ))⟩

end

mutual

/-- Where a type goes, with other labels. -/
def TypePlace.relabel : TypePlace → TypePlace
  | .alias name outline => .alias (name.relabel ρ ρ.name) (outline.relabel ρ)
  | .group place => .group place.relabel

/-- Where names with a common type go, with other labels. -/
def GroupPlace.relabel : GroupPlace → GroupPlace
  | .vars outline => .vars (outline.relabel ρ)
  | .fields start before place =>
    .fields (ρ.place start) (before.map (Group.relabel ρ)) place.relabel
  | .params reference before procedure outer =>
    .params (reference.map ρ.place) (before.map (Located.relabel ρ (Parameter.relabel ρ)))
      (procedure.relabel ρ ρ.name) (outer.relabel ρ)

end

mutual

/-- Where a list of statements goes, with other labels. -/
def BlockPlace.relabel : BlockPlace → BlockPlace
  | .body outline => .body (outline.relabel ρ)
  | .thenBranch condition place => .thenBranch (condition.relabel ρ) place.relabel
  | .elseBranch condition body place =>
    .elseBranch (condition.relabel ρ) (body.map (Statement.relabel ρ)) place.relabel
  | .loopBody condition place => .loopBody (condition.relabel ρ) place.relabel

/-- Where a statement goes, with other labels. -/
def StatementPlace.relabel : StatementPlace → StatementPlace
  | ⟨before, block⟩ => ⟨before.map (Statement.relabel ρ), block.relabel⟩

end

mutual

/-- Where an expression goes, with other labels. -/
def ExpressionPlace.relabel : ExpressionPlace → ExpressionPlace
  | .bracket start place => .bracket (ρ.place start) place.relabel
  | .index base field place =>
    .index (base.relabel ρ ρ.name) (field.map (Located.relabel ρ ρ.name)) place.relabel
  | .relationLeft guarded place => .relationLeft guarded (place.relabel ρ)
  | .relationRight left sign guarded place =>
    .relationRight (left.relabel ρ) sign guarded (place.relabel ρ)
  | .emitted emission place => .emitted emission (place.relabel ρ)
  | .assigned target place => .assigned (target.relabel ρ) (place.relabel ρ)
  | .argument procedure before place =>
    .argument (procedure.relabel ρ ρ.name) (before.map (Expression.relabel ρ)) (place.relabel ρ)

/-- Where an operand goes, with other labels. -/
def OperandPlace.relabel : OperandPlace → OperandPlace
  | ⟨factors, terms, expression⟩ =>
    ⟨factors.map fun left => (left.1.relabel ρ (Factor.relabel ρ), left.2),
      terms.map fun left => (left.1.relabel ρ (Term.relabel ρ), left.2), expression.relabel⟩

/-- Where a variable goes, with other labels. -/
def VariablePlace.relabel : VariablePlace → VariablePlace
  | .operand place => .operand place.relabel
  | .target place => .target (place.relabel ρ)

end

/-- An unfinished program with other labels. -/
def State.relabel : State → State
  | .empty => .empty
  | .programWord start => .programWord (ρ.place start)
  | .declaring stage outline => .declaring stage (outline.relabel ρ)
  | .aliasName name outline => .aliasName (name.relabel ρ ρ.name) (outline.relabel ρ)
  | .aliasBase name type outline =>
    .aliasBase (name.relabel ρ ρ.name) (type.relabel ρ (TypeExpr.relabel ρ)) (outline.relabel ρ)
  | .typeDue place => .typeDue (place.relabel ρ)
  | .array start part place => .array (ρ.place start) part (place.relabel ρ)
  | .fields start before place =>
    .fields (ρ.place start) (before.map (Group.relabel ρ)) (place.relabel ρ)
  | .nameDue type before place =>
    .nameDue (type.relabel ρ (TypeExpr.relabel ρ)) (before.map (Located.relabel ρ ρ.name))
      (place.relabel ρ)
  | .names type before place =>
    .names (type.relabel ρ (TypeExpr.relabel ρ)) (before.map (Located.relabel ρ ρ.name))
      (place.relabel ρ)
  | .procedureWord outer => .procedureWord (outer.relabel ρ)
  | .procedureName name outer => .procedureName (name.relabel ρ ρ.name) (outer.relabel ρ)
  | .paramsOpened name outer => .paramsOpened (name.relabel ρ ρ.name) (outer.relabel ρ)
  | .paramDue before name outer =>
    .paramDue (before.map (Located.relabel ρ (Parameter.relabel ρ))) (name.relabel ρ ρ.name)
      (outer.relabel ρ)
  | .paramsClosed params name outer =>
    .paramsClosed (params.map (Located.relabel ρ (Parameter.relabel ρ))) (name.relabel ρ ρ.name)
      (outer.relabel ρ)
  | .statements place => .statements (place.relabel ρ)
  | .statementEnded place => .statementEnded (place.relabel ρ)
  | .inputWord place => .inputWord (place.relabel ρ)
  | .inputOpened place => .inputOpened (place.relabel ρ)
  | .inputName name place => .inputName (name.relabel ρ ρ.name) (place.relabel ρ)
  | .emissionWord emission place => .emissionWord emission (place.relabel ρ)
  | .callOpened procedure place => .callOpened (procedure.relabel ρ ρ.name) (place.relabel ρ)
  | .targetEnded target place => .targetEnded (target.relabel ρ) (place.relabel ρ)
  | .operandDue place => .operandDue (place.relabel ρ)
  | .operandEnded factor place =>
    .operandEnded (factor.relabel ρ (Factor.relabel ρ)) (place.relabel ρ)
  | .base start place => .base (start.relabel ρ ρ.name) (place.relabel ρ)
  | .fieldDue start place => .fieldDue (start.relabel ρ ρ.name) (place.relabel ρ)
  | .field start part place =>
    .field (start.relabel ρ ρ.name) (part.relabel ρ ρ.name) (place.relabel ρ)
  | .bodyEnded program => .bodyEnded (program.relabel ρ (Program.relabel ρ))
  | .complete program => .complete (program.relabel ρ (Program.relabel ρ))

/-! ## Finishing a node -/

/-- What is added to the outline of a level is relabeled when it is added, or with the outline. -/
theorem Outline.relabel_addType (o : Outline) (a : Located Alias) :
    (o.addType a).relabel ρ = (o.relabel ρ).addType (a.relabel ρ (Alias.relabel ρ)) := by
  obtain ⟨head, types, vars, procedures⟩ := o
  simp [addType, Outline.relabel]

theorem Outline.relabel_addVariables (o : Outline) (g : Located Group) :
    (o.addVariables g).relabel ρ = (o.relabel ρ).addVariables (g.relabel ρ (Group.relabel ρ)) := by
  obtain ⟨head, types, vars, procedures⟩ := o
  simp [addVariables, Outline.relabel]

theorem Outline.relabel_addProcedure (o : Outline) (p : Located Procedure) :
    (o.addProcedure p).relabel ρ =
      (o.relabel ρ).addProcedure (p.relabel ρ (Procedure.relabel ρ)) := by
  obtain ⟨head, types, vars, procedures⟩ := o
  simp [addProcedure, Outline.relabel]

/-- So it is with a statement that is added to its block. -/
theorem StatementPlace.relabel_add (place : StatementPlace) (s : Statement) :
    (place.add s).relabel ρ = (place.relabel ρ).add (s.relabel ρ) := by
  obtain ⟨before, block⟩ := place
  simp [add, StatementPlace.relabel]

/-- A type that is finished is put where it belongs, whatever its labels are. The same holds of
every node below. -/
theorem TypePlace.close_relabel (type : Located TypeExpr) (place : TypePlace) :
    (place.relabel ρ).close (type.relabel ρ (TypeExpr.relabel ρ)) =
      (place.close type).relabel ρ := by
  cases place with
  | «alias» name outline => rfl
  | group place => rfl

theorem parameter_relabel (reference : Option Position) (group : Group) :
    parameter (reference.map ρ.place) (group.relabel ρ) =
      (parameter reference group).relabel ρ (Parameter.relabel ρ) := by
  cases reference <;> rfl

/-- A group is finished by a mark, which has no label. -/
theorem GroupPlace.close_relabel (group : Group) (mark : Mark) (place : GroupPlace) :
    (place.relabel ρ).close (group.relabel ρ) mark =
      (place.close group mark).map (State.relabel ρ) := by
  cases place with
  | vars outline =>
    cases mark with
    | semi =>
      have hadd := outline.relabel_addVariables ρ ⟨group.type.pos, group⟩
      exact congrArg (fun outline => some (State.declaring .vars outline)) hadd.symm
    | _ => rfl
  | fields start before place =>
    cases mark with
    | semi => simp [GroupPlace.relabel, GroupPlace.close, State.relabel]
    | _ => rfl
  | params reference before procedure outer =>
    cases mark with
    | semi | rparen =>
      simp [GroupPlace.relabel, GroupPlace.close, State.relabel, parameter_relabel]
    | _ => rfl

theorem VariablePlace.close_relabel (v : Variable) (place : VariablePlace) :
    (place.relabel ρ).close (v.relabel ρ) = (place.close v).relabel ρ := by
  cases place with
  | operand place =>
    rw [VariablePlace.relabel, VariablePlace.close, Variable.base_relabel]
    rfl
  | target place => rfl

theorem Outline.close_relabel (body : List Statement) (o : Outline) :
    (o.relabel ρ).close (body.map (Statement.relabel ρ)) = (o.close body).relabel ρ := by
  obtain ⟨head, types, vars, procedures⟩ := o
  cases head with
  | program start name =>
    simp [Outline.relabel, Head.relabel, Outline.close, State.relabel, Outline.declarations,
      Located.relabel, Program.relabel, Declarations.relabel, Procedure.relabelAll_eq_map,
      Statement.relabelAll_eq_map]
  | procedure name params outer =>
    simp [Outline.relabel, Head.relabel, Outline.close, State.relabel,
      Outline.relabel_addProcedure, Located.relabel, Procedure.relabel,
      Procedure.relabelAll_eq_map, Statement.relabelAll_eq_map]

/-- The word that ends a block decides what it was, and words have no labels. -/
theorem BlockPlace.close_relabel (statements : List Statement) (word : Keyword)
    (place : BlockPlace) :
    (place.relabel ρ).close (statements.map (Statement.relabel ρ)) word =
      (place.close statements word).map (State.relabel ρ) := by
  cases place with
  | body outline =>
    cases word with
    | «end» => exact congrArg some (Outline.close_relabel ρ statements outline)
    | _ => rfl
  | thenBranch condition place =>
    cases word with
    | «else» => rfl
    | fi =>
      simp [BlockPlace.relabel, BlockPlace.close, State.relabel, StatementPlace.relabel_add,
        Statement.relabel, Statement.relabelAll_eq_map]
    | _ => rfl
  | elseBranch condition chosen place =>
    cases word with
    | fi =>
      simp [BlockPlace.relabel, BlockPlace.close, State.relabel, StatementPlace.relabel_add,
        Statement.relabel, Statement.relabelAll_eq_map]
    | _ => rfl
  | loopBody condition place =>
    cases word with
    | endwh =>
      simp [BlockPlace.relabel, BlockPlace.close, State.relabel, StatementPlace.relabel_add,
        Statement.relabel, Statement.relabelAll_eq_map]
    | _ => rfl

theorem Emission.statement_relabel (value : Expression) (emission : Emission) :
    emission.statement (value.relabel ρ) = (emission.statement value).relabel ρ := by
  cases emission <;> rfl

/-- The word behind a condition decides which block it guards. -/
theorem Guarded.open_relabel (condition : Relation) (place : StatementPlace) (word : Keyword)
    (guarded : Guarded) :
    guarded.open (condition.relabel ρ) (place.relabel ρ) word =
      (guarded.open condition place word).map (BlockPlace.relabel ρ) := by
  cases guarded with
  | conditional => cases word <;> rfl
  | loop => cases word <;> rfl

/-! ## What a token starts or ends -/

/-- Whether a token starts a type depends on neither its place nor its name. -/
theorem startType_relabel (place : TypePlace) (t : Located Token) :
    startType (place.relabel ρ) (Token.relabelAt ρ t) =
      (startType place t).map (State.relabel ρ) := by
  obtain ⟨p, token⟩ := t
  cases token with
  | ident name => exact congrArg some (TypePlace.close_relabel ρ ⟨p, .named name⟩ place)
  | keyword word =>
    cases word with
    | integer => exact congrArg some (TypePlace.close_relabel ρ ⟨p, .integer⟩ place)
    | char => exact congrArg some (TypePlace.close_relabel ρ ⟨p, .char⟩ place)
    | _ => rfl
  | number | mark => rfl

/-- The bounds of an array are values of tokens, which are not labels. -/
theorem continueArray_relabel (start : Position) (place : TypePlace) (part : ArrayPart)
    (t : Token) :
    continueArray (ρ.place start) (place.relabel ρ) part (t.relabel ρ) =
      (continueArray start place part t).map (State.relabel ρ) := by
  cases part with
  | element lower upper =>
    cases t with
    | keyword word =>
      cases word with
      | integer =>
        exact congrArg some (TypePlace.close_relabel ρ ⟨start, .array .integer lower upper⟩ place)
      | char =>
        exact congrArg some (TypePlace.close_relabel ρ ⟨start, .array .char lower upper⟩ place)
      | _ => rfl
    | ident | number | mark => rfl
  | closed lower upper =>
    cases t with
    | keyword word => cases word <;> rfl
    | ident | number | mark => rfl
  | word | lower | upper =>
    cases t with
    | mark sign => cases sign <;> rfl
    | ident | number | keyword => rfl
  | bracket | range => cases t <;> rfl

theorem startParameter_relabel (before : List (Located Parameter)) (name : Located String)
    (outer : Outline) (t : Located Token) :
    startParameter (before.map (Located.relabel ρ (Parameter.relabel ρ)))
        (name.relabel ρ ρ.name) (outer.relabel ρ) (Token.relabelAt ρ t) =
      (startParameter before name outer t).map (State.relabel ρ) := by
  have htype := startType_relabel ρ (.group (.params none before name outer)) t
  obtain ⟨p, token⟩ := t
  cases token with
  | keyword word =>
    cases word with
    | var => rfl
    | _ => exact htype
  | ident | number | mark => exact htype

theorem startProcedureOrBody_relabel (outline : Outline) (t : Token) :
    startProcedureOrBody (outline.relabel ρ) (t.relabel ρ) =
      (startProcedureOrBody outline t).map (State.relabel ρ) := by
  cases t with
  | keyword word => cases word <;> rfl
  | ident | number | mark => rfl

/-- Which part of a level comes first is told by a keyword. -/
theorem declareFirst_relabel (outline : Outline) (t : Located Token) :
    declare.declareFirst (outline.relabel ρ) (Token.relabelAt ρ t) =
      (declare.declareFirst outline t).map (State.relabel ρ) := by
  have hother := startProcedureOrBody_relabel ρ outline t.value
  obtain ⟨p, token⟩ := t
  cases token with
  | keyword word =>
    cases word with
    | type | var => rfl
    | _ => exact hother
  | ident | number | mark => exact hother

theorem declare_relabel (outline : Outline) (t : Located Token) (stage : Stage) :
    declare (outline.relabel ρ) (Token.relabelAt ρ t) stage =
      (declare outline t stage).map (State.relabel ρ) := by
  have hfirst := declareFirst_relabel ρ outline t
  have htype := startType_relabel ρ (.group (.vars outline)) t
  have hother := startProcedureOrBody_relabel ρ outline t.value
  cases stage with
  | opened => exact hfirst
  | varsOpened => exact htype
  | procedures => exact hother
  | vars =>
    rw [declare, declare, Option.map_or, ← htype, ← hother]
    rfl
  | named =>
    obtain ⟨p, token⟩ := t
    cases token with
    | mark sign =>
      cases sign with
      | semi => rfl
      | _ => exact hfirst
    | ident | number | keyword => exact hfirst
  | typesOpened =>
    obtain ⟨p, token⟩ := t
    cases token <;> rfl
  | types =>
    obtain ⟨p, token⟩ := t
    cases token with
    | ident name => rfl
    | keyword word =>
      cases word with
      | var => rfl
      | _ => exact hother
    | number | mark => exact hother
  | procedureEnded =>
    obtain ⟨p, token⟩ := t
    cases token with
    | mark sign =>
      cases sign with
      | semi => rfl
      | _ => exact hother
    | ident | number | keyword => exact hother

/-- A statement starts with a keyword, or with a name of any spelling. -/
theorem startStatement_relabel (place : StatementPlace) (t : Located Token) :
    startStatement (place.relabel ρ) (Token.relabelAt ρ t) =
      (startStatement place t).map (State.relabel ρ) := by
  obtain ⟨p, token⟩ := t
  cases token with
  | keyword word => cases word <;> rfl
  | ident | number | mark => rfl

theorem endStatements_relabel (place : StatementPlace) (t : Token) :
    endStatements (place.relabel ρ) (t.relabel ρ) =
      (endStatements place t).map (State.relabel ρ) := by
  obtain ⟨before, block⟩ := place
  cases t with
  | keyword word => exact BlockPlace.close_relabel ρ before word block
  | ident | number | mark => rfl

/-- What may follow a statement is told by marks and keywords. -/
theorem afterStatement_relabel (place : StatementPlace) (t : Token) :
    afterStatement (place.relabel ρ) (t.relabel ρ) =
      (afterStatement place t).map (State.relabel ρ) := by
  have hend := endStatements_relabel ρ place t
  cases t with
  | mark sign =>
    cases sign with
    | semi => rfl
    | _ => exact hend
  | ident | number | keyword => exact hend

/-- An operand starts with a bracket, a number, or a name of any spelling. -/
theorem startOperand_relabel (place : OperandPlace) (t : Located Token) :
    startOperand (place.relabel ρ) (Token.relabelAt ρ t) =
      (startOperand place t).map (State.relabel ρ) := by
  obtain ⟨p, token⟩ := t
  cases token with
  | mark sign => cases sign <;> rfl
  | ident | number | keyword => rfl

/-- The factors of a term are put together in the same way. -/
theorem OperandPlace.term_relabel (place : OperandPlace) (last : Located Factor) :
    (place.relabel ρ).term (last.relabel ρ (Factor.relabel ρ)) =
      (place.term last).relabel ρ (Term.relabel ρ) := by
  obtain ⟨factors, terms, expression⟩ := place
  rw [OperandPlace.relabel, OperandPlace.term, OperandPlace.term, List.foldl_map]
  refine @List.foldl_hom _ _ _ (Located.relabel ρ (Term.relabel ρ)) _ _ factors
    ⟨last.pos, .last last none⟩ ?_
  intro right left
  rfl

/-- A chain keeps its operands behind it; all of them are relabeled when it is closed. -/
theorem OperandPlace.whole_relabel (place : OperandPlace) (last : Located Factor) :
    (place.relabel ρ).whole (last.relabel ρ (Factor.relabel ρ)) =
      (place.whole last).relabel ρ := by
  have hterm := place.term_relabel ρ last
  obtain ⟨factors, terms, expression⟩ := place
  simp only [OperandPlace.whole, hterm]
  rw [OperandPlace.relabel, List.foldl_map]
  refine congrArg Located.value (@List.foldl_hom _ _ _ (Located.relabel ρ (Expression.relabel ρ))
    _ _ terms ⟨_, .last _ none⟩ ?_)
  intro right left
  rfl

theorem OperandPlace.relabel_addFactor (place : OperandPlace) (factor : Located Factor)
    (sign : Mark) :
    (place.addFactor factor sign).relabel ρ =
      (place.relabel ρ).addFactor (factor.relabel ρ (Factor.relabel ρ)) sign := by
  obtain ⟨factors, terms, expression⟩ := place
  rfl

theorem OperandPlace.relabel_addTerm (place : OperandPlace) (factor : Located Factor)
    (sign : Mark) :
    (place.addTerm factor sign).relabel ρ =
      (place.relabel ρ).addTerm (factor.relabel ρ (Factor.relabel ρ)) sign := by
  rw [OperandPlace.addTerm, OperandPlace.addTerm, OperandPlace.term_relabel]
  obtain ⟨factors, terms, expression⟩ := place
  rfl

/-- What an expression is needed for is remembered in its place. It is closed by one token of a
fixed kind. -/
theorem ExpressionPlace.close_relabel (e : Expression) (t : Token) (place : ExpressionPlace) :
    (place.relabel ρ).close (e.relabel ρ) (t.relabel ρ) =
      (place.close e t).map (State.relabel ρ) := by
  cases place with
  | bracket start place =>
    cases t with
    | mark sign => cases sign <;> rfl
    | ident | number | keyword => rfl
  | index base field place =>
    cases t with
    | mark sign =>
      cases sign with
      | rbracket => exact congrArg some (place.close_relabel ρ (.part base field (some e)))
      | _ => rfl
    | ident | number | keyword => rfl
  | relationLeft guarded place =>
    cases t with
    | mark sign => cases sign <;> rfl
    | ident | number | keyword => rfl
  | relationRight left sign guarded place =>
    cases t with
    | keyword word =>
      have hopen := guarded.open_relabel ρ ⟨left, some sign.text, e⟩ place word
      simp only [ExpressionPlace.close, Option.map_map]
      exact (congrArg (Option.map _) hopen).trans (Option.map_map _ _ _)
    | ident | number | mark => rfl
  | emitted emission place =>
    cases t with
    | mark sign =>
      cases sign with
      | rparen =>
        simp [ExpressionPlace.relabel, ExpressionPlace.close, Token.relabel, State.relabel,
          StatementPlace.relabel_add, Emission.statement_relabel]
      | _ => rfl
    | ident | number | keyword => rfl
  | assigned target place =>
    have hafter := afterStatement_relabel ρ (place.add (.assign target e)) t
    rw [StatementPlace.relabel_add] at hafter
    exact hafter
  | argument procedure before place =>
    cases t with
    | mark sign =>
      cases sign with
      | comma =>
        simp [ExpressionPlace.relabel, ExpressionPlace.close, Token.relabel, State.relabel,
          OperandPlace.first, OperandPlace.relabel]
      | rparen =>
        simp [ExpressionPlace.relabel, ExpressionPlace.close, Token.relabel, State.relabel,
          StatementPlace.relabel_add, Statement.relabel, Located.relabel, Call.relabel]
      | _ => rfl
    | ident | number | keyword => rfl

theorem afterOperand_relabel (factor : Located Factor) (place : OperandPlace) (t : Token) :
    afterOperand (factor.relabel ρ (Factor.relabel ρ)) (place.relabel ρ) (t.relabel ρ) =
      (afterOperand factor place t).map (State.relabel ρ) := by
  have hclose : (place.relabel ρ).expression.close
      ((place.relabel ρ).whole (factor.relabel ρ (Factor.relabel ρ))) (t.relabel ρ) =
        (place.expression.close (place.whole factor) t).map (State.relabel ρ) := by
    rw [OperandPlace.whole_relabel]
    obtain ⟨factors, terms, expression⟩ := place
    exact ExpressionPlace.close_relabel ρ _ t expression
  cases t with
  | mark sign =>
    cases sign with
    | times | «over» =>
      exact congrArg (fun place => some (State.operandDue place))
        (place.relabel_addFactor ρ factor _).symm
    | plus | minus =>
      exact congrArg (fun place => some (State.operandDue place))
        (place.relabel_addTerm ρ factor _).symm
    | _ => exact hclose
  | ident | number | keyword => exact hclose

/-- A variable may be an operand or the target of an assignment; what follows tells which is due. -/
theorem afterVariable_relabel (v : Variable) (place : VariablePlace) (t : Token) :
    afterVariable (v.relabel ρ) (place.relabel ρ) (t.relabel ρ) =
      (afterVariable v place t).map (State.relabel ρ) := by
  cases place with
  | operand place =>
    rw [VariablePlace.relabel, afterVariable, Variable.base_relabel]
    exact afterOperand_relabel ρ ⟨v.base.pos, .variable v⟩ place t
  | target place =>
    cases t with
    | mark sign => cases sign <;> rfl
    | ident | number | keyword => rfl

theorem afterBase_relabel (base : Located String) (place : VariablePlace) (t : Token) :
    afterBase (base.relabel ρ ρ.name) (place.relabel ρ) (t.relabel ρ) =
      (afterBase base place t).map (State.relabel ρ) := by
  have hafter := afterVariable_relabel ρ (.whole base) place t
  cases t with
  | mark sign =>
    cases sign with
    | dot | lbracket => rfl
    | lparen => cases place <;> rfl
    | _ => exact hafter
  | ident | number | keyword => exact hafter

theorem afterField_relabel (base field : Located String) (place : VariablePlace) (t : Token) :
    afterField (base.relabel ρ ρ.name) (field.relabel ρ ρ.name) (place.relabel ρ)
        (t.relabel ρ) =
      (afterField base field place t).map (State.relabel ρ) := by
  have hafter := afterVariable_relabel ρ (.part base (some field) none) place t
  cases t with
  | mark sign =>
    cases sign with
    | lbracket => rfl
    | _ => exact hafter
  | ident | number | keyword => exact hafter

/-! ## Unfinished programs -/

/-- A token with other labels takes the state with other labels to the next state with other labels,
and it is refused if the token was refused. -/
theorem State.push_relabel (t : Located Token) (s : State) :
    (s.relabel ρ).push (Token.relabelAt ρ t) = (s.push t).map (State.relabel ρ) := by
  obtain ⟨p, token⟩ := t
  -- First the states that leave the token to a part of the reader, then those that look at it.
  cases s with
  | declaring stage outline => exact declare_relabel ρ outline ⟨p, token⟩ stage
  | typeDue place => exact startType_relabel ρ place ⟨p, token⟩
  | array start part place => exact continueArray_relabel ρ start place part token
  | paramDue before name outer => exact startParameter_relabel ρ before name outer ⟨p, token⟩
  | statementEnded place => exact afterStatement_relabel ρ place token
  | targetEnded target place => exact afterVariable_relabel ρ target (.target place) token
  | operandDue place => exact startOperand_relabel ρ place ⟨p, token⟩
  | operandEnded factor place => exact afterOperand_relabel ρ factor place token
  | base start place => exact afterBase_relabel ρ start place token
  | field start part place => exact afterField_relabel ρ start part place token
  | statements place =>
    have hstart := startStatement_relabel ρ place ⟨p, token⟩
    have hend := endStatements_relabel ρ place token
    rw [State.push, Option.map_or, ← hstart, ← hend]
    rfl
  | empty =>
    cases token with
    | keyword word => cases word <;> rfl
    | ident | number | mark => rfl
  | aliasBase name type outline =>
    cases token with
    | mark sign =>
      cases sign with
      | semi =>
        have hadd := outline.relabel_addType ρ ⟨name.pos, name.value, type⟩
        exact congrArg (fun outline => some (State.declaring .types outline)) hadd.symm
      | _ => rfl
    | ident | number | keyword => rfl
  | fields start before place =>
    have htype := startType_relabel ρ (.group (.fields start before place)) ⟨p, token⟩
    cases token with
    | keyword word =>
      cases word with
      | «end» =>
        have hclose := place.close_relabel ρ ⟨start, .record before⟩
        rw [Located.relabel, TypeExpr.relabel, Group.relabelAll_eq_map] at hclose
        exact congrArg some hclose
      | _ => exact htype
    | ident | number | mark => exact htype
  | nameDue type before place =>
    cases token with
    | ident name =>
      simp [State.relabel, State.push, Token.relabelAt, Located.relabel, Token.relabel]
    | number | keyword | mark => rfl
  | names type before place =>
    cases token with
    | mark sign =>
      have hclose := place.close_relabel ρ ⟨type, before⟩ sign
      cases sign with
      | comma => rfl
      | _ => exact hclose
    | ident | number | keyword => rfl
  | paramsOpened name outer =>
    have hparameter := startParameter_relabel ρ [] name outer ⟨p, token⟩
    cases token with
    | mark sign =>
      cases sign with
      | rparen => rfl
      | _ => exact hparameter
    | ident | number | keyword => exact hparameter
  | inputName name place =>
    have hadd := place.relabel_add ρ (.input name)
    cases token with
    | mark sign =>
      cases sign with
      | rparen => exact congrArg (fun place => some (State.statementEnded place)) hadd.symm
      | _ => rfl
    | ident | number | keyword => rfl
  | callOpened procedure place =>
    have hadd := place.relabel_add ρ (.call ⟨procedure.pos, ⟨procedure.value, []⟩⟩)
    have hoperand := startOperand_relabel ρ (.first (.argument procedure [] place)) ⟨p, token⟩
    cases token with
    | mark sign =>
      cases sign with
      | rparen => exact congrArg (fun place => some (State.statementEnded place)) hadd.symm
      | _ => exact hoperand
    | ident | number | keyword => exact hoperand
  | programWord | procedureWord | inputOpened | fieldDue => cases token <;> rfl
  | aliasName | procedureName | paramsClosed | inputWord | emissionWord | bodyEnded =>
    cases token with
    | mark sign => cases sign <;> rfl
    | ident | number | keyword => rfl
  | complete => rfl

/-- Only the state behind the closing dot holds a program. -/
theorem State.program?_relabel (s : State) :
    (s.relabel ρ).program? = s.program?.map (Located.relabel ρ (Program.relabel ρ)) := by
  cases s <;> rfl

end Parsing

/-! ## Whole rows of tokens -/

/-- A notice with other labels. -/
def Notice.relabel (ρ : Relabeling) : Notice → Notice
  | .illegal c => .illegal (c.relabel ρ id)
  | .unexpected t => .unexpected (Token.relabelAt ρ t)
  | .unexpectedEnd => .unexpectedEnd

/-- What comes of reading, with other labels. -/
def Reading.relabel (ρ : Relabeling) (r : Reading) : Reading :=
  ⟨r.notices.map (Notice.relabel ρ),
    r.program.map (Option.map (Located.relabel ρ (Program.relabel ρ)))⟩

theorem Reading.relabel_addNotices (ρ : Relabeling) (ns : List Notice) (r : Reading) :
    (r.addNotices ns).relabel ρ = (r.relabel ρ).addNotices (ns.map (Notice.relabel ρ)) := by
  simp [addNotices, relabel]

namespace Parsing.Reader

variable (ρ : Relabeling)

/-- The state of reading with other labels; errors stay silent as long. -/
def relabel (r : Reader) : Reader := ⟨r.state.relabel ρ, r.silence⟩

/-- Whether a notice is passed over depends on the number of tokens since the last error only. -/
theorem note_relabel (r : Reader) (n : Notice) :
    (r.relabel ρ).note (n.relabel ρ) = (r.note n).map (Notice.relabel ρ) := by
  rw [note, note, relabel]
  split <;> rfl

/-- A reader that refuses a token goes on in the same way. -/
theorem push_relabel (r : Reader) (t : Located Token) :
    (r.relabel ρ).push (Token.relabelAt ρ t) =
      ((r.push t).1.relabel ρ, (r.push t).2.map (Notice.relabel ρ)) := by
  have hstep : (r.relabel ρ).state.push (Token.relabelAt ρ t) = _ := r.state.push_relabel ρ t
  rw [push, push, hstep]
  cases r.state.push t with
  | none => exact Prod.ext rfl (r.note_relabel ρ (.unexpected t))
  | some state => rfl

/-- At the end of the row there is a program, or a notice without a label. -/
theorem finish_relabel (r : Reader) :
    (r.relabel ρ).finish =
      (r.finish.1.map (Located.relabel ρ (Program.relabel ρ)),
        r.finish.2.map (Notice.relabel ρ)) := by
  have hprogram : (r.relabel ρ).state.program? = _ := r.state.program?_relabel ρ
  rw [finish, finish, hprogram]
  cases r.state.program? with
  | none => exact Prod.ext rfl (r.note_relabel ρ .unexpectedEnd)
  | some program => rfl

/-- By induction on the tokens, whatever the state of reading. -/
theorem readAll_relabel (r : Reader) (ts : Tokens) :
    (r.relabel ρ).readAll (ts.map (Token.relabelAt ρ)) = (r.readAll ts).relabel ρ := by
  induction ts generalizing r with
  | nil =>
    rw [List.map_nil, readAll_nil, readAll_nil, finish_relabel]
    rfl
  | cons t ts ih =>
    rw [List.map_cons, readAll_cons, readAll_cons, push_relabel, ih, Reading.relabel_addNotices]

end Parsing.Reader

/-- Tokens with other labels are read as the same program with other labels, and the same tokens are
refused. -/
theorem readTokens_relabel (ρ : Relabeling) (ts : List (Located Token)) :
    readTokens (ts.map (Token.relabelAt ρ)) = (readTokens ts).relabel ρ :=
  Parsing.Reader.readAll_relabel ρ .start ts

end SnlFront
