import SnlFront.Proofs.Grammar.Reading

/-!
# No state is a dead end

Whatever has been read can be completed to a program: what is open is closed from the inside out,
along the places in which it stands. So a row of tokens can be read exactly if it is the front of a
program, and the token at which reading fails is the first one that continues no program.

## Main definitions

* `State.Completable`: some tokens complete a state to a program.
* `Viable`: a row of tokens is the front of a program.

## Main statements

* `State.completable`: every state can be completed.
* `viable_iff_pushAll`: a row of tokens can be read exactly if it is the front of a program.
-/

namespace SnlFront.Parsing

/-- Some tokens complete a state to a program. -/
def State.Completable (s : State) : Prop := ∃ ts p, s.Accepts ts p

/-- Some tokens continue, by what the first of them does, to a program. -/
def Continuable (next : Located Token → Option State) : Prop := ∃ ts p, Continues next ts p

/-- A state can be completed if some token leads to one that can. The position of the token does not
matter. -/
theorem State.Completable.of_push {s s' : State} (t : Token)
    (h : s.push ⟨.origin, t⟩ = some s') (hs' : s'.Completable) : s.Completable := by
  obtain ⟨ts, p, hts⟩ := hs'
  exact ⟨_, p, .cons h hts⟩

theorem Continuable.of_next {next : Located Token → Option State} {s : State} (t : Token)
    (h : next ⟨.origin, t⟩ = some s) (hs : s.Completable) : Continuable next := by
  obtain ⟨ts, p, hts⟩ := hs
  exact ⟨_, p, .cons h hts⟩

theorem Continuable.completable {next : Located Token → Option State} {s : State}
    (h : Continuable next) (hnext : ∀ t s', next t = some s' → s.push t = some s') :
    s.Completable := by
  obtain ⟨ts, p, hts⟩ := h
  exact ⟨ts, p, hts.accepts hnext⟩

/-! ## Bodies and statements -/

mutual

/-- The body of a program or procedure can be completed: those around it are ended one after the
other. -/
theorem Head.completable_body : (head : Head) → (types : List (Located Alias)) →
    (vars : List (Located Group)) → (procedures : List (Located Procedure)) →
    (before : List Statement) →
    (State.statements ⟨before, .body ⟨head, types, vars, procedures⟩⟩).Completable
  | .program _ _, _, _, _, _ => by
    refine .of_push (.keyword .end) rfl ?_
    refine .of_push (.mark .dot) rfl ?_
    exact ⟨[], _, rfl⟩
  | .procedure _ _ outer, _, _, _, _ => by
    refine .of_push (.keyword .end) rfl ?_
    -- The procedure joins the outline around it; the induction is on the heads alone.
    refine .of_push (.keyword .begin) rfl ?_
    exact Outline.completable_body (outer.procedures ++ [_]) outer

theorem Outline.completable_body (procedures : List (Located Procedure)) : (outline : Outline) →
    (State.statements (.first (.body { outline with procedures := procedures }))).Completable
  | ⟨head, types, vars, _⟩ => Head.completable_body head types vars procedures []

end

/-- A list of statements can be completed: the blocks around it are ended one after the other. -/
theorem BlockPlace.completable : (block : BlockPlace) → (before : List Statement) →
    (State.statements ⟨before, block⟩).Completable
  | .body ⟨head, types, vars, procedures⟩, before =>
    head.completable_body types vars procedures before
  | .thenBranch _ ⟨_, block⟩, _ => by
    refine .of_push (.keyword .fi) rfl ?_
    refine .of_push (.mark .semi) rfl ?_
    exact BlockPlace.completable block _
  | .elseBranch _ _ ⟨_, block⟩, _ => by
    refine .of_push (.keyword .fi) rfl ?_
    refine .of_push (.mark .semi) rfl ?_
    exact BlockPlace.completable block _
  | .loopBody _ ⟨_, block⟩, _ => by
    refine .of_push (.keyword .endwh) rfl ?_
    refine .of_push (.mark .semi) rfl ?_
    exact BlockPlace.completable block _

/-- A list of statements can end at once, since it may be empty or end with a semicolon. -/
theorem StatementPlace.completable (place : StatementPlace) :
    (State.statements place).Completable := by
  obtain ⟨before, block⟩ := place
  exact block.completable before

theorem StatementPlace.completable_ended (place : StatementPlace) :
    (State.statementEnded place).Completable :=
  .of_push (.mark .semi) rfl place.completable

/-- A level can be completed by an empty body. -/
theorem Outline.completable (outline : Outline) :
    (State.statements (.first (.body outline))).Completable :=
  BlockPlace.completable (.body outline) []

/-! ## Expressions -/

/-- Behind a comparison, its block is opened. -/
theorem Guarded.continuable (guarded : Guarded) (left right : Expression) (sign : Mark)
    (place : StatementPlace) :
    Continuable fun t =>
      (ExpressionPlace.relationRight left sign guarded place).close right t.value := by
  cases guarded with
  | conditional => exact .of_next (.keyword .then) rfl (StatementPlace.completable _)
  | loop => exact .of_next (.keyword .do) rfl (StatementPlace.completable _)

/-- Where an operand may start, a number may stand, and what is around it is then closed. -/
theorem OperandPlace.completable_of_close {place : OperandPlace}
    (h : ∀ e, Continuable fun t => place.expression.close e t.value) (factor : Located Factor) :
    (State.operandEnded factor place).Completable := by
  obtain ⟨factors, terms, expression⟩ := place
  let term := addFactors factors ⟨factor.pos, .last factor none⟩
  refine (h (addTerms terms (.last term none))).completable fun t s hs => ?_
  exact afterOperand_of_afterTerm (afterTerm_of_close hs)

/-- Where an operand is due, a number will do. -/
theorem OperandPlace.completable_due {place : OperandPlace}
    (h : ∀ e, Continuable fun t => place.expression.close e t.value) :
    (State.operandDue place).Completable :=
  .of_push (.number 0) rfl (OperandPlace.completable_of_close h _)

/-- Behind a variable that is to be assigned to, a number may be assigned to it. -/
theorem StatementPlace.completable_targetEnded (v : Variable) (place : StatementPlace) :
    (State.targetEnded v place).Completable := by
  refine .of_push (.mark .assign) rfl (OperandPlace.completable_due fun e => ?_)
  exact .of_next (.mark .semi) rfl (StatementPlace.completable _)

mutual

/-- Behind an expression, the places around it are closed one after the other. -/
theorem ExpressionPlace.continuable : (place : ExpressionPlace) → (e : Expression) →
    Continuable fun t => place.close e t.value
  | .bracket _ ⟨_, _, place⟩, _ =>
    .of_next (.mark .rparen) rfl
      (OperandPlace.completable_of_close (ExpressionPlace.continuable place) _)
  | .index _ _ place, _ =>
    .of_next (.mark .rbracket) rfl (VariablePlace.completable_close place _)
  | .relationLeft guarded place, e =>
    .of_next (.mark .less) rfl
      (OperandPlace.completable_due fun right => guarded.continuable e right .less place)
  | .relationRight left sign guarded place, e => guarded.continuable left e sign place
  | .emitted _ _, _ => .of_next (.mark .rparen) rfl (StatementPlace.completable_ended _)
  | .assigned _ _, _ => .of_next (.mark .semi) rfl (StatementPlace.completable _)
  | .argument _ _ _, _ =>
    .of_next (.mark .rparen) rfl (StatementPlace.completable_ended _)

theorem VariablePlace.completable_close : (place : VariablePlace) → (v : Variable) →
    (place.close v).Completable
  | .operand ⟨_, _, place⟩, _ =>
    OperandPlace.completable_of_close (ExpressionPlace.continuable place) _
  | .target place, v => place.completable_targetEnded v

end

theorem OperandPlace.completable (place : OperandPlace) :
    (State.operandDue place).Completable :=
  OperandPlace.completable_due place.expression.continuable

/-! ## Types and declarations -/

theorem Outline.completable_types (outline : Outline) :
    (State.declaring .types outline).Completable :=
  .of_push (.keyword .begin) rfl outline.completable

theorem Outline.completable_vars (outline : Outline) :
    (State.declaring .vars outline).Completable :=
  .of_push (.keyword .begin) rfl outline.completable

theorem completable_paramsClosed (params : List (Located Parameter)) (name : Located String)
    (outer : Outline) : (State.paramsClosed params name outer).Completable :=
  .of_push (.mark .semi) rfl (.of_push (.keyword .begin) rfl (Outline.completable _))

mutual

/-- Behind a type, its place is closed. -/
theorem TypePlace.completable_close : (place : TypePlace) → (type : Located TypeExpr) →
    (place.close type).Completable
  | .alias _ _, _ => .of_push (.mark .semi) rfl (Outline.completable_types _)
  | .group place, type =>
    .of_push (.ident "x") rfl (GroupPlace.completable_names place type [⟨.origin, "x"⟩])

/-- Behind a name, its group is closed. -/
theorem GroupPlace.completable_names : (place : GroupPlace) → (type : Located TypeExpr) →
    (names : List (Located String)) → (State.names type names place).Completable
  | .vars _, _, _ => .of_push (.mark .semi) rfl (Outline.completable_vars _)
  | .fields _ _ place, _, _ =>
    .of_push (.mark .semi) rfl
      (.of_push (.keyword .end) rfl (TypePlace.completable_close place _))
  | .params _ _ procedure outer, _, _ =>
    .of_push (.mark .rparen) rfl (completable_paramsClosed _ procedure outer)

end

/-- Where a type is due, the word for integers will do. -/
theorem TypePlace.completable_due (place : TypePlace) : (State.typeDue place).Completable :=
  .of_push (.keyword .integer) rfl (place.completable_close _)

theorem ArrayPart.completable (start : Position) (place : TypePlace) (part : ArrayPart) :
    (State.array start part place).Completable := by
  have helement : ∀ lower upper, (State.array start (.element lower upper) place).Completable :=
    fun _ _ => .of_push (.keyword .integer) rfl (place.completable_close _)
  have hclosed : ∀ lower upper, (State.array start (.closed lower upper) place).Completable :=
    fun lower upper => .of_push (.keyword .of) rfl (helement lower upper)
  have hupper : ∀ lower upper, (State.array start (.upper lower upper) place).Completable :=
    fun lower upper => .of_push (.mark .rbracket) rfl (hclosed lower upper)
  have hrange : ∀ lower, (State.array start (.range lower) place).Completable :=
    fun lower => .of_push (.number 0) rfl (hupper lower 0)
  have hlower : ∀ lower, (State.array start (.lower lower) place).Completable :=
    fun lower => .of_push (.mark .range) rfl (hrange lower)
  have hbracket : (State.array start .bracket place).Completable :=
    .of_push (.number 0) rfl (hlower 0)
  cases part with
  | word => exact .of_push (.mark .lbracket) rfl hbracket
  | bracket => exact hbracket
  | lower lower => exact hlower lower
  | range lower => exact hrange lower
  | upper lower upper => exact hupper lower upper
  | closed lower upper => exact hclosed lower upper
  | element lower upper => exact helement lower upper

/-- A level can be completed from each of its stages. -/
theorem Stage.completable (stage : Stage) (outline : Outline) :
    (State.declaring stage outline).Completable := by
  have haliasName : ∀ name, (State.aliasName name outline).Completable :=
    fun _ => .of_push (.mark .equal) rfl (TypePlace.completable_due _)
  cases stage with
  | typesOpened => exact .of_push (.ident "x") rfl (haliasName _)
  | varsOpened => exact .of_push (.keyword .integer) rfl (TypePlace.completable_close (.group _) _)
  | named | opened | types | vars | procedureEnded | procedures =>
    exact .of_push (.keyword .begin) rfl outline.completable

theorem completable_paramDue (before : List (Located Parameter)) (name : Located String)
    (outer : Outline) : (State.paramDue before name outer).Completable :=
  .of_push (.keyword .integer) rfl (TypePlace.completable_close (.group _) _)

theorem completable_field (start part : Located String) (place : VariablePlace) :
    (State.field start part place).Completable :=
  .of_push (.mark .lbracket) rfl (OperandPlace.completable _)

/-! ## States -/

/-- Every state can be completed. -/
theorem State.completable (s : State) : s.Completable := by
  have hnamed : ∀ start name, (State.declaring .named (.start (.program start name))).Completable :=
    fun _ _ => Stage.completable _ _
  have hword : ∀ start, (State.programWord start).Completable :=
    fun start => .of_push (.ident "x") rfl (hnamed start "x")
  have hinputName : ∀ name place, (State.inputName name place).Completable :=
    fun _ _ => .of_push (.mark .rparen) rfl (StatementPlace.completable_ended _)
  have hinputOpened : ∀ place, (State.inputOpened place).Completable :=
    fun place => .of_push (.ident "x") rfl (hinputName _ place)
  have hprocedureName : ∀ name outer, (State.procedureName name outer).Completable :=
    fun name outer => .of_push (.mark .lparen) rfl
      (.of_push (.mark .rparen) rfl (completable_paramsClosed [] name outer))
  cases s with
  | empty => exact .of_push (.keyword .program) rfl (hword _)
  | programWord start => exact hword start
  | declaring stage outline => exact stage.completable outline
  | aliasName name outline => exact .of_push (.mark .equal) rfl (TypePlace.completable_due _)
  | aliasBase name base outline => exact .of_push (.mark .semi) rfl (Outline.completable_types _)
  | typeDue place => exact place.completable_due
  | array start part place => exact part.completable start place
  | fields start before place =>
    exact .of_push (.keyword .end) rfl (place.completable_close _)
  | nameDue type before place => exact .of_push (.ident "x") rfl (place.completable_names type _)
  | names type before place => exact place.completable_names type before
  | procedureWord outer => exact .of_push (.ident "x") rfl (hprocedureName _ outer)
  | procedureName name outer => exact hprocedureName name outer
  | paramsOpened name outer =>
    exact .of_push (.mark .rparen) rfl (completable_paramsClosed [] name outer)
  | paramDue before name outer => exact completable_paramDue before name outer
  | paramsClosed params name outer => exact completable_paramsClosed params name outer
  | statements place => exact place.completable
  | statementEnded place => exact place.completable_ended
  | inputWord place => exact .of_push (.mark .lparen) rfl (hinputOpened place)
  | inputOpened place => exact hinputOpened place
  | inputName name place => exact hinputName name place
  | emissionWord emission place =>
    exact .of_push (.mark .lparen) rfl (OperandPlace.completable _)
  | callOpened procedure place =>
    exact .of_push (.mark .rparen) rfl (StatementPlace.completable_ended _)
  | targetEnded target place => exact place.completable_targetEnded target
  | operandDue place => exact place.completable
  | operandEnded factor place =>
    exact OperandPlace.completable_of_close place.expression.continuable factor
  | base start place => exact .of_push (.mark .lbracket) rfl (OperandPlace.completable _)
  | fieldDue start place => exact .of_push (.ident "x") rfl (completable_field start _ place)
  | field start part place => exact completable_field start part place
  | bodyEnded program => exact .of_push (.mark .dot) rfl ⟨[], program, rfl⟩
  | complete program => exact ⟨[], program, rfl⟩

/-- A row of tokens is the front of a program. -/
def Viable (ts : Tokens) : Prop := ∃ rest p, DerivesProgram (ts ++ rest) p

theorem State.pushAll_append (s : State) (us vs : Tokens) :
    s.pushAll (us ++ vs) = (s.pushAll us).bind (·.pushAll vs) := by
  induction us generalizing s with
  | nil => rfl
  | cons t us ih =>
    rw [List.cons_append, pushAll, pushAll, Option.bind_assoc]
    exact congrArg (s.push t).bind (funext fun s' => ih s')

/-- A row of tokens can be read exactly if it is the front of a program. -/
theorem viable_iff_pushAll {ts : Tokens} : Viable ts ↔ ∃ s, State.empty.pushAll ts = some s := by
  constructor
  · intro h
    obtain ⟨rest, p, hp⟩ := h
    have haccepts := hp.accepts
    rw [State.Accepts, State.pushAll_append] at haccepts
    obtain ⟨s, hs, -⟩ := Option.bind_eq_some_iff.1 haccepts
    exact ⟨s, hs⟩
  · intro h
    obtain ⟨s, hs⟩ := h
    obtain ⟨rest, p, hrest⟩ := s.completable
    refine ⟨rest, p, accepts_iff_derives.1 ?_⟩
    rw [State.Accepts, State.pushAll_append, hs]
    exact hrest

end SnlFront.Parsing
