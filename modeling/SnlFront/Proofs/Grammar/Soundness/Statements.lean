import SnlFront.Proofs.Grammar.Soundness.Expressions

/-!
# What is read as a statement is derived

The word behind a comparison opens a block, and a word behind a list of statements ends one. A list
of statements is recursive on the left but read from the front, so its derivation is extended with
each statement.

## Main definitions

* `OpensBlock`, `EndsBlock`: a word opens or ends a block, and the rest is accepted behind it.

## Main statements

* `statement_of_continues`, `statementList_of_accepts`: what is read where a statement or a list of
  statements may start.
-/

namespace SnlFront.Parsing

variable {p : Located Program}


/-- A word opens a block behind a comparison, and the rest is accepted in it. -/
def OpensBlock (guarded : Guarded) (place : StatementPlace) (p : Located Program)
    (condition : Relation) (ts : Tokens) : Prop :=
  ∃ q word block us, ts = [⟨q, .keyword word⟩] ++ us ∧
    guarded.open condition place word = some block ∧
    (State.statements (.first block)).Accepts us p

/-- A word ends a list of statements, and the rest is accepted behind it. -/
def EndsBlock (block : BlockPlace) (p : Located Program) (statements : List Statement)
    (ts : Tokens) : Prop :=
  ∃ q word s us, ts = [⟨q, .keyword word⟩] ++ us ∧ block.close statements word = some s ∧
    s.Accepts us p

/-- The right side of a comparison. -/
theorem relationRight_of_accepts {left : Expression} {sign : Mark} {guarded : Guarded}
    {place : StatementPlace} {ts : Tokens}
    (h : (State.operandDue (.first (.relationRight left sign guarded place))).Accepts ts p) :
    Begins DerivesExpression
      (fun right rest => OpensBlock guarded place p ⟨left, some sign.text, right⟩ rest) ts := by
  obtain ⟨us, vs, right, hts, hright, ⟨q, value⟩, ws, s, hvs, hs, hws⟩ :=
    expression_of_continues [] _ ts (h.continues rfl)
  cases value with
  | ident | number | mark => cases hs
  | keyword word =>
    obtain ⟨block, hblock, rfl⟩ := Option.map_eq_some_iff.1 hs
    exact ⟨us, vs, right, hts, hright, q, word, block, ws, hvs, hblock, hws⟩

/-- A relation has two sides with a sign between them, and the word that opens a block follows. -/
theorem relation_of_accepts {guarded : Guarded} {place : StatementPlace} {ts : Tokens}
    (h : (State.operandDue (.first (.relationLeft guarded place))).Accepts ts p) :
    Begins DerivesRelation (OpensBlock guarded place p) ts := by
  obtain ⟨us, vs, left, hts, hleft, ⟨q, value⟩, ws, s, hvs, hs, hws⟩ :=
    expression_of_continues [] _ ts (h.continues rfl)
  have hsign : value = .mark .less ∧
        s = .operandDue (.first (.relationRight left .less guarded place)) ∨
      value = .mark .equal ∧
        s = .operandDue (.first (.relationRight left .equal guarded place)) := by
    grind [ExpressionPlace.close.eq_def, addTerms]
  rcases hsign with ⟨rfl, rfl⟩ | ⟨rfl, rfl⟩
  · obtain ⟨xs, ys, right, hxs, hright, hys⟩ := relationRight_of_accepts hws
    refine ⟨us ++ [⟨q, .mark .less⟩] ++ xs, ys, _, ?_, .less q hleft hright, hys⟩
    simp [hts, hvs, hxs]
  · obtain ⟨xs, ys, right, hxs, hright, hys⟩ := relationRight_of_accepts hws
    refine ⟨us ++ [⟨q, .mark .equal⟩] ++ xs, ys, _, ?_, .equal q hleft hright, hys⟩
    simp [hts, hvs, hxs]

/-- Behind an argument stands a comma, and another argument is due, or the bracket that ends the
call. -/
theorem afterArgument_cases {procedure : Located String} {arguments : List Expression}
    {place : StatementPlace} {t : Token} {s : State}
    (h : afterArgument procedure arguments place t = some s) :
    t = .mark .comma ∧ s = .operandDue (.first (.argument procedure arguments place)) ∨
    t = .mark .rparen ∧ s = .statementEnded (place.add
      (.call ⟨procedure.pos, procedure.value, arguments⟩)) := by
  unfold afterArgument at h
  grind

/-- The arguments of a call, with those before them. The list of arguments is read one by one, so
the induction is on the tokens that are left. -/
theorem arguments_of_continues (procedure : Located String) (place : StatementPlace)
    {before : List Expression} {us : Tokens} (ts : Tokens) (hbefore : DerivesArguments us before)
    (h : Continues (fun t => afterArgument procedure before place t.value) ts p) :
    ∃ vs q ws arguments, ts = vs ++ [⟨q, .mark .rparen⟩] ++ ws ∧
      DerivesArguments (us ++ vs) arguments ∧
      (State.statementEnded (place.add
        (.call ⟨procedure.pos, procedure.value, arguments⟩))).Accepts ws p := by
  obtain ⟨⟨q, value⟩, vs, s, hts, hs, hvs⟩ := h
  rcases afterArgument_cases hs with ⟨rfl, rfl⟩ | ⟨rfl, rfl⟩
  · obtain ⟨ws, xs, argument, hws, hargument, hxs⟩ :=
      expression_of_continues [] (.argument procedure before place) vs (hvs.continues rfl)
    have hlength : xs.length < ts.length := by
      simp only [hts, hws, List.length_append, List.length_cons]
      omega
    obtain ⟨ys, r, zs, arguments, hys, harguments, hrest⟩ :=
      arguments_of_continues procedure place xs (.more q hbefore hargument) hxs
    refine ⟨[⟨q, .mark .comma⟩] ++ ws ++ ys, r, zs, arguments, ?_, ?_, hrest⟩
    · simp [hts, hws, hys]
    · simpa using harguments
  · exact ⟨[], q, vs, before, hts, by simpa using hbefore, hvs⟩
termination_by ts.length

/-- Behind the opening bracket of a call. -/
theorem call_of_accepts {q r : Position} {name : String} {place : StatementPlace} {ts : Tokens}
    (h : (State.callOpened ⟨q, name⟩ place).Accepts ts p) :
    Begins (fun us => DerivesStatement ([⟨q, .ident name⟩, ⟨r, .mark .lparen⟩] ++ us))
      (fun statement rest => (State.statementEnded (place.add statement)).Accepts rest p) ts := by
  obtain ⟨⟨q', value⟩, us, s, hts, hs, hus⟩ := h.step rfl
  simp only [State.push] at hs
  split at hs
  · cases hs
    exact ⟨[_], us, _, hts, .callPlain q r q' name, hus⟩
  · have hargument : Continues (startOperand (.first (.argument ⟨q, name⟩ [] place))) ts p :=
      ⟨_, us, s, hts, hs, hus⟩
    obtain ⟨vs, ws, argument, hvs, hargument, hws⟩ := expression_of_continues [] _ ts hargument
    obtain ⟨xs, r', ys, arguments, hxs, harguments, hrest⟩ :=
      arguments_of_continues ⟨q, name⟩ place ws (.one hargument) hws
    refine ⟨vs ++ xs ++ [⟨r', .mark .rparen⟩], ys, _, ?_, ?_, hrest⟩
    · simp [hvs, hxs]
    · simpa using DerivesStatement.callWith q r r' name harguments

/-- Behind the name with which an assignment or a call starts. -/
theorem named_of_accepts {q : Position} {name : String} {place : StatementPlace} {ts : Tokens}
    (h : (State.base ⟨q, name⟩ (.target place)).Accepts ts p) :
    Begins (fun us => DerivesStatement ([⟨q, .ident name⟩] ++ us))
      (fun statement rest => (State.statementEnded (place.add statement)).Accepts rest p) ts := by
  rcases base_of_accepts ⟨q, name⟩ (.target place) ts h with
    ⟨outer, r, us, hplace, hts, hus⟩ | ⟨us, vs, target, hts, htarget, hvs⟩
  · cases hplace
    obtain ⟨vs, ws, statement, hvs, hstatement, hws⟩ := call_of_accepts (r := r) hus
    refine ⟨[⟨r, .mark .lparen⟩] ++ vs, ws, statement, ?_, hstatement, hws⟩
    simp [hts, hvs]
  · obtain ⟨r, ws, hws, hvalue⟩ := hvs.expect (.mark .assign)
      (.operandDue (.first (.assigned target place))) (by grind [afterVariable])
    obtain ⟨xs, ys, value, hxs, hvalue, hys⟩ :=
      expression_of_continues [] (.assigned target place) ws (hvalue.continues rfl)
    refine ⟨us ++ [⟨r, .mark .assign⟩] ++ xs, ys, .assign target value, ?_, ?_,
      hys.accepts fun _ _ hs => hs⟩
    · simp [hts, hws, hxs]
    · simpa using DerivesStatement.assign r htarget hvalue

/-- Behind the word of a statement that consists of a word and a value in brackets. -/
theorem emission_of_accepts {emission : Emission} {place : StatementPlace} {ts : Tokens}
    (h : (State.emissionWord emission place).Accepts ts p) :
    ∃ q us r vs value, ts = [⟨q, .mark .lparen⟩] ++ us ++ [⟨r, .mark .rparen⟩] ++ vs ∧
      DerivesExpression us value ∧
      (State.statementEnded (place.add (emission.statement value))).Accepts vs p := by
  obtain ⟨q, us, hts, hus⟩ := (h.continues rfl).expect (.mark .lparen)
    (.operandDue (.first (.emitted emission place))) (by grind [State.push])
  obtain ⟨vs, r, ws, value, hvs, hvalue, hws⟩ :=
    (expression_of_continues [] (.emitted emission place) us (hus.continues rfl)).expect
      (.mark .rparen) (fun value => .statementEnded (place.add (emission.statement value)))
      (by grind [ExpressionPlace.close, addTerms])
  refine ⟨q, vs, r, ws, value, ?_, hvalue, hws⟩
  simp [hts, hvs]

theorem input_of_accepts {q : Position} {place : StatementPlace} {ts : Tokens}
    (h : (State.inputWord place).Accepts ts p) :
    Begins (fun us => DerivesStatement ([⟨q, .keyword .read⟩] ++ us))
      (fun statement rest => (State.statementEnded (place.add statement)).Accepts rest p) ts := by
  obtain ⟨q₁, us, hts, hus⟩ := (h.continues rfl).expect (.mark .lparen) (.inputOpened place)
    (by grind [State.push])
  obtain ⟨q₂, name, vs, hvs, hname⟩ := (hus.continues rfl).expectOf .ident
    (fun q₂ name => .inputName ⟨q₂, name⟩ place) (by grind [State.push])
  obtain ⟨q₃, ws, hws, hrest⟩ := (hname.continues rfl).expect (.mark .rparen)
    (.statementEnded (place.add (.input ⟨q₂, name⟩))) (by grind [State.push])
  refine ⟨[⟨q₁, .mark .lparen⟩, ⟨q₂, .ident name⟩, ⟨q₃, .mark .rparen⟩], ws, _, ?_,
    .input q q₁ q₂ q₃ name, hrest⟩
  simp [hts, hvs, hws]

/-- A list of statements goes on with a statement, or ends. -/
theorem statements_cases {before : List Statement} {block : BlockPlace} {ts : Tokens}
    (h : (State.statements ⟨before, block⟩).Accepts ts p) :
    Continues (startStatement ⟨before, block⟩) ts p ∨ EndsBlock block p before ts := by
  obtain ⟨⟨q, value⟩, us, s, hts, hs, hus⟩ := h.step rfl
  rcases Option.or_eq_some_iff.1 hs with hs | ⟨-, hs⟩
  · exact .inl ⟨_, us, s, hts, hs, hus⟩
  · cases value with
    | ident | number | mark => cases hs
    | keyword word => exact .inr ⟨q, word, s, us, hts, hs, hus⟩

/-- Behind a statement stands a semicolon, or the word that ends the block. -/
theorem statementEnded_cases {before : List Statement} {block : BlockPlace} {ts : Tokens}
    (h : (State.statementEnded ⟨before, block⟩).Accepts ts p) :
    (∃ q us, ts = [⟨q, .mark .semi⟩] ++ us ∧ (State.statements ⟨before, block⟩).Accepts us p) ∨
    EndsBlock block p before ts := by
  obtain ⟨⟨q, value⟩, us, s, hts, hs, hus⟩ := h.step rfl
  cases value with
  | ident | number => cases hs
  | mark mark =>
    have hsemi : mark = .semi ∧ s = .statements ⟨before, block⟩ := by
      cases mark <;> first | (cases hs; exact ⟨rfl, rfl⟩) | cases hs
    obtain ⟨rfl, rfl⟩ := hsemi
    exact .inl ⟨q, us, hts, hus⟩
  | keyword word => exact .inr ⟨q, word, s, us, hts, hs, hus⟩

/-- The first token of a statement tells its form. A name may start an assignment or a call. -/
theorem startStatement_cases {place : StatementPlace} {t : Located Token} {s : State}
    (h : startStatement place t = some s) :
    (∃ name, t.value = .ident name ∧ s = .base ⟨t.pos, name⟩ (.target place)) ∨
    t.value = .keyword .if ∧ s = .operandDue (.first (.relationLeft .conditional place)) ∨
    t.value = .keyword .while ∧ s = .operandDue (.first (.relationLeft .loop place)) ∨
    t.value = .keyword .read ∧ s = .inputWord place ∨
    t.value = .keyword .write ∧ s = .emissionWord .output place ∨
    t.value = .keyword .return ∧ s = .emissionWord .result place := by
  unfold startStatement at h
  grind

/-- The first branch ends with the word for the other branch, or with the whole statement. -/
theorem endsBlock_thenBranch {condition : Relation} {place : StatementPlace}
    {body : List Statement} {ts : Tokens} (h : EndsBlock (.thenBranch condition place) p body ts) :
    (∃ q us, ts = [⟨q, .keyword .else⟩] ++ us ∧
      (State.statements (.first (.elseBranch condition body place))).Accepts us p) ∨
    ∃ q us, ts = [⟨q, .keyword .fi⟩] ++ us ∧
      (State.statementEnded (place.add (.conditional condition body []))).Accepts us p := by
  obtain ⟨q, word, s, us, hts, hs, hus⟩ := h
  cases word with
  | «else» =>
    cases hs
    exact .inl ⟨q, us, hts, hus⟩
  | fi =>
    cases hs
    exact .inr ⟨q, us, hts, hus⟩
  | _ => cases hs

/-- Most blocks end with one word only. -/
theorem EndsBlock.expect {block : BlockPlace} {statements : List Statement} {ts : Tokens}
    (h : EndsBlock block p statements ts) (word : Keyword) (s : State)
    (hclose : ∀ word' s', block.close statements word' = some s' → word' = word ∧ s' = s) :
    ∃ q us, ts = [⟨q, .keyword word⟩] ++ us ∧ s.Accepts us p := by
  obtain ⟨q, word', s', us, hts, hs, hus⟩ := h
  obtain ⟨rfl, rfl⟩ := hclose word' s' hs
  exact ⟨q, us, hts, hus⟩

/-- Behind the relation of a branch or a loop stands one word only. -/
theorem OpensBlock.expect {guarded : Guarded} {place : StatementPlace} {condition : Relation}
    {ts : Tokens} (h : OpensBlock guarded place p condition ts) (word : Keyword)
    (block : BlockPlace)
    (hopen : ∀ word' block', guarded.open condition place word' = some block' →
      word' = word ∧ block' = block) :
    ∃ q us, ts = [⟨q, .keyword word⟩] ++ us ∧ (State.statements (.first block)).Accepts us p := by
  obtain ⟨q, word', block', us, hts, hblock, hus⟩ := h
  obtain ⟨rfl, rfl⟩ := hopen word' block' hblock
  exact ⟨q, us, hts, hus⟩

mutual

/-- Where a statement may start, a statement is read. -/
theorem statement_of_continues (place : StatementPlace) (ts : Tokens)
    (h : Continues (startStatement place) ts p) :
    Begins DerivesStatement
      (fun statement rest => (State.statementEnded (place.add statement)).Accepts rest p) ts := by
  obtain ⟨⟨q, value⟩, us, s, hts, hs, hus⟩ := h
  rcases startStatement_cases hs with
    ⟨name, rfl, rfl⟩ | ⟨rfl, rfl⟩ | ⟨rfl, rfl⟩ | ⟨rfl, rfl⟩ | ⟨rfl, rfl⟩ | ⟨rfl, rfl⟩
  · obtain ⟨vs, ws, statement, hvs, hstatement, hws⟩ := named_of_accepts hus
    refine ⟨[⟨q, .ident name⟩] ++ vs, ws, statement, ?_, hstatement, hws⟩
    simp [hts, hvs]
  · obtain ⟨vs, ws, condition, hvs, hcondition, hws⟩ := relation_of_accepts hus
    obtain ⟨r, xs, hxs, hbody⟩ := hws.expect .then (.thenBranch condition place)
      (by grind [Guarded.open])
    have hlength : xs.length < ts.length := by
      simp only [hts, hvs, hxs, List.length_append, List.length_cons]
      omega
    obtain ⟨ys, zs, body, hys, hbody, hend⟩ :=
      statementList_of_accepts (.thenBranch condition place) xs hbody
    -- The block ends with the word that opens the other one, or with the statement.
    rcases endsBlock_thenBranch hend with ⟨r', us', hus', helse⟩ | ⟨r', us', hus', hrest⟩
    · have hlength' : us'.length < ts.length := by
        simp only [hts, hvs, hxs, hys, hus', List.length_append, List.length_cons]
        omega
      obtain ⟨vs', ws', otherwise, hvs', hotherwise, hend'⟩ :=
        statementList_of_accepts (.elseBranch condition body place) us' helse
      obtain ⟨r'', rest, hrest, hafter⟩ := hend'.expect .fi
        (.statementEnded (place.add (.conditional condition body otherwise)))
        (by grind [BlockPlace.close])
      refine ⟨[⟨q, .keyword .if⟩] ++ vs ++ [⟨r, .keyword .then⟩] ++ ys ++ [⟨r', .keyword .else⟩]
        ++ vs' ++ [⟨r'', .keyword .fi⟩], rest, _, ?_,
        .conditional q r r' r'' hcondition hbody hotherwise, hafter⟩
      simp [hts, hvs, hxs, hys, hus', hvs', hrest]
    · refine ⟨[⟨q, .keyword .if⟩] ++ vs ++ [⟨r, .keyword .then⟩] ++ ys ++ [⟨r', .keyword .fi⟩], us',
        _, ?_, .oneSided q r r' hcondition hbody, hrest⟩
      simp [hts, hvs, hxs, hys, hus']
  · obtain ⟨vs, ws, condition, hvs, hcondition, hws⟩ := relation_of_accepts hus
    obtain ⟨r, xs, hxs, hbody⟩ := hws.expect .do (.loopBody condition place)
      (by grind [Guarded.open])
    have hlength : xs.length < ts.length := by
      simp only [hts, hvs, hxs, List.length_append, List.length_cons]
      omega
    obtain ⟨ys, zs, body, hys, hbody, hend⟩ :=
      statementList_of_accepts (.loopBody condition place) xs hbody
    obtain ⟨r', rest, hrest, hafter⟩ := hend.expect .endwh
      (.statementEnded (place.add (.loop condition body))) (by grind [BlockPlace.close])
    refine ⟨[⟨q, .keyword .while⟩] ++ vs ++ [⟨r, .keyword .do⟩] ++ ys ++ [⟨r', .keyword .endwh⟩],
      rest, _, ?_, .loop q r r' hcondition hbody, hafter⟩
    simp [hts, hvs, hxs, hys, hrest]
  · obtain ⟨vs, ws, statement, hvs, hstatement, hws⟩ := input_of_accepts hus
    refine ⟨[⟨q, .keyword .read⟩] ++ vs, ws, statement, ?_, hstatement, hws⟩
    simp [hts, hvs]
  · obtain ⟨r, vs, r', ws, value, hvs, hvalue, hws⟩ := emission_of_accepts hus
    refine ⟨[⟨q, .keyword .write⟩, ⟨r, .mark .lparen⟩] ++ vs ++ [⟨r', .mark .rparen⟩], ws, _, ?_,
      .output q r r' hvalue, hws⟩
    simp [hts, hvs]
  · obtain ⟨r, vs, r', ws, value, hvs, hvalue, hws⟩ := emission_of_accepts hus
    refine ⟨[⟨q, .keyword .return⟩, ⟨r, .mark .lparen⟩] ++ vs ++ [⟨r', .mark .rparen⟩], ws, _, ?_,
      .result q r r' hvalue, hws⟩
    simp [hts, hvs]
termination_by (ts.length, 0)

/-- The rest of a list of statements. A semicolon may also stand behind the last one. -/
theorem statementList_of_ended (block : BlockPlace) {before : List Statement} {us : Tokens}
    (ts : Tokens) (hbefore : DerivesStatements us before)
    (h : (State.statementEnded ⟨before, block⟩).Accepts ts p) :
    Begins (fun vs statements => DerivesStatementList (us ++ vs) statements)
      (EndsBlock block p) ts := by
  rcases statementEnded_cases h with ⟨q, vs, hts, hvs⟩ | hend
  · rcases statements_cases hvs with hstatement | hend
    · have hlength : vs.length < ts.length := by simp [hts]
      obtain ⟨ws, xs, statement, hws, hstatement, hxs⟩ :=
        statement_of_continues ⟨before, block⟩ vs hstatement
      have hlength' : xs.length < ts.length := by
        simp only [hts, hws, List.length_append, List.length_cons]
        omega
      obtain ⟨ys, zs, statements, hys, hstatements, hend⟩ :=
        statementList_of_ended block xs (.more q hbefore hstatement) hxs
      refine ⟨[⟨q, .mark .semi⟩] ++ ws ++ ys, zs, statements, ?_, ?_, hend⟩
      · simp [hts, hws, hys]
      · simpa using hstatements
    · exact ⟨[⟨q, .mark .semi⟩], vs, before, hts, .trailing q hbefore, hend⟩
  · exact ⟨[], ts, before, rfl, by simpa using DerivesStatementList.plain hbefore, hend⟩
termination_by (ts.length, 1)

theorem statementList_of_accepts (block : BlockPlace) (ts : Tokens)
    (h : (State.statements (.first block)).Accepts ts p) :
    Begins DerivesStatementList (EndsBlock block p) ts := by
  rcases statements_cases h with hstatement | hend
  · obtain ⟨us, vs, statement, hts, hstatement, hvs⟩ :=
      statement_of_continues (.first block) ts hstatement
    have hlength : vs.length ≤ ts.length := by simp [hts]
    obtain ⟨ws, xs, statements, hws, hstatements, hend⟩ :=
      statementList_of_ended block vs (.one hstatement) hvs
    refine ⟨us ++ ws, xs, statements, ?_, hstatements, hend⟩
    rw [hts, hws, List.append_assoc]
  · exact ⟨[], ts, [], rfl, .none, hend⟩
termination_by (ts.length, 2)
decreasing_by
  · exact Prod.Lex.right _ (by decide)
  · exact Prod.Lex.right' _ hlength (by decide)

end

end SnlFront.Parsing
