import SnlFront.Proofs.Grammar.Completeness.Expressions

/-!
# Derived statements are read

The tokens of a statement lead from the place where it may start to the place behind it, and those
of a list of statements up to the word that ends its block.

## Main statements

* `DerivesRelation.accepts`: a comparison, up to the word that opens a block.
* `DerivesStatement.continues`, `DerivesStatements.continues`, `DerivesStatementList.accepts`:
  reading statements.
-/

namespace SnlFront.Parsing

variable {us vs : Tokens} {p : Located Program}


/-- A relation is complete when the word behind it opens the guarded block. -/
theorem close_relationRight {left right : Expression} {sign : Mark} {guarded : Guarded}
    {place : StatementPlace} {word : Keyword} {block : BlockPlace}
    (h : guarded.open ⟨left, some sign.text, right⟩ place word = some block) :
    (ExpressionPlace.relationRight left sign guarded place).close right (.keyword word) =
      some (.statements (.first block)) := by
  rw [ExpressionPlace.close, h, Option.map_some]

/-- A comparison is read up to the word that opens a block behind it. -/
theorem DerivesRelation.accepts {condition : Relation} (h : DerivesRelation us condition)
    (guarded : Guarded) (place : StatementPlace) (q : Position) (word : Keyword)
    {block : BlockPlace} (hopen : guarded.open condition place word = some block)
    (hvs : (State.statements (.first block)).Accepts vs p) :
    (State.operandDue (.first (.relationLeft guarded place))).Accepts
      (us ++ ([⟨q, .keyword word⟩] ++ vs)) p := by
  cases h with
  | less r hleft hright =>
    have hrest := hright.accepts _ ⟨q, .keyword word⟩ (close_relationRight hopen) hvs
    simp only [List.append_assoc]
    exact hleft.accepts (.relationLeft guarded place) ⟨r, .mark .less⟩ rfl hrest
  | equal r hleft hright =>
    have hrest := hright.accepts _ ⟨q, .keyword word⟩ (close_relationRight hopen) hvs
    simp only [List.append_assoc]
    exact hleft.accepts (.relationLeft guarded place) ⟨r, .mark .equal⟩ rfl hrest

/-- Arguments are read one by one; the last is followed by the closing bracket. -/
theorem DerivesArguments.continues {arguments : List Expression}
    (h : DerivesArguments us arguments) (procedure : Located String) (place : StatementPlace)
    (hvs : Continues (fun t => afterArgument procedure arguments place t.value) vs p) :
    Continues (startOperand (.first (.argument procedure [] place))) (us ++ vs) p := by
  induction h generalizing vs with
  | one hargument => exact hargument.continues [] (.argument procedure [] place) hvs
  | @more us ws arguments argument q h hargument ih =>
    have hlast := hargument.continues [] (.argument procedure arguments place) hvs
    simp only [List.append_assoc]
    exact ih (.cons rfl (operandDue_accepts hlast))

/-- Behind a statement comes a semicolon or the end of the block. -/
theorem statementEnded_accepts {place : StatementPlace}
    (h : Continues (fun t => afterStatement place t.value) vs p) :
    (State.statementEnded place).Accepts vs p := h.accepts fun _ _ hs => hs

/-- Where a list of statements goes on, a statement may start. -/
theorem statements_accepts {place : StatementPlace} (h : Continues (startStatement place) vs p) :
    (State.statements place).Accepts vs p := by
  refine h.accepts fun t s hs => ?_
  rw [State.push, hs, Option.some_or]

/-- Or the list ends there, also behind a semicolon. -/
theorem statements_accepts_end {place : StatementPlace}
    (h : Continues (fun t => endStatements place t.value) vs p) :
    (State.statements place).Accepts vs p := by
  refine h.accepts fun t s hs => ?_
  rw [State.push, startStatement_of_endStatements hs, Option.none_or]
  exact hs

theorem callOpened_accepts {procedure : Located String} {place : StatementPlace}
    (h : Continues (startOperand (.first (.argument procedure [] place))) vs p) :
    (State.callOpened procedure place).Accepts vs p := by
  refine h.accepts fun t s hs => ?_
  rw [State.push]
  split
  · next hparen =>
    rw [startOperand, hparen] at hs
    cases hs
  · exact hs

theorem startStatement_of_startVariable {place : StatementPlace} {t : Located Token} {s : State}
    (h : startVariable (.target place) t = some s) : startStatement place t = some s := by
  unfold startVariable at h
  split at h
  · next hname => simpa [startStatement, hname] using h
  · cases h

mutual

/-- What is derived as a statement is read as one, whatever may come behind a statement here. The
induction is on the derivation. -/
theorem DerivesStatement.continues {us vs : Tokens} {statement : Statement}
    (place : StatementPlace) :
    DerivesStatement us statement →
    Continues (fun t => afterStatement (place.add statement) t.value) vs p →
    Continues (startStatement place) (us ++ vs) p
  | .conditional _ q r t hcondition hbody hotherwise, hvs => by
    have helse := DerivesStatementList.accepts (.elseBranch _ _ place) hotherwise t .fi rfl
      (statementEnded_accepts hvs)
    have hthen := DerivesStatementList.accepts (.thenBranch _ place) hbody r .else rfl helse
    have hrest := hcondition.accepts .conditional place q .then rfl hthen
    simp only [List.append_assoc]
    exact .cons rfl hrest
  | .oneSided _ q r hcondition hbody, hvs => by
    have hthen := DerivesStatementList.accepts (.thenBranch _ place) hbody r .fi rfl
      (statementEnded_accepts hvs)
    have hrest := hcondition.accepts .conditional place q .then rfl hthen
    simp only [List.append_assoc]
    exact .cons rfl hrest
  | .loop _ q r hcondition hbody, hvs => by
    have hbody := DerivesStatementList.accepts (.loopBody _ place) hbody r .endwh rfl
      (statementEnded_accepts hvs)
    have hrest := hcondition.accepts .loop place q .do rfl hbody
    simp only [List.append_assoc]
    exact .cons rfl hrest
  | .input _ _ _ _ _, hvs =>
    .cons rfl (.cons rfl (.cons rfl (.cons rfl (statementEnded_accepts hvs))))
  | .output _ _ q hvalue, hvs => by
    have hrest := hvalue.accepts (.emitted .output place) ⟨q, .mark .rparen⟩ rfl
      (statementEnded_accepts hvs)
    simp only [List.append_assoc]
    exact .cons rfl (.cons rfl hrest)
  | .result _ _ q hvalue, hvs => by
    have hrest := hvalue.accepts (.emitted .result place) ⟨q, .mark .rparen⟩ rfl
      (statementEnded_accepts hvs)
    simp only [List.append_assoc]
    exact .cons rfl (.cons rfl hrest)
  | .assign q htarget hvalue, hvs => by
    have hrest := hvalue.continues [] (.assigned _ place) hvs
    have hassign := htarget.continues (.target place)
      (.cons (t := ⟨q, .mark .assign⟩) rfl (operandDue_accepts hrest))
    simp only [List.append_assoc]
    exact hassign.mono fun _ _ => startStatement_of_startVariable
  | .callPlain _ _ _ _, hvs => .cons rfl (.cons rfl (.cons rfl (statementEnded_accepts hvs)))
  | .callWith q _ r name harguments, hvs => by
    have hrest := harguments.continues ⟨q, name⟩ place
      (.cons (t := ⟨r, .mark .rparen⟩) rfl (statementEnded_accepts hvs))
    simp only [List.append_assoc]
    exact .cons rfl (.cons rfl (callOpened_accepts hrest))

/-- Statements of a block are read one after the other. -/
theorem DerivesStatements.continues {us vs : Tokens} {statements : List Statement}
    (block : BlockPlace) :
    DerivesStatements us statements →
    Continues (fun t => afterStatement ⟨statements, block⟩ t.value) vs p →
    Continues (startStatement (.first block)) (us ++ vs) p
  | .one hstatement, hvs => DerivesStatement.continues (.first block) hstatement hvs
  | @DerivesStatements.more _ _ before _ _ hstatements hstatement, hvs => by
    have hlast := DerivesStatement.continues ⟨before, block⟩ hstatement hvs
    simp only [List.append_assoc]
    exact DerivesStatements.continues block hstatements (.cons rfl (statements_accepts hlast))

/-- The statements of a block may be left out. -/
theorem DerivesStatementList.accepts {us vs : Tokens} {statements : List Statement} {s : State}
    (block : BlockPlace) :
    DerivesStatementList us statements → (q : Position) → (word : Keyword) →
    block.close statements word = some s → s.Accepts vs p →
    (State.statements (.first block)).Accepts (us ++ ([⟨q, .keyword word⟩] ++ vs)) p
  | .none, _, _, hclose, hvs => statements_accepts_end (.cons hclose hvs)
  | .plain hstatements, _, _, hclose, hvs =>
    statements_accepts (DerivesStatements.continues block hstatements (.cons hclose hvs))
  | .trailing _ hstatements, q, word, hclose, hvs => by
    have hend : (State.statements ⟨statements, block⟩).Accepts ([⟨q, .keyword word⟩] ++ vs) p :=
      statements_accepts_end (.cons hclose hvs)
    rw [List.append_assoc]
    exact statements_accepts (DerivesStatements.continues block hstatements (.cons rfl hend))

end

end SnlFront.Parsing
