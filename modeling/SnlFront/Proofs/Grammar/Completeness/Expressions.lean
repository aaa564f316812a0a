import SnlFront.Proofs.Grammar.Acceptance

/-!
# Derived expressions are read

What the grammar derives is read, and the tree of the derivation is built: if the rest of the tokens
is accepted behind the tree of a part, then the tokens of the part and the rest are accepted where
the part may start. The induction is on the derivation; the place around the part is arbitrary.

An operand ends where the next token does not continue it. None of the tokens that may follow an
expression does, so the state behind an operand need not be known.

## Main statements

* `DerivesExpression.continues`, `DerivesTerm.continues`, `DerivesFactor.continues`,
  `DerivesVariable.continues`: reading an operand or a chain of them.
-/

namespace SnlFront.Parsing

variable {us vs : Tokens} {p : Located Program}


/-- Where a variable may start. -/
def startVariable (place : VariablePlace) (t : Located Token) : Option State :=
  match t.value with
  | .ident name => some (.base ⟨t.pos, name⟩ place)
  | _ => none

theorem afterOperand_mark (factor : Located Factor) (place : OperandPlace) {m : Mark}
    (h : m = .dot ∨ m = .lbracket ∨ m = .lparen) : afterOperand factor place (.mark m) = none := by
  have hcontinues : continuesOperand m = true := by rcases h with rfl | rfl | rfl <;> rfl
  have hclose := place.expression.close_mark (place.whole factor) m hcontinues
  rcases h with rfl | rfl | rfl <;> exact hclose

/-- A mark that could start a further part of a variable ends none. -/
theorem afterVariable_mark (v : Variable) (place : VariablePlace) {m : Mark}
    (h : m = .dot ∨ m = .lbracket ∨ m = .lparen) : afterVariable v place (.mark m) = none := by
  cases place with
  | operand place => exact afterOperand_mark ⟨v.base.pos, .variable v⟩ place h
  | target place => rcases h with rfl | rfl | rfl <;> rfl

theorem base_accepts {base : Located String} {place : VariablePlace}
    (h : Continues (fun t => afterVariable (.whole base) place t.value) vs p) :
    (State.base base place).Accepts vs p := by
  refine h.accepts fun t s hs => ?_
  change afterBase base place t.value = some s
  unfold afterBase
  split
  · next hdot => simp [hdot, afterVariable_mark] at hs
  · next hbracket => simp [hbracket, afterVariable_mark] at hs
  · next hparen => simp [hparen, afterVariable_mark] at hs
  · exact hs

theorem field_accepts {base field : Located String} {place : VariablePlace}
    (h : Continues (fun t => afterVariable (.part base (some field) none) place t.value) vs p) :
    (State.field base field place).Accepts vs p := by
  refine h.accepts fun t s hs => ?_
  change afterField base field place t.value = some s
  unfold afterField
  split
  · next hbracket => simp [hbracket, afterVariable_mark] at hs
  · exact hs

/-- Behind a variable that was closed by a bracket. -/
theorem VariablePlace.close_accepts {v : Variable} {place : VariablePlace}
    (h : Continues (fun t => afterVariable v place t.value) vs p) :
    (place.close v).Accepts vs p := by
  cases place with
  | operand place => exact h.accepts fun _ _ hs => hs
  | target place => exact h.accepts fun _ _ hs => hs

/-- A term may end with a factor. -/
theorem afterOperand_of_afterTerm {factors : List (Located Factor × Mark)}
    {terms : List (Located Term × Mark)} {place : ExpressionPlace} {factor : Located Factor}
    {t : Token} {s : State}
    (h : afterTerm terms place (addFactors factors ⟨factor.pos, .last factor none⟩) t = some s) :
    afterOperand factor ⟨factors, terms, place⟩ t = some s := by
  unfold afterOperand
  split
  · have hnone := (place.close_mark _ .times rfl).symm.trans h
    cases hnone
  · have hnone := (place.close_mark _ .over rfl).symm.trans h
    cases hnone
  · exact h
  · exact h
  · next hplus hminus =>
    rw [OperandPlace.whole_eq, OperandPlace.term_eq]
    simpa [afterTerm, hplus, hminus] using h

/-- An expression may end with a term. -/
theorem afterTerm_of_close {terms : List (Located Term × Mark)} {place : ExpressionPlace}
    {term : Located Term} {t : Token} {s : State}
    (h : place.close (addTerms terms (.last term none)) t = some s) :
    afterTerm terms place term t = some s := by
  unfold afterTerm
  split
  · have hnone := (place.close_mark _ .plus rfl).symm.trans h
    cases hnone
  · have hnone := (place.close_mark _ .minus rfl).symm.trans h
    cases hnone
  · exact h

theorem operandDue_accepts {place : OperandPlace} (h : Continues (startOperand place) vs p) :
    (State.operandDue place).Accepts vs p := h.accepts fun _ _ hs => hs

mutual

/-- What is derived as an expression is read as one. The terms that were read before are kept in the
place, so that the chain is closed with all of them. -/
theorem DerivesExpression.continues {us vs : Tokens} {e : Expression}
    (terms : List (Located Term × Mark)) (place : ExpressionPlace) :
    DerivesExpression us e →
    Continues (fun t => place.close (addTerms terms e) t.value) vs p →
    Continues (startOperand ⟨[], terms, place⟩) (us ++ vs) p
  | .last hterm, hvs =>
    DerivesTerm.continues [] terms place hterm (hvs.mono fun _ _ => afterTerm_of_close)
  | @DerivesExpression.plus _ _ term _ _ hterm hright, hvs => by
    have hrest := DerivesExpression.continues ((term, .plus) :: terms) place hright hvs
    simp only [List.append_assoc]
    exact DerivesTerm.continues [] terms place hterm (.cons rfl (operandDue_accepts hrest))
  | @DerivesExpression.minus _ _ term _ _ hterm hright, hvs => by
    have hrest := DerivesExpression.continues ((term, .minus) :: terms) place hright hvs
    simp only [List.append_assoc]
    exact DerivesTerm.continues [] terms place hterm (.cons rfl (operandDue_accepts hrest))

theorem DerivesTerm.continues {us vs : Tokens} {term : Located Term}
    (factors : List (Located Factor × Mark)) (terms : List (Located Term × Mark))
    (place : ExpressionPlace) :
    DerivesTerm us term →
    Continues (fun t => afterTerm terms place (addFactors factors term) t.value) vs p →
    Continues (startOperand ⟨factors, terms, place⟩) (us ++ vs) p
  | .last hfactor, hvs =>
    DerivesFactor.continues ⟨factors, terms, place⟩ hfactor
      (hvs.mono fun _ _ => afterOperand_of_afterTerm)
  | @DerivesTerm.times _ _ factor _ _ hfactor hright, hvs => by
    have hrest := DerivesTerm.continues ((factor, .times) :: factors) terms place hright hvs
    simp only [List.append_assoc]
    exact DerivesFactor.continues _ hfactor (.cons rfl (operandDue_accepts hrest))
  | @DerivesTerm.over _ _ factor _ _ hfactor hright, hvs => by
    have hrest := DerivesTerm.continues ((factor, .over) :: factors) terms place hright hvs
    simp only [List.append_assoc]
    exact DerivesFactor.continues _ hfactor (.cons rfl (operandDue_accepts hrest))

/-- What is derived as a factor is read as one. -/
theorem DerivesFactor.continues {us vs : Tokens} {factor : Located Factor}
    (place : OperandPlace) :
    DerivesFactor us factor → Continues (fun t => afterOperand factor place t.value) vs p →
    Continues (startOperand place) (us ++ vs) p
  | @DerivesFactor.bracket _ inner start q hinner, hvs => by
    have hclose : Continues (fun t => (ExpressionPlace.bracket start place).close inner t.value)
        ([⟨q, .mark .rparen⟩] ++ vs) p := .cons rfl (hvs.accepts fun _ _ hs => hs)
    have hrest := DerivesExpression.continues [] (.bracket start place) hinner hclose
    simp only [List.append_assoc]
    exact .cons rfl (operandDue_accepts hrest)
  | .constant _ _, hvs => .cons rfl (hvs.accepts fun _ _ hs => hs)
  | .variable hv, hvs =>
    (DerivesVariable.continues (.operand place) hv hvs).mono fun t s hs => by
      rw [startVariable] at hs
      split at hs
      · next hname => simpa [startOperand, hname] using hs
      · cases hs

theorem DerivesVariable.continues {us vs : Tokens} {v : Variable} (place : VariablePlace) :
    DerivesVariable us v → Continues (fun t => afterVariable v place t.value) vs p →
    Continues (startVariable place) (us ++ vs) p
  | .whole _ _, hvs => .cons rfl (base_accepts hvs)
  | .field _ _ _ _ _, hvs => .cons rfl (.cons rfl (.cons rfl (field_accepts hvs)))
  | @DerivesVariable.element _ index q _ r name hindex, hvs => by
    have hclose : Continues
        (fun t => (ExpressionPlace.index ⟨q, name⟩ none place).close index t.value)
        ([⟨r, .mark .rbracket⟩] ++ vs) p := .cons rfl (VariablePlace.close_accepts hvs)
    have hrest := DerivesExpression.continues [] (.index ⟨q, name⟩ none place) hindex hclose
    simp only [List.append_assoc]
    exact .cons rfl (.cons rfl (operandDue_accepts hrest))
  | @DerivesVariable.fieldElement _ index q _ q' _ r name part hindex, hvs => by
    have hclose : Continues
        (fun t => (ExpressionPlace.index ⟨q, name⟩ (some ⟨q', part⟩) place).close index t.value)
        ([⟨r, .mark .rbracket⟩] ++ vs) p := .cons rfl (VariablePlace.close_accepts hvs)
    have hrest := DerivesExpression.continues [] (.index ⟨q, name⟩ (some ⟨q', part⟩) place) hindex
      hclose
    simp only [List.append_assoc]
    exact .cons rfl (.cons rfl (.cons rfl (.cons rfl (operandDue_accepts hrest))))

end

/-- An expression is read up to the token that closes its place. -/
theorem DerivesExpression.accepts {e : Expression} {s : State} (h : DerivesExpression us e)
    (place : ExpressionPlace) (t : Located Token) (hclose : place.close e t.value = some s)
    (hvs : s.Accepts vs p) :
    (State.operandDue (.first place)).Accepts (us ++ ([t] ++ vs)) p :=
  operandDue_accepts (h.continues [] place (.cons hclose hvs))

end SnlFront.Parsing
