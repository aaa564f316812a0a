import SnlFront.Proofs.Grammar.Acceptance

/-!
# What is read as an expression is derived

A row of tokens that is accepted where a part of a program may start begins with a derivation of the
part, and the rest is accepted behind its tree. Parts of a program nest without a bound, so the
induction is on the number of tokens.

## Main statements

* `expression_of_continues`, `term_of_continues`, `factor_of_continues`: what is read where an
  operand may start.
* `base_of_accepts`: what is read behind a name, which is a variable or the start of one, or, in
  front of a statement, a procedure.
-/

namespace SnlFront.Parsing

variable {p : Located Program}


/-- What may follow an operand: a sign of multiplication, or what may follow a term. -/
theorem afterOperand_cases {factor : Located Factor} {factors : List (Located Factor × Mark)}
    {terms : List (Located Term × Mark)} {place : ExpressionPlace} {t : Token} {s : State}
    (h : afterOperand factor ⟨factors, terms, place⟩ t = some s) :
    t = .mark .times ∧ s = .operandDue ⟨(factor, .times) :: factors, terms, place⟩ ∨
    t = .mark .over ∧ s = .operandDue ⟨(factor, .over) :: factors, terms, place⟩ ∨
    afterTerm terms place (addFactors factors ⟨factor.pos, .last factor none⟩) t = some s := by
  unfold afterOperand at h
  split at h
  · cases h
    exact .inl ⟨rfl, rfl⟩
  · cases h
    exact .inr (.inl ⟨rfl, rfl⟩)
  · exact .inr (.inr h)
  · exact .inr (.inr h)
  · next hplus hminus =>
    rw [OperandPlace.whole_eq, OperandPlace.term_eq] at h
    refine .inr (.inr ?_)
    simpa [afterTerm, hplus, hminus] using h

/-- What may follow a term: a sign of addition, or what may follow the whole expression. -/
theorem afterTerm_cases {terms : List (Located Term × Mark)} {place : ExpressionPlace}
    {term : Located Term} {t : Token} {s : State} (h : afterTerm terms place term t = some s) :
    t = .mark .plus ∧ s = .operandDue ⟨[], (term, .plus) :: terms, place⟩ ∨
    t = .mark .minus ∧ s = .operandDue ⟨[], (term, .minus) :: terms, place⟩ ∨
    place.close (addTerms terms (.last term none)) t = some s := by
  unfold afterTerm at h
  split at h
  · cases h
    exact .inl ⟨rfl, rfl⟩
  · cases h
    exact .inr (.inl ⟨rfl, rfl⟩)
  · exact .inr (.inr h)

/-- An operand starts with a bracket, a number or a name. -/
theorem startOperand_cases {place : OperandPlace} {t : Located Token} {s : State}
    (h : startOperand place t = some s) :
    t.value = .mark .lparen ∧ s = .operandDue (.first (.bracket t.pos place)) ∨
    (∃ value, t.value = .number value ∧ s = .operandEnded ⟨t.pos, .constant value⟩ place) ∨
    ∃ name, t.value = .ident name ∧ s = .base ⟨t.pos, name⟩ (.operand place) := by
  grind [startOperand]

/-- Behind a name comes a field, an index, or what may follow a variable. -/
theorem afterBase_cases {base : Located String} {place : VariablePlace} {t : Token} {s : State}
    (h : afterBase base place t = some s) :
    t = .mark .dot ∧ s = .fieldDue base place ∨
    t = .mark .lbracket ∧ s = .operandDue (.first (.index base none place)) ∨
    (∃ outer, place = .target outer ∧ t = .mark .lparen ∧ s = .callOpened base outer) ∨
    afterVariable (.whole base) place t = some s := by
  unfold afterBase at h
  grind

theorem afterField_cases {base field : Located String} {place : VariablePlace} {t : Token}
    {s : State} (h : afterField base field place t = some s) :
    t = .mark .lbracket ∧ s = .operandDue (.first (.index base (some field) place)) ∨
    afterVariable (.part base (some field) none) place t = some s := by
  unfold afterField at h
  grind

/-- Behind a variable, what its place allows comes next. -/
theorem VariablePlace.continues_of_close {v : Variable} {place : VariablePlace} {ts : Tokens}
    (h : (place.close v).Accepts ts p) :
    Continues (fun t => afterVariable v place t.value) ts p := by
  cases place with
  | operand place => exact h.continues rfl
  | target place => exact h.continues rfl

/-- What a name is read as that is, or starts, a variable: a call, or a variable. -/
def ReadsBase (base : Located String) (place : VariablePlace) (p : Located Program)
    (ts : Tokens) : Prop :=
  (∃ outer q us, place = .target outer ∧ ts = [⟨q, .mark .lparen⟩] ++ us ∧
    (State.callOpened base outer).Accepts us p) ∨
  Begins (fun us v => DerivesVariable ([⟨base.pos, .ident base.value⟩] ++ us) v)
    (fun v rest => Continues (fun t => afterVariable v place t.value) rest p) ts

mutual

/-- Where an expression may start, an expression is read. -/
theorem expression_of_continues (terms : List (Located Term × Mark)) (place : ExpressionPlace)
    (ts : Tokens) (h : Continues (startOperand ⟨[], terms, place⟩) ts p) :
    Begins DerivesExpression
      (fun e rest => Continues (fun t => place.close (addTerms terms e) t.value) rest p) ts := by
  obtain ⟨us, vs, term, hts, hterm, ⟨q, value⟩, ws, s, hvs, hs, hws⟩ :=
    term_of_continues [] terms place ts h
  have hlength : ws.length < ts.length := by
    simp only [hts, hvs, List.length_append, List.length_cons]
    omega
  -- A sign leads to the right part of the chain, with the term among those before it.
  rcases afterTerm_cases hs with ⟨rfl, rfl⟩ | ⟨rfl, rfl⟩ | hclose
  · obtain ⟨xs, ys, right, hxs, hright, hys⟩ :=
      expression_of_continues ((term, .plus) :: terms) place ws (hws.continues rfl)
    refine ⟨us ++ [⟨q, .mark .plus⟩] ++ xs, ys, _, ?_, .plus q hterm hright, hys⟩
    simp [hts, hvs, hxs]
  · obtain ⟨xs, ys, right, hxs, hright, hys⟩ :=
      expression_of_continues ((term, .minus) :: terms) place ws (hws.continues rfl)
    refine ⟨us ++ [⟨q, .mark .minus⟩] ++ xs, ys, _, ?_, .minus q hterm hright, hys⟩
    simp [hts, hvs, hxs]
  · exact ⟨us, vs, _, hts, .last hterm, _, ws, s, hvs, hclose, hws⟩
termination_by (ts.length, 3)

/-- Terms are read in the same way, one level further in. The factors that were read before are kept
in the place. -/
theorem term_of_continues (factors : List (Located Factor × Mark))
    (terms : List (Located Term × Mark)) (place : ExpressionPlace) (ts : Tokens)
    (h : Continues (startOperand ⟨factors, terms, place⟩) ts p) :
    Begins DerivesTerm (fun term rest =>
      Continues (fun t => afterTerm terms place (addFactors factors term) t.value) rest p) ts := by
  obtain ⟨us, vs, factor, hts, hfactor, ⟨q, value⟩, ws, s, hvs, hs, hws⟩ :=
    factor_of_continues ⟨factors, terms, place⟩ ts h
  have hlength : ws.length < ts.length := by
    simp only [hts, hvs, List.length_append, List.length_cons]
    omega
  rcases afterOperand_cases hs with ⟨rfl, rfl⟩ | ⟨rfl, rfl⟩ | hafter
  · obtain ⟨xs, ys, right, hxs, hright, hys⟩ :=
      term_of_continues ((factor, .times) :: factors) terms place ws (hws.continues rfl)
    refine ⟨us ++ [⟨q, .mark .times⟩] ++ xs, ys, _, ?_, .times q hfactor hright, hys⟩
    simp [hts, hvs, hxs]
  · obtain ⟨xs, ys, right, hxs, hright, hys⟩ :=
      term_of_continues ((factor, .over) :: factors) terms place ws (hws.continues rfl)
    refine ⟨us ++ [⟨q, .mark .over⟩] ++ xs, ys, _, ?_, .over q hfactor hright, hys⟩
    simp [hts, hvs, hxs]
  · exact ⟨us, vs, _, hts, .last hfactor, _, ws, s, hvs, hafter, hws⟩
termination_by (ts.length, 2)

/-- What is read as a factor was derived as one. -/
theorem factor_of_continues (place : OperandPlace) (ts : Tokens)
    (h : Continues (startOperand place) ts p) :
    Begins DerivesFactor
      (fun factor rest => Continues (fun t => afterOperand factor place t.value) rest p) ts := by
  obtain ⟨⟨q, value⟩, us, s, hts, hs, hus⟩ := h
  have hlength : us.length < ts.length := by simp [hts]
  rcases startOperand_cases hs with ⟨rfl, rfl⟩ | ⟨value, rfl, rfl⟩ | ⟨name, rfl, rfl⟩
  · obtain ⟨vs, r, ws, inner, hvs, hinner, hws⟩ :=
      (expression_of_continues [] (.bracket q place) us (hus.continues rfl)).expect
        (.mark .rparen) (fun inner => .operandEnded ⟨q, .bracket inner⟩ place)
        (by grind [ExpressionPlace.close, addTerms])
    refine ⟨[⟨q, .mark .lparen⟩] ++ vs ++ [⟨r, .mark .rparen⟩], ws, _, ?_, .bracket q r hinner,
      hws.continues rfl⟩
    simp [hts, hvs]
  · exact ⟨[_], us, _, hts, .constant q value, hus.continues rfl⟩
  · rcases base_of_accepts ⟨q, name⟩ (.operand place) us hus with
      ⟨_, _, _, hplace, -⟩ | ⟨vs, ws, v, hvs, hv, hws⟩
    · cases hplace
    · refine ⟨[⟨q, .ident name⟩] ++ vs, ws, _, ?_, .variable hv, hws⟩
      simp [hts, hvs]
termination_by (ts.length, 1)

/-- What is read behind the name of a variable is a field, an index, both or neither. -/
theorem base_of_accepts (base : Located String) (place : VariablePlace) (ts : Tokens)
    (h : (State.base base place).Accepts ts p) : ReadsBase base place p ts := by
  obtain ⟨⟨q, value⟩, us, s, hts, hs, hus⟩ := h.step rfl
  have hlength : us.length < ts.length := by simp [hts]
  rcases afterBase_cases hs with ⟨rfl, rfl⟩ | ⟨rfl, rfl⟩ | ⟨outer, rfl, rfl, rfl⟩ | hafter
  · obtain ⟨r, part, vs, hvs, hfield⟩ := (hus.continues rfl).expectOf .ident
      (fun r part => .field base ⟨r, part⟩ place) (by grind [State.push])
    obtain ⟨⟨r', value⟩, ws, s, hws, hs, hrest⟩ := hfield.step rfl
    have hlength' : ws.length < ts.length := by
      simp only [hts, hvs, hws, List.length_append, List.length_cons]
      omega
    rcases afterField_cases hs with ⟨rfl, rfl⟩ | hafter
    · obtain ⟨xs, r'', ys, index, hxs, hindex, hys⟩ :=
        (expression_of_continues [] (.index base (some ⟨r, part⟩) place) ws
          (hrest.continues rfl)).expect (.mark .rbracket)
          (fun index => place.close (.part base (some ⟨r, part⟩) (some index)))
          (by grind [ExpressionPlace.close, addTerms])
      refine .inr ⟨[⟨q, .mark .dot⟩, ⟨r, .ident part⟩, ⟨r', .mark .lbracket⟩] ++ xs
        ++ [⟨r'', .mark .rbracket⟩], ys, _, ?_,
        .fieldElement base.pos q r r' r'' base.value part hindex,
        VariablePlace.continues_of_close hys⟩
      simp [hts, hvs, hws, hxs]
    · refine .inr ⟨[⟨q, .mark .dot⟩, ⟨r, .ident part⟩], vs, _, ?_,
        .field base.pos q r base.value part, _, ws, s, hws, hafter, hrest⟩
      simp [hts, hvs]
  · obtain ⟨vs, r, ws, index, hvs, hindex, hws⟩ :=
      (expression_of_continues [] (.index base none place) us (hus.continues rfl)).expect
        (.mark .rbracket) (fun index => place.close (.part base none (some index)))
        (by grind [ExpressionPlace.close, addTerms])
    refine .inr ⟨[⟨q, .mark .lbracket⟩] ++ vs ++ [⟨r, .mark .rbracket⟩], ws, _, ?_,
      .element base.pos q r base.value hindex, VariablePlace.continues_of_close hws⟩
    simp [hts, hvs]
  · exact .inl ⟨outer, q, us, rfl, hts, hus⟩
  · exact .inr ⟨[], ts, _, rfl, .whole base.pos base.value, _, us, s, hts, hafter, hus⟩
termination_by (ts.length, 0)

end

end SnlFront.Parsing
