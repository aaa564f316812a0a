import SnlFront.Parsing.State
import SnlFront.Proofs.Grammar.Derivation

/-!
# Accepted rows of tokens

A state accepts the rows of tokens that complete it to a program. To speak of the point just behind
a part of a program, whose state depends on how the part ended, one only says what the next token
does: a row of tokens continues a function if its first token leads to a state that accepts the
others.

## Main definitions

* `State.Accepts`: tokens complete a state to a program.
* `Continues`: the first token leads to a state that accepts the others.
* `Begins`: a row of tokens begins with a derived part.
* `afterGroup`, `afterTerm`, `afterArgument`, `afterParameter`, `afterTypes`: what a token does
  behind such a part.
-/

namespace SnlFront.Parsing

/-- Some tokens complete a state to a program. -/
def State.Accepts (s : State) (ts : Tokens) (p : Located Program) : Prop :=
  s.pushAll ts = some (.complete p)

/-- The first token leads to a state that accepts the others. -/
def Continues (next : Located Token → Option State) (ts : Tokens) (p : Located Program) : Prop :=
  ∃ t us s, ts = t :: us ∧ next t = some s ∧ s.Accepts us p

variable {s : State} {ts us vs : Tokens} {p : Located Program}
  {next other : Located Token → Option State}

theorem State.Accepts.cons {t : Located Token} {s' : State} (h : s.push t = some s')
    (h' : s'.Accepts us p) : s.Accepts (t :: us) p := by
  rw [Accepts, pushAll, h]
  exact h'

theorem Continues.cons {t : Located Token} (h : next t = some s) (hs : s.Accepts us p) :
    Continues next (t :: us) p := ⟨t, us, s, rfl, h, hs⟩

/-- What a token may do elsewhere it may do here. -/
theorem Continues.mono (h : Continues next ts p)
    (hnext : ∀ t s, next t = some s → other t = some s) : Continues other ts p := by
  obtain ⟨t, us, s, hts, hs, hus⟩ := h
  exact ⟨t, us, s, hts, hnext t s hs, hus⟩

theorem Continues.accepts (h : Continues next ts p)
    (hnext : ∀ t s', next t = some s' → s.push t = some s') : s.Accepts ts p := by
  obtain ⟨t, us, s', hts, hs', hus⟩ := h
  subst hts
  exact State.Accepts.cons (hnext t s' hs') hus

/-- A program that is not complete yet goes on with a token. -/
theorem State.Accepts.step (h : s.Accepts ts p) (hs : s.program? = none) :
    ∃ t us s', ts = t :: us ∧ s.push t = some s' ∧ s'.Accepts us p := by
  cases ts with
  | nil =>
    have hcomplete : s = .complete p := by simpa [Accepts, pushAll] using h
    rw [hcomplete] at hs
    cases hs
  | cons t us =>
    obtain ⟨s', hs', hus⟩ := Option.bind_eq_some_iff.1 h
    exact ⟨t, us, s', rfl, hs', hus⟩

theorem State.Accepts.continues (h : s.Accepts ts p) (hs : s.program? = none) :
    Continues (fun t => s.push t) ts p := h.step hs

/-- Nothing follows a complete program. -/
theorem State.Accepts.eq_of_complete {program : Located Program}
    (h : (State.complete program).Accepts ts p) : ts = [] ∧ p = program := by
  cases ts with
  | nil =>
    have hcomplete : program = p := by simpa [Accepts, pushAll] using h
    exact ⟨rfl, hcomplete.symm⟩
  | cons t us => cases h

/-- If only one token may follow, it does. -/
theorem Continues.expect (token : Token) (s : State) (h : Continues next ts p)
    (hnext : ∀ t s', next t = some s' → t.value = token ∧ s' = s) :
    ∃ q us, ts = [⟨q, token⟩] ++ us ∧ s.Accepts us p := by
  obtain ⟨⟨q, value⟩, us, s', hts, hs', hus⟩ := h
  obtain ⟨hvalue, hstate⟩ := hnext _ _ hs'
  subst hvalue hstate
  exact ⟨q, us, hts, hus⟩

/-- If only tokens of one kind may follow, one of them does. -/
theorem Continues.expectOf {α : Type} (token : α → Token) (state : Position → α → State)
    (h : Continues next ts p)
    (hnext : ∀ t s', next t = some s' → ∃ a, t.value = token a ∧ s' = state t.pos a) :
    ∃ q a us, ts = [⟨q, token a⟩] ++ us ∧ (state q a).Accepts us p := by
  obtain ⟨⟨q, value⟩, us, s', hts, hs', hus⟩ := h
  obtain ⟨a, hvalue, hstate⟩ := hnext _ _ hs'
  subst hvalue hstate
  exact ⟨q, a, us, hts, hus⟩

/-- A row of tokens begins with a derived part, and what is left of it has a property. -/
def Begins {α : Type} (derives : Tokens → α → Prop) (rest : α → Tokens → Prop) (ts : Tokens) :
    Prop :=
  ∃ us vs tree, ts = us ++ vs ∧ derives us tree ∧ rest tree vs

/-- If only one token may follow a part, it does. -/
theorem Begins.expect {α : Type} {derives : Tokens → α → Prop}
    {next : α → Located Token → Option State} {ts : Tokens}
    (h : Begins derives (fun tree rest => Continues (next tree) rest p) ts) (token : Token)
    (state : α → State)
    (hnext : ∀ tree t s, next tree t = some s → t.value = token ∧ s = state tree) :
    ∃ us q vs tree, ts = us ++ [⟨q, token⟩] ++ vs ∧ derives us tree ∧
      (state tree).Accepts vs p := by
  obtain ⟨us, vs, tree, hts, hus, hvs⟩ := h
  obtain ⟨q, ws, hws, hrest⟩ := hvs.expect token (state tree) (hnext tree)
  refine ⟨us, q, ws, tree, ?_, hus, hrest⟩
  rw [hts, hws, List.append_assoc]

/-! ## Groups -/

/-- A token behind the last name of a group. -/
def afterGroup (group : Group) (place : GroupPlace) (t : Located Token) : Option State :=
  match t.value with
  | .mark mark => place.close group mark
  | _ => none

theorem GroupPlace.close_comma (group : Group) (place : GroupPlace) :
    place.close group .comma = none := by
  cases place <;> rfl

/-- A group is located at its type. -/
theorem DerivesGroup.pos_eq {group : Located Group} (h : DerivesGroup us group) :
    group = ⟨group.value.type.pos, group.value⟩ := by
  cases h
  rfl

/-! ## Expressions -/

/-- Put terms with their signs in front of an expression, the nearest first. -/
def addTerms (terms : List (Located Term × Mark)) (e : Expression) : Expression :=
  terms.foldl (fun right left => .chain left.1 (some left.2.text) ⟨right.left.pos, right⟩) e

/-- Put factors with their signs in front of a term, the nearest first. -/
def addFactors (factors : List (Located Factor × Mark)) (term : Located Term) : Located Term :=
  factors.foldl (fun right left => ⟨left.1.pos, .chain left.1 (some left.2.text) right⟩) term

theorem OperandPlace.term_eq (q : OperandPlace) (last : Located Factor) :
    q.term last = addFactors q.factors ⟨last.pos, .last last none⟩ := rfl

/-- The right parts of a chain are located at their first terms. -/
theorem OperandPlace.whole_eq (q : OperandPlace) (last : Located Factor) :
    q.whole last = addTerms q.terms (.last (q.term last) none) := by
  have hfold : ∀ (terms : List (Located Term × Mark)) (e : Expression),
      (terms.foldl (fun right left => ⟨left.1.pos, .chain left.1 (some left.2.text) right⟩)
        (⟨e.left.pos, e⟩ : Located Expression)).value = addTerms terms e := by
    intro terms
    induction terms with
    | nil => exact fun _ => rfl
    | cons term terms ih => exact fun e => ih (.chain term.1 (some term.2.text) ⟨e.left.pos, e⟩)
  exact hfold q.terms (.last (q.term last) none)

/-- A token behind a term. -/
def afterTerm (terms : List (Located Term × Mark)) (place : ExpressionPlace)
    (term : Located Term) (t : Token) : Option State :=
  match t with
  | .mark .plus => some (.operandDue ⟨[], (term, .plus) :: terms, place⟩)
  | .mark .minus => some (.operandDue ⟨[], (term, .minus) :: terms, place⟩)
  | _ => place.close (addTerms terms (.last term none)) t

/-- A token behind an argument. -/
def afterArgument (procedure : Located String) (arguments : List Expression)
    (place : StatementPlace) (t : Token) : Option State :=
  match t with
  | .mark .comma => some (.operandDue (.first (.argument procedure arguments place)))
  | .mark .rparen =>
    some (.statementEnded (place.add (.call ⟨procedure.pos, procedure.value, arguments⟩)))
  | _ => none

/-- The marks by which an operand goes on, or would start to. -/
def continuesOperand : Mark → Bool
  | .dot | .lbracket | .lparen | .times | .over | .plus | .minus => true
  | _ => false

/-- No expression ends in front of a mark by which an operand goes on. -/
theorem ExpressionPlace.close_mark (e : Expression) (place : ExpressionPlace) (m : Mark)
    (h : continuesOperand m = true) : place.close e (.mark m) = none := by
  cases place <;> cases m <;> first | rfl | cases h

/-! ## Statements -/

/-- What ends a list of statements starts none. -/
theorem startStatement_of_endStatements {place : StatementPlace} {t : Located Token} {s : State}
    (h : endStatements place t.value = some s) : startStatement place t = none := by
  obtain ⟨q, value⟩ := t
  cases value with
  | ident | number | mark => cases h
  | keyword word =>
    obtain ⟨before, block⟩ := place
    cases word <;> first | rfl | (cases block <;> cases h)

/-! ## Declarations -/

/-- A token behind a parameter. -/
def afterParameter (params : List (Located Parameter)) (name : Located String) (outer : Outline)
    (t : Token) : Option State :=
  match t with
  | .mark .semi => some (.paramDue params name outer)
  | .mark .rparen => some (.paramsClosed params name outer)
  | _ => none

theorem afterGroup_params (group : Group) (reference : Option Position)
    (before : List (Located Parameter)) (name : Located String) (outer : Outline) :
    afterGroup group (.params reference before name outer) = fun t =>
      afterParameter (before ++ [parameter reference group]) name outer t.value := by
  funext t
  obtain ⟨q, value⟩ := t
  cases value with
  | ident | number | keyword => rfl
  | mark mark => cases mark <;> rfl

/-- A token behind the types of a level. -/
def afterTypes (outline : Outline) (t : Token) : Option State :=
  match t with
  | .keyword .var => some (.declaring .varsOpened outline)
  | _ => startProcedureOrBody outline t

end SnlFront.Parsing
