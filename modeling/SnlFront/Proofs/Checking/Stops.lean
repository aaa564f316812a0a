import SnlFront.Proofs.Scope.Frames
import SnlFront.Proofs.Syntax.Unfinished

/-!
# Where the analysis stops

Nothing that is wrong with a program keeps the analysis from going on: after a report it looks at
the parts that follow, whatever was found before. It stops only at a hole. So whether it comes to
the end depends on the holes alone, and the only holes that it passes by are those in the types of
aliases whose names are taken.

## Main definitions

* `Logged.StopsIff`, `ScopeM.StopsIff`: a computation stops at a hole exactly under a condition.
* `Scope.Takes`: the names that the innermost frame knows.

## Main statements

* `Logged.StopsIff.bind`, `ScopeM.StopsIff.bind`: two steps in a row.
* `Expression.stops_check`, `Statement.stops_checkAll`, `TypeExpr.stops_check`: every part is looked
  at.
* `stops_declareTypes`: the types of aliases, as far as their names are not taken.
* `Program.analyze_eq_unfinished_iff`: the analysis of a program stops exactly if the program is
  unfinished.
-/

namespace SnlFront

namespace Logged

variable {ω α β : Type} {P Q : Prop}

/-- The computation stops at a hole if a condition holds, and comes to a value if not. -/
structure StopsIff (x : Logged ω α) (stop : Prop) : Prop where
  stops : stop → x.value = .error .unfinished
  ends : ¬ stop → ∃ a, x.value = .ok a

theorem stops_pure (a : α) : (Pure.pure a : Logged ω α).StopsIff False :=
  ⟨False.elim, fun _ => ⟨a, rfl⟩⟩

theorem stops_note (n : ω) : (note n).StopsIff False := ⟨False.elim, fun _ => ⟨(), rfl⟩⟩

theorem stops_demand (condition : Bool) (n : ω) : (demand condition n).StopsIff False := by
  cases condition with
  | true => exact stops_pure ()
  | false => exact stops_note n

theorem stops_fail : (fail .unfinished : Logged ω α).StopsIff True :=
  ⟨fun _ => rfl, fun h => absurd trivial h⟩

/-- A condition may be replaced by an equivalent one. -/
theorem StopsIff.congr {x : Logged ω α} (hx : x.StopsIff P) (h : Q ↔ P) : x.StopsIff Q :=
  ⟨fun hq => hx.stops (h.1 hq), fun hq => hx.ends fun hp => hq (h.2 hp)⟩

/-- Two steps in a row stop if one of them does. -/
theorem StopsIff.bind {x : Logged ω α} {f : α → Logged ω β} (hx : x.StopsIff P)
    (hf : ∀ a, (f a).StopsIff Q) : (x >>= f).StopsIff (P ∨ Q) := by
  by_cases hp : P
  · have hvalue := hx.stops hp
    refine ⟨fun _ => ?_, fun hnone => absurd (.inl hp) hnone⟩
    rw [bind_of_error hvalue]
  · obtain ⟨a, ha⟩ := hx.ends hp
    have hrest := (hf a).congr (or_iff_right hp)
    constructor
    · rw [value_bind_of_ok ha]
      exact hrest.stops
    · rw [value_bind_of_ok ha]
      exact hrest.ends

/-- What follows may have no reason to stop. -/
theorem StopsIff.bind_ends {x : Logged ω α} {f : α → Logged ω β} (hx : x.StopsIff P)
    (hf : ∀ a, (f a).StopsIff False) : (x >>= f).StopsIff P :=
  (hx.bind hf).congr (iff_of_eq (or_false P)).symm

/-- What comes first may have no reason to stop. -/
theorem StopsIff.ends_bind {x : Logged ω α} {f : α → Logged ω β} (hx : x.StopsIff False)
    (hf : ∀ a, (f a).StopsIff Q) : (x >>= f).StopsIff Q :=
  (hx.bind hf).congr (iff_of_eq (false_or Q)).symm

/-- Two steps in a row, each of which stops if it meets a hole. -/
theorem StopsIff.bind_and {x : Logged ω α} {f : α → Logged ω β} {b c : Bool}
    (hx : x.StopsIff (b = false)) (hf : ∀ a, (f a).StopsIff (c = false)) :
    (x >>= f).StopsIff ((b && c) = false) :=
  (hx.bind hf).congr Bool.and_eq_false_iff

end Logged

section Trees

open Logged

/-! ## Expressions -/

theorem stops_report (p : Position) (d : Diagnostic) : (report p d).StopsIff False := stops_note _

theorem stops_require (condition : Bool) (p : Position) (d : Diagnostic) :
    (require condition p d).StopsIff False := stops_demand condition _

variable (s : Scope)

theorem stops_report_unknown (p : Position) (d : Diagnostic) :
    (do report p d; return Ty.unknown : Checked Ty).StopsIff False :=
  (stops_report p d).ends_bind fun _ => stops_pure _

/-- Names that stand for nothing are reported. They do not stop the analysis. -/
theorem stops_checkBase (base : Located String) : (checkBase s base).StopsIff False := by
  rw [checkBase]
  split
  · exact stops_report_unknown _ _
  · exact stops_pure _
  · exact stops_report_unknown _ _

theorem stops_checkField (τ : Ty) (field : Option (Located String)) :
    (checkField τ field).StopsIff False := by
  cases field with
  | none => exact stops_pure _
  | some field =>
    cases τ with
    | unknown => exact stops_pure _
    | record fields =>
      rw [checkField]
      split
      · exact stops_pure _
      · exact stops_report_unknown _ _
    | integer | char | array base lower upper => exact stops_report_unknown _ _

theorem stops_checkElement (τ : Ty) (p : Position) (index : Ty) :
    (checkElement τ p index).StopsIff False := by
  cases τ with
  | unknown => exact stops_pure _
  | array base lower upper => exact (stops_require _ _ _).ends_bind fun _ => stops_pure _
  | integer | char | record fields => exact stops_report_unknown _ _

/-- Two operands are both looked at, whether or not they are compatible. -/
theorem stops_operands {left right : Checked Ty} {b c : Bool} (p : Position)
    (hleft : left.StopsIff (b = false)) (hright : right.StopsIff (c = false)) :
    (do
      let type ← left
      let other ← right
      require (type.compatible other) p (.incompatibleType type other)
      return type).StopsIff ((b && c) = false) := by
  refine hleft.bind_and fun type => ?_
  refine hright.bind_ends fun other => ?_
  exact (stops_require _ _ _).ends_bind fun _ => stops_pure _

mutual

/-- Expressions are looked at as a whole, whatever is wrong with their parts. So are terms, factors
and variables. -/
theorem Expression.stops_check : (e : Expression) → (e.check s).StopsIff (e.holeFree = false)
  | .last ⟨_, left⟩ _ => by
    rw [Expression.check, Expression.holeFree]
    exact Term.stops_check left
  | .chain ⟨_, left⟩ _ ⟨p, right⟩ => by
    rw [Expression.check, Expression.holeFree]
    exact stops_operands p (Term.stops_check left) (Expression.stops_check right)

theorem Term.stops_check : (t : Term) → (t.check s).StopsIff (t.holeFree = false)
  | .last ⟨_, left⟩ _ => by
    rw [Term.check, Term.holeFree]
    exact Factor.stops_check left
  | .chain ⟨_, left⟩ _ ⟨p, right⟩ => by
    rw [Term.check, Term.holeFree]
    exact stops_operands p (Factor.stops_check left) (Term.stops_check right)

theorem Factor.stops_check : (f : Factor) → (f.check s).StopsIff (f.holeFree = false)
  | .bracket inner => by
    rw [Factor.check, Factor.holeFree]
    exact Expression.stops_check inner
  | .constant _ => by
    rw [Factor.check, Factor.holeFree, Bool.true_eq_false]
    exact stops_pure _
  | .variable v => by
    rw [Factor.check, Factor.holeFree]
    exact Variable.stops_check v
  | .hole => stops_fail.congr (iff_of_true rfl trivial)

theorem Variable.stops_check : (v : Variable) → (v.check s).StopsIff (v.holeFree = false)
  | .whole base => by
    rw [Variable.check, Variable.holeFree, Bool.true_eq_false]
    exact stops_checkBase s base
  | .part base field none => by
    rw [Variable.check, Variable.holeFree, Bool.true_eq_false]
    exact (stops_checkBase s base).ends_bind fun type => stops_checkField type field
  | .part base field (some index) => by
    rw [Variable.check, Variable.holeFree]
    refine (stops_checkBase s base).ends_bind fun type => ?_
    refine (stops_checkField type field).ends_bind fun type => ?_
    exact (Expression.stops_check index).bind_ends fun _ => stops_checkElement _ _ _

end

/-! ## Statements -/

theorem stops_checkOperand (e : Expression) : (checkOperand s e).StopsIff (e.holeFree = false) :=
  (e.stops_check s).bind_ends fun _ => stops_require _ _ _

theorem Relation.stops_check (r : Relation) : (r.check s).StopsIff (r.holeFree = false) :=
  (stops_checkOperand s r.left).bind_and fun _ => stops_checkOperand s r.right

theorem stops_checkInput (name : Located String) : (checkInput s name).StopsIff False := by
  rw [checkInput]
  split
  · exact stops_report _ _
  · exact stops_require _ _ _
  · exact stops_report _ _

/-- Both sides of an assignment are looked at, whatever the target is. -/
theorem stops_checkAssignment (target : Variable) (value : Expression) :
    (checkAssignment s target value).StopsIff ((target.holeFree && value.holeFree) = false) := by
  refine (target.stops_check s).bind_and fun expected => ?_
  refine (value.stops_check s).bind_ends fun got => ?_
  cases expected.isUnknown with
  | true => exact stops_report _ _
  | false => exact stops_require _ _ _

/-- Every argument is looked at, also one without a parameter. -/
theorem stops_checkArguments (params : List Ty) (arguments : List Expression) :
    (checkArguments s params arguments).StopsIff (arguments.all Expression.holeFree = false) := by
  induction arguments generalizing params with
  | nil =>
    rw [checkArguments, List.all_nil, Bool.true_eq_false]
    exact stops_pure _
  | cons argument arguments ih =>
    rw [List.all_cons]
    cases params with
    | nil =>
      rw [checkArguments]
      exact (argument.stops_check s).bind_and fun _ => ih []
    | cons param params =>
      rw [checkArguments]
      refine (argument.stops_check s).bind_and fun type => ?_
      exact (stops_require _ _ _).ends_bind fun _ => ih params

/-- A call of something other than a procedure is reported, and the analysis goes on. -/
theorem stops_checkCallee (p : Position) (call : Call) :
    (checkCallee s p call).StopsIff False := by
  rw [checkCallee]
  split
  · exact (stops_report _ _).ends_bind fun _ => stops_pure _
  · exact (stops_require _ _ _).ends_bind fun _ => stops_pure _
  · exact (stops_report _ _).ends_bind fun _ => stops_pure _

theorem Call.stops_check (call : Located Call) :
    (Call.check s call).StopsIff (call.value.holeFree = false) :=
  (stops_checkCallee s call.pos call.value).ends_bind fun params =>
    stops_checkArguments s params call.value.arguments

mutual

/-- Statements are looked at as a whole, with everything inside branches and loops. -/
theorem Statement.stops_check : (statement : Statement) →
    (statement.check s).StopsIff (statement.holeFree = false)
  | .conditional condition body otherwise => by
    rw [Statement.check, Statement.holeFree, Bool.and_assoc]
    refine (condition.stops_check s).bind_and fun _ => ?_
    exact (Statement.stops_checkAll body).bind_and fun _ => Statement.stops_checkAll otherwise
  | .loop condition body => by
    rw [Statement.check, Statement.holeFree]
    exact (condition.stops_check s).bind_and fun _ => Statement.stops_checkAll body
  | .input name => by
    rw [Statement.check, Statement.holeFree, Bool.true_eq_false]
    exact stops_checkInput s name
  | .output value => by
    rw [Statement.check, Statement.holeFree]
    exact (value.stops_check s).bind_ends fun _ => stops_require _ _ _
  | .result value => by
    rw [Statement.check, Statement.holeFree]
    exact (value.stops_check s).bind_ends fun _ => stops_pure _
  | .assign target value => by
    rw [Statement.check, Statement.holeFree]
    exact stops_checkAssignment s target value
  | .call called => by
    rw [Statement.check, Statement.holeFree]
    exact Call.stops_check s called
  | .hole => stops_fail.congr (iff_of_true rfl trivial)

/-- A row of statements stops exactly if one of them does. -/
theorem Statement.stops_checkAll : (statements : List Statement) →
    (Statement.checkAll s statements).StopsIff (Statement.allHoleFree statements = false)
  | [] => by
    rw [Statement.checkAll, Statement.allHoleFree, Bool.true_eq_false]
    exact stops_pure _
  | statement :: statements => by
    rw [Statement.checkAll, Statement.allHoleFree]
    exact (Statement.stops_check statement).bind_and fun _ => Statement.stops_checkAll statements

end

/-! ## Types -/

theorem stops_reportRepeated (seen : List String) (names : List (Located String)) :
    (reportRepeated seen names).StopsIff False := by
  induction names generalizing seen with
  | nil => exact stops_pure _
  | cons name names ih => exact (stops_require _ _ _).ends_bind fun _ => ih _

mutual

/-- A type expression is looked at as a whole, also behind a repeated field. -/
theorem TypeExpr.stops_validate (p : Position) : (t : TypeExpr) →
    (t.validate s p).StopsIff (t.holeFree = false)
  | .integer | .char => by
    rw [TypeExpr.validate, TypeExpr.holeFree, Bool.true_eq_false]
    exact stops_pure _
  | .array base lower upper => by
    rw [TypeExpr.validate, TypeExpr.holeFree, Bool.true_eq_false]
    exact stops_require _ _ _
  | .record fields => by
    rw [TypeExpr.validate, TypeExpr.holeFree]
    exact Group.stops_validateAll [] fields
  | .named name => by
    rw [TypeExpr.validate, TypeExpr.holeFree, Bool.true_eq_false]
    exact stops_require _ _ _
  | .hole => stops_fail.congr (iff_of_true rfl trivial)

theorem Group.stops_validateAll : (seen : List String) → (groups : List Group) →
    (Group.validateAll s seen groups).StopsIff (Group.allHoleFree groups = false)
  | _, [] => by
    rw [Group.validateAll, Group.allHoleFree, Bool.true_eq_false]
    exact stops_pure _
  | seen, ⟨⟨p, type⟩, names⟩ :: groups => by
    rw [Group.validateAll, Group.allHoleFree]
    refine (TypeExpr.stops_validate p type).bind_and fun _ => ?_
    refine (stops_reportRepeated seen names).ends_bind fun _ => ?_
    exact Group.stops_validateAll _ groups

end

mutual

/-- A type expression without holes denotes a type in every scope. -/
theorem TypeExpr.resolve_eq_ok (s : Scope) : (t : TypeExpr) → t.holeFree = true →
    ∃ τ, t.resolve s = .ok τ
  | .integer, _ => ⟨_, rfl⟩
  | .char, _ => ⟨_, rfl⟩
  | .array _ _ _, _ => ⟨_, rfl⟩
  | .record groups, h => by
    obtain ⟨members, hmembers⟩ := Group.resolveMembers_eq_ok s groups h
    exact ⟨Ty.ofMembers members, by rw [TypeExpr.resolve, hmembers]; rfl⟩
  | .named _, _ => ⟨_, rfl⟩
  | .hole, h => by cases h

theorem Group.resolveMembers_eq_ok (s : Scope) : (groups : List Group) →
    Group.allHoleFree groups = true → ∃ members, Group.resolveMembers s groups = .ok members
  | [], _ => ⟨_, rfl⟩
  | ⟨⟨p, type⟩, names⟩ :: groups, h => by
    have hparts : type.holeFree = true ∧ Group.allHoleFree groups = true := by
      simpa [Group.allHoleFree] using h
    obtain ⟨τ, hτ⟩ := TypeExpr.resolve_eq_ok s type hparts.1
    obtain ⟨members, hmembers⟩ := Group.resolveMembers_eq_ok s groups hparts.2
    refine ⟨names.map (fun name => (name.value, τ)) ++ members, ?_⟩
    rw [Group.resolveMembers, hτ, hmembers]
    rfl

end

/-- A type expression is looked at twice, and already the first look stops at a hole. -/
theorem TypeExpr.stops_check (t : Located TypeExpr) :
    (TypeExpr.check s t).StopsIff (t.value.holeFree = false) := by
  have hfirst := t.value.stops_validate s t.pos
  cases hholes : t.value.holeFree with
  | false =>
    have hstops := hfirst.stops hholes
    refine ⟨fun _ => ?_, fun h => absurd rfl h⟩
    rw [TypeExpr.check, bind_of_error hstops]
  | true =>
    obtain ⟨τ, hτ⟩ := t.value.resolve_eq_ok s hholes
    rw [hholes] at hfirst
    rw [TypeExpr.check, hτ]
    exact hfirst.bind_ends fun _ => ⟨False.elim, fun _ => ⟨τ, rfl⟩⟩

end Trees

/-! ## Computations in a scope -/

namespace ScopeM

variable {ω α β : Type} {P Q : Prop} {s : Scope}

/-- Run in a scope, the computation stops at a hole if a condition holds. If not, it comes to a
value, and the value and the scope behind it have a property. -/
structure StopsIff (x : ScopeM ω α) (s : Scope) (stop : Prop) (after : α → Scope → Prop) :
    Prop where
  stops : stop → (x.run s).2.value = .error .unfinished
  ends : ¬ stop → ∃ a, (x.run s).2.value = .ok a ∧ after a (x.run s).1

theorem stops_pure {a : α} {after : α → Scope → Prop} (h : after a s) :
    (Pure.pure a : ScopeM ω α).StopsIff s False after := ⟨False.elim, fun _ => ⟨a, rfl, h⟩⟩

theorem stops_read {f : Scope → Logged ω α} (hf : (f s).StopsIff P) :
    (read f).StopsIff s P fun _ t => t = s :=
  ⟨hf.stops, fun h => (hf.ends h).imp fun _ ha => ⟨ha, rfl⟩⟩

theorem stops_declare (name : String) (symbol : Symbol) (s : Scope) :
    (declare name symbol : ScopeM ω Unit).StopsIff s False fun _ t => t = s.declare name symbol :=
  ⟨False.elim, fun _ => ⟨(), rfl, rfl⟩⟩

theorem StopsIff.congr {x : ScopeM ω α} {after : α → Scope → Prop} (hx : x.StopsIff s P after)
    (h : Q ↔ P) : x.StopsIff s Q after :=
  ⟨fun hq => hx.stops (h.1 hq), fun hq => hx.ends fun hp => hq (h.2 hp)⟩

theorem StopsIff.mono {x : ScopeM ω α} {after after' : α → Scope → Prop}
    (hx : x.StopsIff s P after) (h : ∀ a t, after a t → after' a t) : x.StopsIff s P after' :=
  ⟨hx.stops, fun hp => (hx.ends hp).imp fun a ha => ⟨ha.1, h a _ ha.2⟩⟩

/-- The second of two steps may rely on what is known of the scope that the first one leaves. -/
theorem StopsIff.bind {x : ScopeM ω α} {f : α → ScopeM ω β} {between : α → Scope → Prop}
    {after : β → Scope → Prop} (hx : x.StopsIff s P between)
    (hf : ∀ a t, between a t → (f a).StopsIff t Q after) :
    (x >>= f).StopsIff s (P ∨ Q) after := by
  by_cases hp : P
  · refine ⟨fun _ => ?_, fun hnone => absurd (.inl hp) hnone⟩
    rw [run_bind, hx.stops hp]
  · obtain ⟨a, ha, hbetween⟩ := hx.ends hp
    have hrest := (hf a _ hbetween).congr (or_iff_right hp)
    constructor
    · rw [run_bind, ha]
      exact hrest.stops
    · rw [run_bind, ha]
      exact hrest.ends

theorem StopsIff.ends_bind {x : ScopeM ω α} {f : α → ScopeM ω β} {between : α → Scope → Prop}
    {after : β → Scope → Prop} (hx : x.StopsIff s False between)
    (hf : ∀ a t, between a t → (f a).StopsIff t Q after) : (x >>= f).StopsIff s Q after :=
  (hx.bind hf).congr (iff_of_eq (false_or Q)).symm

theorem StopsIff.bind_ends {x : ScopeM ω α} {f : α → ScopeM ω β} {between : α → Scope → Prop}
    {after : β → Scope → Prop} (hx : x.StopsIff s P between)
    (hf : ∀ a t, between a t → (f a).StopsIff t False after) : (x >>= f).StopsIff s P after :=
  (hx.bind hf).congr (iff_of_eq (or_false P)).symm

/-- Closing the frame is no reason to stop. -/
theorem StopsIff.inFrame {x : ScopeM ω α} (hx : x.StopsIff s.enter P fun _ _ => True)
    (hkeeps : x.KeepsOuter) : (inFrame x).StopsIff s P fun _ _ => True := by
  constructor
  · rw [hkeeps.run_inFrame]
    exact hx.stops
  · rw [hkeeps.run_inFrame]
    exact fun hp => (hx.ends hp).imp fun _ ha => ⟨ha.1, trivial⟩

end ScopeM

/-! ## Declarations -/

open ScopeM

/-- The names that the innermost frame of a scope knows. -/
def Scope.Takes (s : Scope) (names : List String) : Prop :=
  ∀ name, s.isLocal name = true ↔ name ∈ names

theorem Scope.takes_enter (s : Scope) : s.enter.Takes [] := by
  intro name
  simp

/-- A declaration takes its name. -/
theorem Scope.Takes.declare {s : Scope} {names : List String} (h : s.Takes names) (name : String)
    (symbol : Symbol) : (s.declare name symbol).Takes (name :: names) := by
  intro other
  rw [Scope.isLocal_declare, List.mem_cons, ← h other, Bool.or_eq_true, decide_eq_true_iff]

/-- A name that is taken already changes nothing. -/
theorem Scope.Takes.cons {s : Scope} {names : List String} (h : s.Takes names) {name : String}
    (hname : s.isLocal name = true) : s.Takes (name :: names) := by
  intro other
  rw [List.mem_cons, ← h other]
  exact ⟨.inr, fun hother => hother.elim (fun heq => heq ▸ hname) id⟩

/-- A name is free exactly if the innermost frame does not know it. -/
theorem stops_checkFree (name : Located String) (s : Scope) :
    (checkFree name).StopsIff s False fun free t => t = s ∧ free = !s.isLocal name.value := by
  refine ⟨False.elim, fun _ => ⟨!s.isLocal name.value, ?_, ?_, rfl⟩⟩
  · rw [run_checkFree]
  · rw [run_checkFree]

/-- Declared or not, the name is taken afterwards. -/
theorem stops_declareFree (name : Located String) (symbol : Symbol) (s : Scope) :
    (declareFree name symbol).StopsIff s False fun _ t =>
      ∀ names, s.Takes names → t.Takes (name.value :: names) := by
  refine (stops_checkFree name s).ends_bind fun free t ht => ?_
  obtain ⟨rfl, rfl⟩ := ht
  cases hlocal : t.isLocal name.value with
  | false =>
    refine (stops_declare name.value symbol t).mono fun _ u hu names hs => ?_
    exact hu ▸ hs.declare name.value symbol
  | true => exact stops_pure fun names hs => hs.cons hlocal

theorem stops_declareParams (params : List (Located String × Ty)) (s : Scope) :
    (declareParams params).StopsIff s False fun _ t =>
      ∀ names, s.Takes names →
        t.Takes ((params.map fun param => param.1.value).reverse ++ names) := by
  induction params generalizing s with
  | nil => exact stops_pure fun names hs => hs
  | cons param params ih =>
    refine (stops_declareFree param.1 _ s).ends_bind fun _ t ht => ?_
    refine (ih t).mono fun _ u hu names hs => ?_
    simpa using hu _ (ht names hs)

/-- The type of a declaration is checked in the scope as it is. -/
theorem stops_checkDeclaredType (t : Located TypeExpr) (s : Scope) :
    (checkDeclaredType t).StopsIff s (t.value.holeFree = false) fun _ u => u = s :=
  stops_read (TypeExpr.stops_check s t)

/-- The type of an alias is looked at exactly if its name is not taken. -/
theorem stops_declareTypes (types : List (Located Alias)) {s : Scope} {taken : List String}
    (hs : s.Takes taken) :
    (declareTypes types).StopsIff s (AliasesUnfinished taken types) fun _ _ => True := by
  induction types generalizing s taken with
  | nil => exact (stops_pure trivial).congr (iff_false_intro (not_aliasesUnfinished_nil taken))
  | cons declaration types ih =>
    refine (stops_checkFree (declaration.map Alias.name) s).ends_bind fun free t ht => ?_
    obtain ⟨rfl, rfl⟩ := ht
    -- The frame knows exactly the names that are taken, so it tells whether the type is skipped.
    cases hlocal : t.isLocal declaration.value.name with
    | true =>
      have hname := (hs declaration.value.name).1 hlocal
      simp only [Located.map, hlocal]
      exact (ih hs).congr (aliasesUnfinished_cons_of_mem hname types)
    | false =>
      have hname : declaration.value.name ∉ taken := by
        rw [← hs, hlocal]
        exact Bool.false_ne_true
      simp only [Located.map, hlocal]
      refine StopsIff.congr ?_ (aliasesUnfinished_cons_of_not_mem hname types)
      refine (stops_checkDeclaredType declaration.value.base t).bind fun type u hu => ?_
      refine (stops_declare declaration.value.name (.type type) u).ends_bind fun _ v hv => ?_
      rw [hv, hu]
      exact ih (hs.declare declaration.value.name _)

/-- The types of variables are looked at even if their names are taken. -/
theorem stops_declareVariables (groups : List (Located Group)) (s : Scope) :
    (declareVariables groups).StopsIff s (variablesHoleFree groups = false) fun _ _ => True := by
  induction groups generalizing s with
  | nil =>
    rw [variablesHoleFree, List.all_nil, Bool.true_eq_false]
    exact stops_pure trivial
  | cons group groups ih =>
    rw [variablesHoleFree, List.all_cons]
    refine StopsIff.congr ?_ Bool.and_eq_false_iff
    refine (stops_checkDeclaredType group.value.type s).bind fun type t _ => ?_
    rw [declareNames_eq_declareParams]
    exact (stops_declareParams _ t).ends_bind fun _ u _ => ih u

/-- The parameters that come out have the names of those that were looked at. -/
theorem stops_checkParams (params : List (Located Parameter)) (s : Scope) :
    (checkParams params).StopsIff s (parametersHoleFree params = false) fun args _ =>
      (args.map fun arg => arg.1.value) = parameterNames params := by
  induction params generalizing s with
  | nil =>
    rw [parametersHoleFree, List.all_nil, Bool.true_eq_false]
    exact stops_pure rfl
  | cons param params ih =>
    rw [parametersHoleFree, List.all_cons]
    refine StopsIff.congr ?_ Bool.and_eq_false_iff
    refine (stops_checkDeclaredType param.value.group.type s).bind fun type t _ => ?_
    refine (ih t).bind_ends fun args u hargs => stops_pure ?_
    simp [parameterNames, Group.declared, Function.comp_def, hargs]

theorem stops_body (body : List Statement) (s : Scope) :
    (ScopeM.read fun s => Statement.checkAll s body).StopsIff s
      (Statement.allHoleFree body = false) fun _ _ => True :=
  (stops_read (Statement.stops_checkAll s body)).mono fun _ _ _ => trivial

mutual

/-- Nothing but a hole stops the analysis of a procedure, also if its name is taken. -/
theorem Procedure.stops_check (p : Position) : (procedure : Procedure) → (s : Scope) →
    (procedure.check p).StopsIff s procedure.Unfinished fun _ _ => True
  | ⟨name, params, types, vars, procedures, body⟩, s => by
    rw [Procedure.check]
    refine StopsIff.congr ?_ (Procedure.unfinished_iff _)
    refine (stops_checkParams params s).bind fun args t hargs => ?_
    refine (stops_declareFree _ _ t).ends_bind fun _ u _ => ?_
    have hnested := Procedure.keepsOuter_checkAll procedures
    refine StopsIff.inFrame ?_ (keepsOuter_inside name _ args types vars body hnested)
    refine (stops_declare name _ u.enter).ends_bind fun _ v hv => ?_
    refine (stops_declareParams args v).ends_bind fun _ w hw => ?_
    -- the names taken here are those that the procedure brings with it
    have htaken : w.Takes (Procedure.ownNames ⟨name, params, types, vars, procedures, body⟩) := by
      have hname : v.Takes [name] := hv ▸ u.takes_enter.declare name _
      intro other
      rw [hw _ hname other, hargs, Procedure.ownNames]
      simp [or_comm]
    refine (stops_declareTypes types htaken).bind fun _ t _ => ?_
    refine (stops_declareVariables vars t).bind fun _ t _ => ?_
    exact (Procedure.stops_checkAll procedures t).bind fun _ t _ => stops_body body t

/-- Procedures are looked at one after the other, and the first that is unfinished stops the
analysis. -/
theorem Procedure.stops_checkAll : (procedures : List (Located Procedure)) → (s : Scope) →
    (Procedure.checkAll procedures).StopsIff s (Procedure.AnyUnfinished procedures)
      fun _ _ => True
  | [], s => (stops_pure trivial).congr (by simp [Procedure.AnyUnfinished])
  | ⟨p, procedure⟩ :: procedures, s => by
    rw [Procedure.checkAll, Procedure.anyUnfinished_cons]
    exact (Procedure.stops_check p procedure s).bind fun _ t _ =>
      Procedure.stops_checkAll procedures t

end

/-- The analysis of a program stops exactly if the program is unfinished. -/
theorem Program.stops_check (p : Program) :
    p.check.StopsIff .empty p.Unfinished fun _ _ => True := by
  have htaken : Scope.empty.Takes [] := fun name => by simp [Scope.isLocal, Scope.empty]
  have hdeclarations : p.declarations.check.StopsIff .empty
      (AliasesUnfinished [] p.declarations.types ∨ variablesHoleFree p.declarations.vars = false ∨
        Procedure.AnyUnfinished p.declarations.procedures) fun _ _ => True := by
    refine (stops_declareTypes p.declarations.types htaken).bind fun _ s _ => ?_
    refine (stops_declareVariables p.declarations.vars s).bind fun _ s _ => ?_
    exact Procedure.stops_checkAll p.declarations.procedures s
  refine StopsIff.congr (hdeclarations.bind fun _ s _ => stops_body p.body s) ?_
  rw [Program.Unfinished, or_assoc, or_assoc]

/-- A program that is not unfinished is analyzed to the end. -/
theorem Program.analyze_ends {p : Program} (h : ¬ p.Unfinished) : ∃ ds, p.analyze = .ok ds := by
  obtain ⟨_, hvalue, -⟩ := p.stops_check.ends h
  exact ⟨_, by rw [Program.analyze, hvalue]; rfl⟩

/-- An unfinished program has no diagnostics, since the analysis breaks off. -/
theorem Program.analyze_stops {p : Program} (h : p.Unfinished) :
    p.analyze = .error .unfinished := by
  rw [Program.analyze, p.stops_check.stops h]
  rfl

/-- The analysis of a program breaks off exactly if the program has a hole that counts, and it never
breaks off for another reason. In particular it ends with a list of diagnostics for every program
without holes. -/
theorem Program.analyze_eq_unfinished_iff (p : Program) :
    (p.analyze = .error .unfinished ↔ p.Unfinished) ∧
      (∀ fault, p.analyze = .error fault → fault = .unfinished) ∧
      (p.holeFree = true → ∃ ds, p.analyze = .ok ds) := by
  by_cases hp : p.Unfinished
  · have hstops := Program.analyze_stops hp
    refine ⟨iff_of_true hstops hp, fun fault hfault => ?_, fun hholes => ?_⟩
    · rw [hstops] at hfault
      exact (Except.error.inj hfault).symm
    · exact absurd hp (Program.not_unfinished hholes)
  · obtain ⟨ds, hds⟩ := Program.analyze_ends hp
    have hnone : ∀ fault, p.analyze ≠ .error fault := by
      intro fault hfault
      rw [hds] at hfault
      cases hfault
    exact ⟨iff_of_false (hnone _) hp, fun fault hfault => absurd hfault (hnone fault),
      fun _ => ⟨ds, hds⟩⟩

/-- The second alias has a name that is taken, so the hole in its type does not count. -/
example :
    (Program.mk "p" ⟨[⟨⟨2, 3⟩, "t", ⟨⟨2, 7⟩, .integer⟩⟩, ⟨⟨3, 3⟩, "t", ⟨⟨3, 7⟩, .hole⟩⟩], [], []⟩
      []).analyze = .ok [⟨⟨3, 3⟩, .duplicatedIdentifier "t"⟩] := rfl

end SnlFront
