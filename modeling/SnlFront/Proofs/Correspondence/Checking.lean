import SnlFront.Proofs.Correspondence.Basic

/-!
# Checks of relabeled trees

A tree and the tree with other labels are checked side by side, in scopes that correspond. No
decision on the way depends on a label: a position is only passed on to a report, and a name is only
compared with other names and looked up. So both checks go the same way. They report one by one what
corresponds, come to types that correspond or break off with the same fault, and leave scopes that
correspond.

## Main definitions

* `Correspondence.Matched`, `Correspondence.MatchedIn`: two checks that go the same way.

## Main statements

* `Expression.matched_check`, `Call.matched_check`, `Statement.matched_checkAll`: expressions, calls
  and statements.
* `matched_checkDeclaredType`: types.
* `Procedure.matched_check`, `Declarations.matched_check`: declarations.
* `Program.analyze_relabel`: the diagnostics of programs.
-/

namespace SnlFront

variable {ρ : Relabeling} {K : Correspondence ρ} {α β : Type}

/-- Two checks report what corresponds, and come to related values or break off in the same way. -/
abbrev Correspondence.Matched (K : Correspondence ρ) (R : α → β → Prop) (x : Checked α)
    (y : Checked β) : Prop :=
  Logged.Related K.reports R x y

/-- Reports correspond if their diagnostics do. -/
theorem matched_report {d d' : Diagnostic} (h : K.Diagnostics d d') (p : Position) :
    K.Matched Eq (report p d) (report (ρ.place p) d') := ⟨.cons ⟨rfl, h⟩ .nil, .ok rfl⟩

/-- A condition that does not depend on labels is reported on both sides or on none. -/
theorem matched_require {condition condition' : Bool} (hcondition : condition = condition')
    {d d' : Diagnostic} (h : K.Diagnostics d d') (p : Position) :
    K.Matched Eq (require condition p d) (require condition' (ρ.place p) d') := by
  subst hcondition
  cases condition with
  | true => exact Logged.related_pure rfl
  | false => exact matched_report h p

/-! ## Expressions -/

variable {s t : Scope}

/-- After a fault both sides go on with the unknown type. -/
theorem matched_report_unknown {d d' : Diagnostic} (h : K.Diagnostics d d') (p : Position) :
    K.Matched K.types (do report p d; return .unknown)
      (do report (ρ.place p) d'; return .unknown) :=
  (matched_report h p).bind fun _ _ _ => Logged.related_pure K.unknown

/-- The base of a variable is looked up under both names, and what is found corresponds. -/
theorem matched_checkBase (hs : K.Scopes s t) (base : Located String) :
    K.Matched K.types (checkBase s base) (checkBase t (base.relabel ρ ρ.name)) := by
  simp only [checkBase, Located.value_relabel, Located.pos_relabel]
  rcases cases_of_rel (hs.lookup base.value) with ⟨hbase, hbase'⟩ | ⟨_, _, hbase, hbase', hsymbol⟩
  · rw [hbase, hbase']
    exact matched_report_unknown (.plain _ _) _
  · rw [hbase, hbase']
    cases hsymbol with
    | ofVariable h => exact Logged.related_pure h
    | ofType h | ofProcedure h => exact matched_report_unknown (.plain _ _) _

/-- A field is looked up under both names in types that are alike. -/
theorem matched_checkField {τ σ : Ty} (h : K.types τ σ) (field : Option (Located String)) :
    K.Matched K.types (checkField τ field)
      (checkField σ (field.map (Located.relabel ρ ρ.name))) := by
  cases field with
  | none => exact Logged.related_pure h
  | some field =>
    cases hshape : K.alike h with
    | unknown => exact Logged.related_pure h
    | integer | char | array lower upper hbase =>
      exact matched_report_unknown (.found _ _ (.ofType h)) _
    | record hfields =>
      simp only [checkField, Option.map_some, Located.value_relabel, Located.pos_relabel]
      rcases cases_of_rel (hfields field.value) with ⟨hf, hf'⟩ | ⟨_, _, hf, hf', htype⟩
      · rw [hf, hf']
        exact matched_report_unknown (.plain _ _) _
      · rw [hf, hf']
        exact Logged.related_pure htype

/-- Elements are taken of types that are alike, with indices that are. -/
theorem matched_checkElement {τ σ ι κ : Ty} (h : K.types τ σ) (p : Position)
    (hindex : K.types ι κ) :
    K.Matched K.types (checkElement τ p ι) (checkElement σ (ρ.place p) κ) := by
  cases hshape : K.alike h with
  | unknown => exact Logged.related_pure h
  | integer | char | record hfields => exact matched_report_unknown (.found _ _ (.ofType h)) _
  | array lower upper hbase =>
    have hmet := K.compatible K.integer hindex
    refine (matched_require hmet (.contrast _ (.ofType K.integer) (.ofType hindex)) p).bind ?_
    exact fun _ _ _ => Logged.related_pure hbase

/-- Two operands and their counterparts are compared in the same way. -/
theorem matched_operands {left left' right right' : Checked Ty} (p : Position)
    (hleft : K.Matched K.types left left') (hright : K.Matched K.types right right') :
    K.Matched K.types
      (do
        let type ← left
        let other ← right
        require (type.compatible other) p (.incompatibleType type other)
        return type)
      (do
        let type ← left'
        let other ← right'
        require (type.compatible other) (ρ.place p) (.incompatibleType type other)
        return type) := by
  refine hleft.bind fun type type' htype => ?_
  refine hright.bind fun other other' hother => ?_
  have hmet := K.compatible htype hother
  refine (matched_require hmet (.contrast _ (.ofType htype) (.ofType hother)) p).bind ?_
  exact fun _ _ _ => Logged.related_pure htype

mutual

/-- Expressions correspond, and so do the types they have. Terms, factors and variables are taken
along, since each may hold the others. -/
theorem Expression.matched_check (hs : K.Scopes s t) : (e : Expression) →
    K.Matched K.types (e.check s) ((e.relabel ρ).check t)
  | .last ⟨_, left⟩ _ => by
    rw [Expression.relabel, Expression.check, Expression.check]
    exact Term.matched_check hs left
  | .chain ⟨_, left⟩ _ ⟨q, right⟩ => by
    rw [Expression.relabel, Expression.check, Expression.check]
    exact matched_operands q (Term.matched_check hs left) (Expression.matched_check hs right)

theorem Term.matched_check (hs : K.Scopes s t) : (term : Term) →
    K.Matched K.types (term.check s) ((term.relabel ρ).check t)
  | .last ⟨_, left⟩ _ => by
    rw [Term.relabel, Term.check, Term.check]
    exact Factor.matched_check hs left
  | .chain ⟨_, left⟩ _ ⟨q, right⟩ => by
    rw [Term.relabel, Term.check, Term.check]
    exact matched_operands q (Factor.matched_check hs left) (Term.matched_check hs right)

theorem Factor.matched_check (hs : K.Scopes s t) : (f : Factor) →
    K.Matched K.types (f.check s) ((f.relabel ρ).check t)
  | .bracket inner => by
    rw [Factor.relabel, Factor.check, Factor.check]
    exact Expression.matched_check hs inner
  | .constant _ => Logged.related_pure K.integer
  | .variable v => by
    rw [Factor.relabel, Factor.check, Factor.check]
    exact Variable.matched_check hs v
  | .hole => Logged.related_fail _

theorem Variable.matched_check (hs : K.Scopes s t) : (v : Variable) →
    K.Matched K.types (v.check s) ((v.relabel ρ).check t)
  | .whole base => by
    rw [Variable.relabel, Variable.check, Variable.check]
    exact matched_checkBase hs base
  | .part base field none => by
    rw [Variable.relabel, Variable.check, Variable.check]
    exact (matched_checkBase hs base).bind fun _ _ h => matched_checkField h field
  | .part base field (some index) => by
    rw [Variable.relabel, Variable.check, Variable.check, Expression.left_relabel]
    refine (matched_checkBase hs base).bind fun _ _ hbase => ?_
    refine (matched_checkField hbase field).bind fun _ _ hpart => ?_
    refine (Expression.matched_check hs index).bind fun _ _ hindex => ?_
    exact matched_checkElement hpart _ hindex

end

/-! ## Statements -/

theorem matched_checkOperand (hs : K.Scopes s t) (e : Expression) :
    K.Matched Eq (checkOperand s e) (checkOperand t (e.relabel ρ)) := by
  rw [checkOperand, checkOperand, Expression.left_relabel]
  refine (e.matched_check hs).bind fun _ _ h => ?_
  exact matched_require (Correspondence.mayBeBase_eq h) (.found _ _ (.ofType h)) _

theorem Relation.matched_check (hs : K.Scopes s t) (r : Relation) :
    K.Matched Eq (r.check s) ((r.relabel ρ).check t) :=
  (matched_checkOperand hs r.left).bind fun _ _ _ => matched_checkOperand hs r.right

/-- Whether a name stands for a variable of base type is the same on both sides. -/
theorem matched_checkInput (hs : K.Scopes s t) (name : Located String) :
    K.Matched Eq (checkInput s name) (checkInput t (name.relabel ρ ρ.name)) := by
  simp only [checkInput, Located.value_relabel, Located.pos_relabel]
  rcases cases_of_rel (hs.lookup name.value) with ⟨hname, hname'⟩ | ⟨_, _, hname, hname', hsymbol⟩
  · rw [hname, hname']
    exact matched_report (.plain _ _) _
  · rw [hname, hname']
    cases hsymbol with
    | ofVariable h =>
      exact matched_require (Correspondence.mayBeBase_eq h) (.found _ _ (.ofType h)) _
    | ofType h | ofProcedure h => exact matched_report (.found _ _ (.ofWord _)) _

/-- Whether two types are compatible does not depend on labels, so assignments are refused on both
sides or on none. -/
theorem matched_checkAssignment (hs : K.Scopes s t) (target : Variable) (value : Expression) :
    K.Matched Eq (checkAssignment s target value)
      (checkAssignment t (target.relabel ρ) (value.relabel ρ)) := by
  rw [checkAssignment, checkAssignment, Variable.base_relabel]
  refine (target.matched_check hs).bind fun expected expected' hexpected => ?_
  refine (value.matched_check hs).bind fun got got' hgot => ?_
  rw [← Correspondence.isUnknown_eq hexpected]
  cases expected.isUnknown with
  | true => exact matched_report (.plain _ _) _
  | false =>
    exact matched_require (K.compatible hexpected hgot)
      (.contrast _ (.ofType hexpected) (.ofType hgot)) _

/-- Arguments are compared with parameters one by one, up to the end of the shorter row. -/
theorem matched_checkArguments (hs : K.Scopes s t) {params params' : List Ty}
    (h : List.Forall₂ K.types params params') (arguments : List Expression) :
    K.Matched Eq (checkArguments s params arguments)
      (checkArguments t params' (arguments.map (Expression.relabel ρ))) := by
  induction arguments generalizing params params' with
  | nil =>
    rw [List.map_nil, checkArguments, checkArguments]
    exact Logged.related_pure rfl
  | cons argument arguments ih =>
    cases h with
    | nil =>
      rw [List.map_cons, checkArguments, checkArguments]
      exact (argument.matched_check hs).bind fun _ _ _ => ih .nil
    | cons first others =>
      rw [List.map_cons, checkArguments, checkArguments, Expression.left_relabel]
      refine (argument.matched_check hs).bind fun _ _ htype => ?_
      refine (matched_require (K.compatible first htype)
        (.contrast _ (.ofType first) (.ofType htype)) _).bind ?_
      exact fun _ _ _ => ih others

/-- A call finds procedures on both sides or on none; their parameters correspond. -/
theorem matched_checkCallee (hs : K.Scopes s t) (p : Position) (call : Call) :
    K.Matched (List.Forall₂ K.types) (checkCallee s p call)
      (checkCallee t (ρ.place p) (call.relabel ρ)) := by
  simp only [checkCallee, Call.relabel, List.length_map]
  rcases cases_of_rel (hs.lookup call.name) with ⟨hname, hname'⟩ | ⟨_, _, hname, hname', hsymbol⟩
  · rw [hname, hname']
    exact (matched_report (.plain _ _) _).bind fun _ _ _ => Logged.related_pure .nil
  · rw [hname, hname']
    cases hsymbol with
    | ofProcedure h =>
      simp only [h.length_eq]
      refine (matched_require rfl (.contrast _ (.ofCount _) (.ofCount _)) _).bind ?_
      exact fun _ _ _ => Logged.related_pure h
    | ofVariable h | ofType h =>
      refine (matched_report (.contrast _ (.ofWord _) (.ofWord _)) _).bind ?_
      exact fun _ _ _ => Logged.related_pure .nil

theorem Call.matched_check (hs : K.Scopes s t) (call : Located Call) :
    K.Matched Eq (Call.check s call) (Call.check t (call.relabel ρ (Call.relabel ρ))) :=
  (matched_checkCallee hs call.pos call.value).bind fun _ _ h => matched_checkArguments hs h _

mutual

/-- Statements correspond, at any depth of branches and loops. -/
theorem Statement.matched_check (hs : K.Scopes s t) : (statement : Statement) →
    K.Matched Eq (statement.check s) ((statement.relabel ρ).check t)
  | .conditional condition body otherwise => by
    rw [Statement.relabel, Statement.check, Statement.check]
    refine (condition.matched_check hs).bind fun _ _ _ => ?_
    refine (Statement.matched_checkAll hs body).bind fun _ _ _ => ?_
    exact Statement.matched_checkAll hs otherwise
  | .loop condition body => by
    rw [Statement.relabel, Statement.check, Statement.check]
    exact (condition.matched_check hs).bind fun _ _ _ => Statement.matched_checkAll hs body
  | .input name => by
    rw [Statement.relabel, Statement.check, Statement.check]
    exact matched_checkInput hs name
  | .output value => by
    rw [Statement.relabel, Statement.check, Statement.check, Expression.left_relabel]
    refine (value.matched_check hs).bind fun _ _ h => ?_
    exact matched_require (Correspondence.mayBeBase_eq h) (.found _ _ (.ofType h)) _
  | .result value => by
    rw [Statement.relabel, Statement.check, Statement.check]
    exact (value.matched_check hs).bind fun _ _ _ => Logged.related_pure rfl
  | .assign target value => by
    rw [Statement.relabel, Statement.check, Statement.check]
    exact matched_checkAssignment hs target value
  | .call called => by
    rw [Statement.relabel, Statement.check, Statement.check]
    exact Call.matched_check hs called
  | .hole => Logged.related_fail _

theorem Statement.matched_checkAll (hs : K.Scopes s t) : (statements : List Statement) →
    K.Matched Eq (Statement.checkAll s statements)
      (Statement.checkAll t (Statement.relabelAll ρ statements))
  | [] => by
    rw [Statement.relabelAll, Statement.checkAll, Statement.checkAll]
    exact Logged.related_pure rfl
  | statement :: statements => by
    rw [Statement.relabelAll, Statement.checkAll, Statement.checkAll]
    exact (Statement.matched_check hs statement).bind fun _ _ _ =>
      Statement.matched_checkAll hs statements

end

/-! ## Types -/

mutual

/-- An expression and its counterpart resolve to types that correspond. -/
theorem TypeExpr.matched_resolve (hs : K.Scopes s t) : (e : TypeExpr) →
    Outcomes K.types (e.resolve s) ((e.relabel ρ).resolve t)
  | .integer => .ok K.integer
  | .char => .ok K.char
  | .array base lower upper => .ok (K.array base lower upper)
  | .record groups => by
    rw [TypeExpr.relabel, TypeExpr.resolve, TypeExpr.resolve]
    rcases (Group.matched_resolveMembers hs groups).cases with
      ⟨_, _, hm, hm', h⟩ | ⟨fault, hm, hm'⟩
    · rw [hm, hm']
      exact .ok (K.ofMembers h)
    · rw [hm, hm']
      exact .error fault
  | .named name => by
    rw [TypeExpr.relabel, TypeExpr.resolve, TypeExpr.resolve]
    rcases cases_of_rel (hs.lookupType? name) with ⟨hname, hname'⟩ | ⟨_, _, hname, hname', h⟩
    · rw [hname, hname']
      exact .ok K.unknown
    · rw [hname, hname']
      exact .ok h
  | .hole => .error _

/-- The members of a record correspond in the order in which they are written, before they are
sorted by name. -/
theorem Group.matched_resolveMembers (hs : K.Scopes s t) : (groups : List Group) →
    Outcomes (Ty.MembersAlike ρ.name K.types) (Group.resolveMembers s groups)
      (Group.resolveMembers t (Group.relabelAll ρ groups))
  | [] => .ok .nil
  | ⟨⟨_, type⟩, names⟩ :: groups => by
    rw [Group.relabelAll, Group.resolveMembers, Group.resolveMembers]
    rcases (TypeExpr.matched_resolve hs type).cases with ⟨τ, σ, hτ, hσ, h⟩ | ⟨fault, hτ, hσ⟩
    · rw [hτ, hσ]
      rcases (Group.matched_resolveMembers hs groups).cases with
        ⟨ms, ns, hm, hn, hothers⟩ | ⟨fault, hm, hn⟩
      · rw [hm, hn]
        refine .ok (List.rel_append ?_ hothers)
        rw [List.map_map]
        exact List.forall₂_map_right_iff.2 (List.forall₂_map_left_iff.2
          (List.forall₂_same.2 fun _ _ => ⟨rfl, h⟩))
      · rw [hm, hn]
        exact .error fault
    · rw [hτ, hσ]
      exact .error fault

end

/-- Names are repeated among exchanged names exactly if they were repeated before. -/
theorem matched_reportRepeated (seen : List String) (names : List (Located String)) :
    K.Matched Eq (reportRepeated seen names)
      (reportRepeated (seen.map ρ.name) (names.map (Located.relabel ρ ρ.name))) := by
  induction names generalizing seen with
  | nil => exact Logged.related_pure rfl
  | cons name names ih =>
    have hseen : (seen.map ρ.name).contains (ρ.name name.value) = seen.contains name.value := by
      rw [Bool.eq_iff_iff]
      simp [K.injective.eq_iff]
    rw [List.map_cons, reportRepeated, reportRepeated]
    refine (matched_require (by rw [Located.value_relabel, hseen]) (.plain _ _) _).bind ?_
    exact fun _ _ _ => ih (name.value :: seen)

mutual

/-- Type expressions are validated alike. Names that were seen before are renamed along. -/
theorem TypeExpr.matched_validate (hs : K.Scopes s t) (p : Position) : (e : TypeExpr) →
    K.Matched Eq (e.validate s p) ((e.relabel ρ).validate t (ρ.place p))
  | .integer => Logged.related_pure rfl
  | .char => Logged.related_pure rfl
  | .array base lower upper => by
    rw [TypeExpr.relabel, TypeExpr.validate, TypeExpr.validate]
    exact matched_require rfl (.found _ _ (.ofType (K.array base lower upper))) p
  | .record groups => by
    rw [TypeExpr.relabel, TypeExpr.validate, TypeExpr.validate]
    exact Group.matched_validateAll hs [] groups
  | .named name => by
    rw [TypeExpr.relabel, TypeExpr.validate, TypeExpr.validate]
    refine matched_require ?_ (.plain _ _) p
    rcases cases_of_rel (hs.lookupType? name) with ⟨hname, hname'⟩ | ⟨_, _, hname, hname', _⟩
    · rw [hname, hname']
    · rw [hname, hname']
      rfl
  | .hole => Logged.related_fail _

theorem Group.matched_validateAll (hs : K.Scopes s t) : (seen : List String) →
    (groups : List Group) →
    K.Matched Eq (Group.validateAll s seen groups)
      (Group.validateAll t (seen.map ρ.name) (Group.relabelAll ρ groups))
  | _, [] => Logged.related_pure rfl
  | seen, ⟨⟨p, type⟩, names⟩ :: groups => by
    rw [Group.relabelAll, Group.validateAll, Group.validateAll]
    refine (TypeExpr.matched_validate hs p type).bind fun _ _ _ => ?_
    refine (matched_reportRepeated seen names).bind fun _ _ _ => ?_
    have hrest := Group.matched_validateAll hs (names.map Located.value ++ seen) groups
    simpa [Function.comp_def] using hrest

end

/-- A type expression denotes types that correspond. -/
theorem TypeExpr.matched_check (hs : K.Scopes s t) (e : Located TypeExpr) :
    K.Matched K.types (TypeExpr.check s e)
      (TypeExpr.check t (e.relabel ρ (TypeExpr.relabel ρ))) :=
  (e.value.matched_validate hs e.pos).bind fun _ _ _ =>
    Logged.related_ofExcept (e.value.matched_resolve hs)

/-! ## Declarations -/

open ScopeM

/-- Two analyses in scopes that correspond leave such scopes, report what corresponds, and come to
related values or break off in the same way. -/
abbrev Correspondence.MatchedIn (K : Correspondence ρ) (R : α → β → Prop) (x : Analysis α)
    (y : Analysis β) : Prop :=
  ScopeM.Related K.reports K.Scopes R x y

/-- A name is free on both sides or on none. -/
theorem matched_checkFree (name : Located String) :
    K.MatchedIn Eq (checkFree name) (checkFree (name.relabel ρ ρ.name)) := by
  refine related_read fun s t hs => ?_
  rw [Located.value_relabel, Located.pos_relabel, ← hs.isLocal name.value]
  exact (matched_require rfl (.plain _ _) _).bind fun _ _ _ => Logged.related_pure rfl

theorem matched_declare (name : String) {symbol symbol' : Symbol} (h : K.Symbols symbol symbol') :
    K.MatchedIn Eq (ScopeM.declare name symbol) (ScopeM.declare (ρ.name name) symbol') :=
  fun _ _ hs => ⟨hs.declare name h, Logged.related_pure rfl⟩

/-- What is declared on both sides corresponds from then on. -/
theorem matched_declareFree (name : Located String) {symbol symbol' : Symbol}
    (h : K.Symbols symbol symbol') :
    K.MatchedIn Eq (declareFree name symbol)
      (declareFree (name.relabel ρ ρ.name) symbol') := by
  refine (matched_checkFree name).bind fun free _ hfree => ?_
  subst hfree
  cases free with
  | false => exact related_pure rfl
  | true => exact matched_declare name.value h

/-- Parameters at exchanged positions and under exchanged names, with types that correspond. -/
abbrev Correspondence.Parameters (K : Correspondence ρ) :
    List (Located String × Ty) → List (Located String × Ty) → Prop :=
  List.Forall₂ fun param param' =>
    param'.1 = param.1.relabel ρ ρ.name ∧ K.types param.2 param'.2

theorem parameters_map {τ σ : Ty} (h : K.types τ σ) (names : List (Located String)) :
    K.Parameters (names.map fun name => (name, τ))
      ((names.map (Located.relabel ρ ρ.name)).map fun name => (name, σ)) := by
  induction names with
  | nil => exact .nil
  | cons name names ih => exact .cons ⟨rfl, h⟩ ih

theorem matched_declareParams {params params' : List (Located String × Ty)}
    (h : K.Parameters params params') :
    K.MatchedIn Eq (declareParams params) (declareParams params') := by
  induction h with
  | nil => exact related_pure rfl
  | @cons param param' _ _ first others ih =>
    obtain ⟨name, τ⟩ := param
    obtain ⟨_, σ⟩ := param'
    obtain ⟨rfl, htype⟩ := first
    exact (matched_declareFree name (.ofVariable htype)).bind fun _ _ _ => ih

theorem matched_checkDeclaredType (e : Located TypeExpr) :
    K.MatchedIn K.types (checkDeclaredType e)
      (checkDeclaredType (e.relabel ρ (TypeExpr.relabel ρ))) :=
  related_read fun _ _ hs => TypeExpr.matched_check hs e

/-- Aliases are declared on both sides or on none, one after the other. -/
theorem matched_declareTypes (types : List (Located Alias)) :
    K.MatchedIn Eq (declareTypes types)
      (declareTypes (types.map (Located.relabel ρ (Alias.relabel ρ)))) := by
  induction types with
  | nil => exact related_pure rfl
  | cons declaration types ih =>
    refine (matched_checkFree (declaration.map Alias.name)).bind fun free _ hfree => ?_
    subst hfree
    cases free with
    | false => exact ih
    | true =>
      refine (matched_checkDeclaredType declaration.value.base).bind fun _ _ htype => ?_
      exact (matched_declare declaration.value.name (.ofType htype)).bind fun _ _ _ => ih

theorem matched_declareVariables (groups : List (Located Group)) :
    K.MatchedIn Eq (declareVariables groups)
      (declareVariables (groups.map (Located.relabel ρ (Group.relabel ρ)))) := by
  induction groups with
  | nil => exact related_pure rfl
  | cons group groups ih =>
    refine (matched_checkDeclaredType group.value.type).bind fun _ _ htype => ?_
    rw [declareNames_eq_declareParams, declareNames_eq_declareParams]
    exact (matched_declareParams (parameters_map htype group.value.names)).bind fun _ _ _ => ih

/-- Parameters correspond one by one, with their types. -/
theorem matched_checkParams (params : List (Located Parameter)) :
    K.MatchedIn K.Parameters (checkParams params)
      (checkParams (params.map (Located.relabel ρ (Parameter.relabel ρ)))) := by
  induction params with
  | nil => exact related_pure .nil
  | cons param params ih =>
    refine (matched_checkDeclaredType param.value.group.type).bind fun _ _ htype => ?_
    refine ih.bind fun _ _ hothers => related_pure ?_
    exact List.rel_append (parameters_map htype param.value.group.names) hothers

theorem matched_body (body : List Statement) :
    K.MatchedIn Eq (ScopeM.read fun s => Statement.checkAll s body)
      (ScopeM.read fun s => Statement.checkAll s (Statement.relabelAll ρ body)) :=
  related_read fun _ _ hs => Statement.matched_checkAll hs body

mutual

/-- Procedures correspond in scopes that do, with all that is declared inside them. -/
theorem Procedure.matched_check (p : Position) : (procedure : Procedure) →
    K.MatchedIn Eq (procedure.check p) ((procedure.relabel ρ).check (ρ.place p))
  | ⟨name, params, types, vars, procedures, body⟩ => by
    rw [Procedure.relabel, Procedure.check, Procedure.check]
    refine (matched_checkParams params).bind fun args args' hargs => ?_
    have hsymbol : K.Symbols (.procedure (args.map Prod.snd)) (.procedure (args'.map Prod.snd)) :=
      .ofProcedure (List.rel_map (fun _ _ h => h.2) hargs)
    refine (matched_declareFree ⟨p, name⟩ hsymbol).bind fun _ _ _ => ?_
    -- Behind the procedure the scopes are those from before it, whatever it has hidden.
    refine Related.inFrame ?_ ?_ ?_ fun _ _ hs => hs.enter
    · refine (matched_declare name hsymbol).bind fun _ _ _ => ?_
      refine (matched_declareParams hargs).bind fun _ _ _ => ?_
      refine (matched_declareTypes types).bind fun _ _ _ => ?_
      refine (matched_declareVariables vars).bind fun _ _ _ => ?_
      exact (Procedure.matched_checkAll procedures).bind fun _ _ _ => matched_body body
    · exact keepsOuter_inside _ _ _ _ _ _ (Procedure.keepsOuter_checkAll _)
    · exact keepsOuter_inside _ _ _ _ _ _ (Procedure.keepsOuter_checkAll _)

theorem Procedure.matched_checkAll : (procedures : List (Located Procedure)) →
    K.MatchedIn Eq (Procedure.checkAll procedures)
      (Procedure.checkAll (Procedure.relabelAll ρ procedures))
  | [] => related_pure rfl
  | ⟨p, procedure⟩ :: procedures => by
    rw [Procedure.relabelAll, Procedure.checkAll, Procedure.checkAll]
    exact (Procedure.matched_check p procedure).bind fun _ _ _ =>
      Procedure.matched_checkAll procedures

end

/-- The declarations of a level and those with other labels are checked in the same way. -/
theorem Declarations.matched_check (d : Declarations) :
    K.MatchedIn Eq d.check (d.relabel ρ).check := by
  refine (matched_declareTypes d.types).bind fun _ _ _ => ?_
  refine (matched_declareVariables d.vars).bind fun _ _ _ => ?_
  exact Procedure.matched_checkAll d.procedures

/-- A program is a level with a body behind it. -/
theorem Program.matched_check (p : Program) : K.MatchedIn Eq p.check (p.relabel ρ).check :=
  p.declarations.matched_check.bind fun _ _ _ => matched_body p.body

/-- If a function tells the reports that correspond, it tells what the analysis answers for the
program with other labels. -/
theorem Program.analyze_relabel {g : Located Diagnostic → Located Diagnostic}
    (hg : ∀ d d', K.Reports d d' → d' = g d) (p : Program) :
    (p.relabel ρ).analyze = p.analyze.map (List.map g) := by
  obtain ⟨-, hnotes, hvalue⟩ := p.matched_check (K := K) .empty .empty .empty
  rw [Program.analyze, Program.analyze]
  rcases hvalue.cases with ⟨_, _, hx, hy, -⟩ | ⟨fault, hx, hy⟩
  · rw [hx, hy]
    exact congrArg Except.ok (Correspondence.eq_map_of_forall₂ hg hnotes)
  · rw [hx, hy]
    rfl

end SnlFront
