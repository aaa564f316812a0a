import SnlFront.Proofs.Checking.Related
import SnlFront.Proofs.Naming.Resolution
import SnlFront.Proofs.Scope.Additions
import SnlFront.Proofs.Unknown.Order

/-!
# What is unknown only suppresses reports

A program is checked in two scopes, of which the first knows less. Both runs go the same way through
the program, and whatever the first one asks of a type and finds wrong, the second one finds wrong
too: every question is answered more favourably where less is known. So the first run reports no
more than the second, apart from assignments to variables of which nothing is known, and it leaves a
scope that again knows less.

## Main definitions

* `gists`: the kinds, positions and names of reports, without those about assignees.
* `Fewer`: one check reports no more than another one and finds less known types.

## Main statements

* `Statement.fewer_checkAll`: statements.
* `Declarations.fewer_check`: declarations.
* `Program.gists_sublist_of_below`: programs.
-/

namespace SnlFront

/-! ## Reports -/

/-- The kinds, positions and names of reports, without those about assignees. -/
def gists (ds : List (Located Diagnostic)) :
    List (Diagnostic.Kind × Position × Option String) :=
  (ds.filter fun d => d.value.kind ≠ .invalidAssignee).map fun d =>
    (d.value.kind, d.pos, d.value.name)

/-- The reports of one run are found among those of the other, in their order. -/
def fewer : Comparison (Located Diagnostic) where
  holds ds ds' := (gists ds).Sublist (gists ds')
  nil := .slnil
  append h h' := by simpa [gists] using h.append h'

variable {α : Type}

/-- One check reports no more than another one, and their values are related. -/
abbrev Fewer (R : α → α → Prop) (x y : Checked α) : Prop := Logged.Related fewer R x y

/-- A report that differs in its details only counts as the same. -/
theorem fewer_report (p : Position) {d d' : Diagnostic}
    (hkind : d.kind = d'.kind := by rfl) (hname : d.name = d'.name := by rfl) :
    Fewer Eq (report p d) (report p d') := by
  have hsame : gists [⟨p, d⟩] = gists [⟨p, d'⟩] := by
    by_cases h : d'.kind = .invalidAssignee
    · simp [gists, hkind, h]
    · simp [gists, hkind, hname, h]
  refine ⟨?_, .ok rfl⟩
  change (gists [⟨p, d⟩]).Sublist (gists [⟨p, d'⟩])
  rw [hsame]

/-- A condition that holds where more is known holds where less is known. -/
theorem fewer_require {condition condition' : Bool} (h : condition' = true → condition = true)
    (p : Position) {d d' : Diagnostic} (hkind : d.kind = d'.kind := by rfl)
    (hname : d.name = d'.name := by rfl) :
    Fewer Eq (require condition p d) (require condition' p d') := by
  cases condition' with
  | true =>
    rw [h rfl]
    exact Logged.related_pure rfl
  | false =>
    cases condition with
    | true => exact ⟨List.nil_sublist _, .ok rfl⟩
    | false => exact fewer_report p hkind hname

/-- Where nothing is known, nothing is reported. -/
theorem fewer_unknown {x : Checked Ty} (h : ∃ τ, x.value = .ok τ) :
    Fewer Ty.Below (pure .unknown) x := by
  obtain ⟨τ, hτ⟩ := h
  refine ⟨List.nil_sublist _, ?_⟩
  rw [hτ]
  exact .ok (.unknown τ)

/-- A check that does not look at the scope reports the same in both. -/
theorem fewer_refl {R : α → α → Prop} (hR : ∀ a, R a a) (x : Checked α) : Fewer R x x := by
  refine ⟨List.Sublist.refl _, ?_⟩
  cases x.value with
  | error fault => exact .error fault
  | ok a => exact .ok (hR a)

/-- A report about an assignee is passed over. -/
theorem fewer_invalidAssignee (p : Position) {x : Checked Unit} (h : ∃ u, x.value = .ok u) :
    Fewer Eq (report p .invalidAssignee) x := by
  obtain ⟨u, hu⟩ := h
  refine ⟨List.nil_sublist _, ?_⟩
  rw [hu]
  exact .ok rfl

/-! ## Expressions -/

variable {s t : Scope}

/-- Where both sides report, both go on with the unknown type. -/
theorem fewer_report_unknown (p : Position) {d d' : Diagnostic}
    (hkind : d.kind = d'.kind := by rfl) (hname : d.name = d'.name := by rfl) :
    Fewer Ty.Below (do report p d; return .unknown) (do report p d'; return .unknown) :=
  (fewer_report p hkind hname).bind fun _ _ _ => Logged.related_pure (.refl _)

/-- Names are found in both scopes or in none, with a type that is less known in the first. -/
theorem fewer_checkBase (hs : s.Below t) (base : Located String) :
    Fewer Ty.Below (checkBase s base) (checkBase t base) := by
  rw [checkBase, checkBase]
  rcases cases_of_rel (hs.lookup base.value) with ⟨hbase, hbase'⟩ | ⟨_, _, hbase, hbase', hsymbol⟩
  · rw [hbase, hbase']
    exact fewer_report_unknown _
  · rw [hbase, hbase']
    cases hsymbol with
    | ofVariable h => exact Logged.related_pure h
    | ofType h | ofProcedure h => exact fewer_report_unknown _

/-- The unknown type has every field. Of other types both sides know the same fields. -/
theorem fewer_checkField {τ σ : Ty} (h : τ.Below σ) (field : Option (Located String)) :
    Fewer Ty.Below (checkField τ field) (checkField σ field) := by
  cases field with
  | none => exact Logged.related_pure h
  | some field =>
    cases h with
    | unknown => exact fewer_unknown (yields_checkField σ _).value
    | refl => exact fewer_refl .refl _
    | record hfields =>
      rw [checkField, checkField]
      rcases cases_of_rel (hfields.field? field.value) with ⟨hf, hf'⟩ | ⟨_, _, hf, hf', htype⟩
      · rw [hf, hf']
        exact fewer_report_unknown _
      · rw [hf, hf']
        exact Logged.related_pure htype

/-- The unknown type has elements, and goes with every index. -/
theorem fewer_checkElement {τ σ ι κ : Ty} (h : τ.Below σ) (p : Position) (hindex : ι.Below κ) :
    Fewer Ty.Below (checkElement τ p ι) (checkElement σ p κ) := by
  cases h with
  | unknown => exact fewer_unknown (yields_checkElement σ p κ).value
  | record hfields => exact fewer_report_unknown p
  | refl =>
    cases τ with
    | unknown => exact Logged.related_pure (.refl _)
    | array base lower upper =>
      have hinteger : Ty.integer.compatible κ = true → Ty.integer.compatible ι = true :=
        Ty.compatible_of_below (.refl _) hindex
      exact (fewer_require hinteger p).bind fun _ _ _ => Logged.related_pure (.refl _)
    | integer | char | record fields => exact fewer_report_unknown p

/-- Two operands that may meet may do so where less is known of them. -/
theorem fewer_operands {left left' right right' : Checked Ty} (p : Position)
    (hleft : Fewer Ty.Below left left') (hright : Fewer Ty.Below right right') :
    Fewer Ty.Below
      (do
        let type ← left
        let other ← right
        require (type.compatible other) p (.incompatibleType type other)
        return type)
      (do
        let type ← left'
        let other ← right'
        require (type.compatible other) p (.incompatibleType type other)
        return type) := by
  refine hleft.bind fun type type' htype => ?_
  refine hright.bind fun other other' hother => ?_
  refine (fewer_require (Ty.compatible_of_below htype hother) p).bind fun _ _ _ => ?_
  exact Logged.related_pure htype

mutual

/-- Expressions are reported no more where less is known, and their types are less known. Terms,
factors and variables are taken along. -/
theorem Expression.fewer_check (hs : s.Below t) : (e : Expression) →
    Fewer Ty.Below (e.check s) (e.check t)
  | .last ⟨_, left⟩ _ => by
    rw [Expression.check, Expression.check]
    exact Term.fewer_check hs left
  | .chain ⟨_, left⟩ _ ⟨q, right⟩ => by
    rw [Expression.check, Expression.check]
    exact fewer_operands q (Term.fewer_check hs left) (Expression.fewer_check hs right)

theorem Term.fewer_check (hs : s.Below t) : (term : Term) →
    Fewer Ty.Below (term.check s) (term.check t)
  | .last ⟨_, left⟩ _ => by
    rw [Term.check, Term.check]
    exact Factor.fewer_check hs left
  | .chain ⟨_, left⟩ _ ⟨q, right⟩ => by
    rw [Term.check, Term.check]
    exact fewer_operands q (Factor.fewer_check hs left) (Term.fewer_check hs right)

theorem Factor.fewer_check (hs : s.Below t) : (f : Factor) →
    Fewer Ty.Below (f.check s) (f.check t)
  | .bracket inner => by
    rw [Factor.check, Factor.check]
    exact Expression.fewer_check hs inner
  | .constant _ => Logged.related_pure (.refl _)
  | .variable v => by
    rw [Factor.check, Factor.check]
    exact Variable.fewer_check hs v
  | .hole => Logged.related_fail _

theorem Variable.fewer_check (hs : s.Below t) : (v : Variable) →
    Fewer Ty.Below (v.check s) (v.check t)
  | .whole base => by
    rw [Variable.check, Variable.check]
    exact fewer_checkBase hs base
  | .part base field none => by
    rw [Variable.check, Variable.check]
    exact (fewer_checkBase hs base).bind fun _ _ h => fewer_checkField h field
  | .part base field (some index) => by
    rw [Variable.check, Variable.check]
    refine (fewer_checkBase hs base).bind fun _ _ hbase => ?_
    refine (fewer_checkField hbase field).bind fun _ _ hpart => ?_
    exact (Expression.fewer_check hs index).bind fun _ _ hindex => fewer_checkElement hpart _ hindex

end

/-! ## Statements -/

theorem fewer_checkOperand (hs : s.Below t) (e : Expression) :
    Fewer Eq (checkOperand s e) (checkOperand t e) :=
  (e.fewer_check hs).bind fun _ _ h => fewer_require h.mayBeBase _

theorem Relation.fewer_check (hs : s.Below t) (r : Relation) :
    Fewer Eq (r.check s) (r.check t) :=
  (fewer_checkOperand hs r.left).bind fun _ _ _ => fewer_checkOperand hs r.right

/-- A variable of unknown type can be read. -/
theorem fewer_checkInput (hs : s.Below t) (name : Located String) :
    Fewer Eq (checkInput s name) (checkInput t name) := by
  rw [checkInput, checkInput]
  rcases cases_of_rel (hs.lookup name.value) with ⟨hname, hname'⟩ | ⟨_, _, hname, hname', hsymbol⟩
  · rw [hname, hname']
    exact fewer_report _
  · rw [hname, hname']
    cases hsymbol with
    | ofVariable h => exact fewer_require h.mayBeBase _
    | ofType h | ofProcedure h => exact fewer_report _

/-- An assignment to a variable of unknown type is reported only where less is known. This is the
one report that has to be left out. -/
theorem fewer_checkAssignment (hs : s.Below t) (target : Variable) (value : Expression) :
    Fewer Eq (checkAssignment s target value) (checkAssignment t target value) := by
  rw [checkAssignment, checkAssignment]
  refine (target.fewer_check hs).bind fun expected expected' hexpected => ?_
  refine (value.fewer_check hs).bind fun got got' hgot => ?_
  cases hunknown : expected.isUnknown with
  | true =>
    -- The other run reports an assignee, a mismatch or nothing; whatever it is, it goes on.
    refine fewer_invalidAssignee _ ?_
    cases expected'.isUnknown with
    | true => exact ⟨(), rfl⟩
    | false => exact (yields_require_other _ _ rfl).value
  | false =>
    have hknown : expected'.isUnknown = false := by
      cases h : expected'.isUnknown with
      | false => rfl
      | true => rw [hexpected.isUnknown h] at hunknown; exact hunknown
    rw [hknown]
    exact fewer_require (Ty.compatible_of_below hexpected hgot) _

theorem fewer_checkArguments (hs : s.Below t) {params params' : List Ty}
    (h : List.Forall₂ Ty.Below params params') (arguments : List Expression) :
    Fewer Eq (checkArguments s params arguments) (checkArguments t params' arguments) := by
  induction arguments generalizing params params' with
  | nil =>
    rw [checkArguments, checkArguments]
    exact Logged.related_pure rfl
  | cons argument arguments ih =>
    cases h with
    | nil =>
      rw [checkArguments, checkArguments]
      exact (argument.fewer_check hs).bind fun _ _ _ => ih .nil
    | cons first others =>
      rw [checkArguments, checkArguments]
      refine (argument.fewer_check hs).bind fun _ _ htype => ?_
      exact (fewer_require (Ty.compatible_of_below first htype) _).bind
        fun _ _ _ => ih others

/-- Both sides call the same procedure, with parameters that are less known in the first. -/
theorem fewer_checkCallee (hs : s.Below t) (p : Position) (call : Call) :
    Fewer (List.Forall₂ Ty.Below) (checkCallee s p call) (checkCallee t p call) := by
  rw [checkCallee, checkCallee]
  rcases cases_of_rel (hs.lookup call.name) with ⟨hname, hname'⟩ | ⟨_, _, hname, hname', hsymbol⟩
  · rw [hname, hname']
    exact (fewer_report _).bind fun _ _ _ => Logged.related_pure .nil
  · rw [hname, hname']
    cases hsymbol with
    | ofProcedure h =>
      refine (fewer_require ?_ _).bind fun _ _ _ => Logged.related_pure h
      rw [h.length_eq]
      exact id
    | ofVariable h | ofType h =>
      exact (fewer_report _).bind fun _ _ _ => Logged.related_pure .nil

theorem Call.fewer_check (hs : s.Below t) (call : Located Call) :
    Fewer Eq (Call.check s call) (Call.check t call) :=
  (fewer_checkCallee hs call.pos call.value).bind fun _ _ h => fewer_checkArguments hs h _

mutual

/-- Statements are reported no more where less is known, at any depth of branches and loops. -/
theorem Statement.fewer_check (hs : s.Below t) : (statement : Statement) →
    Fewer Eq (statement.check s) (statement.check t)
  | .conditional condition body otherwise => by
    rw [Statement.check, Statement.check]
    refine (condition.fewer_check hs).bind fun _ _ _ => ?_
    refine (Statement.fewer_checkAll hs body).bind fun _ _ _ => ?_
    exact Statement.fewer_checkAll hs otherwise
  | .loop condition body => by
    rw [Statement.check, Statement.check]
    exact (condition.fewer_check hs).bind fun _ _ _ => Statement.fewer_checkAll hs body
  | .input name => by
    rw [Statement.check, Statement.check]
    exact fewer_checkInput hs name
  | .output value => by
    rw [Statement.check, Statement.check]
    exact (value.fewer_check hs).bind fun _ _ h => fewer_require h.mayBeBase _
  | .result value => by
    rw [Statement.check, Statement.check]
    exact (value.fewer_check hs).bind fun _ _ _ => Logged.related_pure rfl
  | .assign target value => by
    rw [Statement.check, Statement.check]
    exact fewer_checkAssignment hs target value
  | .call called => by
    rw [Statement.check, Statement.check]
    exact Call.fewer_check hs called
  | .hole => Logged.related_fail _

/-- Statements are checked with fewer reports where less is known. -/
theorem Statement.fewer_checkAll (hs : s.Below t) : (statements : List Statement) →
    Fewer Eq (Statement.checkAll s statements) (Statement.checkAll t statements)
  | [] => by
    rw [Statement.checkAll, Statement.checkAll]
    exact Logged.related_pure rfl
  | statement :: statements => by
    rw [Statement.checkAll, Statement.checkAll]
    exact (Statement.fewer_check hs statement).bind fun _ _ _ =>
      Statement.fewer_checkAll hs statements

end

/-! ## Types -/

/-- Aliases are found in both scopes or in none. -/
theorem Scope.Below.lookupType? (hs : s.Below t) (name : String) :
    Option.Rel Ty.Below (s.lookupType? name) (t.lookupType? name) := by
  rw [Scope.lookupType?, Scope.lookupType?]
  rcases cases_of_rel (hs.lookup name) with ⟨hname, hname'⟩ | ⟨_, _, hname, hname', hsymbol⟩
  · rw [hname, hname']
    exact .none
  · rw [hname, hname']
    cases hsymbol with
    | ofType h => exact .some h
    | ofVariable h | ofProcedure h => exact .none

mutual

/-- An expression resolves to a type of which less is known where less is known of its names. -/
theorem TypeExpr.resolve_below (hs : s.Below t) : (e : TypeExpr) →
    Outcomes Ty.Below (e.resolve s) (e.resolve t)
  | .integer => .ok (.refl _)
  | .char => .ok (.refl _)
  | .array _ _ _ => .ok (.refl _)
  | .record groups => by
    rw [TypeExpr.resolve, TypeExpr.resolve]
    rcases (Group.resolveMembers_below hs groups).cases with ⟨_, _, hm, hm', h⟩ | ⟨fault, hm, hm'⟩
    · rw [hm, hm']
      exact .ok (.ofMembers h)
    · rw [hm, hm']
      exact .error fault
  | .named name => by
    rw [TypeExpr.resolve, TypeExpr.resolve]
    rcases cases_of_rel (hs.lookupType? name) with ⟨hname, hname'⟩ | ⟨_, _, hname, hname', h⟩
    · rw [hname, hname']
      exact .ok (.refl _)
    · rw [hname, hname']
      exact .ok h
  | .hole => .error _

theorem Group.resolveMembers_below (hs : s.Below t) : (groups : List Group) →
    Outcomes Ty.FieldsBelow (Group.resolveMembers s groups) (Group.resolveMembers t groups)
  | [] => .ok .nil
  | ⟨⟨_, type⟩, names⟩ :: groups => by
    rw [Group.resolveMembers, Group.resolveMembers]
    rcases (TypeExpr.resolve_below hs type).cases with ⟨τ, σ, hτ, hσ, hbelow⟩ | ⟨fault, hτ, hσ⟩
    · rw [hτ, hσ]
      rcases (Group.resolveMembers_below hs groups).cases with ⟨ms, ns, hm, hn, h⟩ | ⟨fault, hm, hn⟩
      · rw [hm, hn]
        have hnames : Ty.FieldsBelow (names.map fun name => (name.value, τ))
            (names.map fun name => (name.value, σ)) := by
          induction names with
          | nil => exact .nil
          | cons name names ih => exact .cons hbelow ih
        exact .ok (hnames.append h)
      · rw [hm, hn]
        exact .error fault
    · rw [hτ, hσ]
      exact .error fault

end

mutual

/-- What is wrong with a type expression does not depend on how much is known of its names. -/
theorem TypeExpr.fewer_validate (hs : s.Below t) (p : Position) : (e : TypeExpr) →
    Fewer Eq (e.validate s p) (e.validate t p)
  | .integer => Logged.related_pure rfl
  | .char => Logged.related_pure rfl
  | .array _ _ _ => fewer_refl (fun _ => rfl) _
  | .record groups => by
    rw [TypeExpr.validate, TypeExpr.validate]
    exact Group.fewer_validateAll hs [] groups
  | .named name => by
    rw [TypeExpr.validate, TypeExpr.validate]
    refine fewer_require ?_ p
    rcases cases_of_rel (hs.lookupType? name) with ⟨hname, hname'⟩ | ⟨_, _, hname, hname', _⟩
    · rw [hname, hname']
      exact id
    · rw [hname, hname']
      exact id
  | .hole => Logged.related_fail _

/-- What has been seen of a record is the same on both sides, since it consists of names. -/
theorem Group.fewer_validateAll (hs : s.Below t) : (seen : List String) → (groups : List Group) →
    Fewer Eq (Group.validateAll s seen groups) (Group.validateAll t seen groups)
  | _, [] => Logged.related_pure rfl
  | seen, ⟨⟨p, type⟩, names⟩ :: groups => by
    rw [Group.validateAll, Group.validateAll]
    refine (TypeExpr.fewer_validate hs p type).bind fun _ _ _ => ?_
    refine (fewer_refl (fun _ => rfl) (reportRepeated seen names)).bind fun _ _ _ => ?_
    exact Group.fewer_validateAll hs _ groups

end

/-- A type expression denotes a type that is less known where less is known. -/
theorem TypeExpr.fewer_check (hs : s.Below t) (e : Located TypeExpr) :
    Fewer Ty.Below (TypeExpr.check s e) (TypeExpr.check t e) :=
  (e.value.fewer_validate hs e.pos).bind fun _ _ _ =>
    Logged.related_ofExcept (e.value.resolve_below hs)

/-! ## Declarations -/

open ScopeM

/-- One analysis reports no more than another one, in a scope and with a value below. -/
abbrev FewerIn (R : α → α → Prop) (x y : Analysis α) : Prop :=
  ScopeM.Related fewer Scope.Below R x y

/-- Both innermost frames have the same names, so a name is free in both or in none. -/
theorem fewer_checkFree (name : Located String) :
    FewerIn Eq (checkFree name) (checkFree name) := by
  refine related_read fun s t hs => ?_
  rw [hs.isLocal name.value]
  exact fewer_refl (fun _ => rfl) _

theorem fewer_declare (name : String) {symbol symbol' : Symbol} (h : symbol.Below symbol') :
    FewerIn Eq (ScopeM.declare name symbol) (ScopeM.declare name symbol') :=
  related_declare name fun _ _ hs => hs.declare name h

/-- What is declared keeps the first scope below the second. -/
theorem fewer_declareFree (name : Located String) {symbol symbol' : Symbol}
    (h : symbol.Below symbol') :
    FewerIn Eq (declareFree name symbol) (declareFree name symbol') := by
  refine (fewer_checkFree name).bind fun free _ hfree => ?_
  subst hfree
  cases free with
  | false => exact related_pure rfl
  | true => exact fewer_declare name.value h

/-- Parameters of the same names, of whose types as much or less is known. -/
abbrev ParametersBelow : List (Located String × Ty) → List (Located String × Ty) → Prop :=
  List.Forall₂ fun param param' => param.1 = param'.1 ∧ param.2.Below param'.2

theorem parametersBelow_map {τ σ : Ty} (h : τ.Below σ) (names : List (Located String)) :
    ParametersBelow (names.map fun name => (name, τ)) (names.map fun name => (name, σ)) := by
  induction names with
  | nil => exact .nil
  | cons name names ih => exact .cons ⟨rfl, h⟩ ih

theorem fewer_declareParams {params params' : List (Located String × Ty)}
    (h : ParametersBelow params params') :
    FewerIn Eq (declareParams params) (declareParams params') := by
  induction h with
  | nil => exact related_pure rfl
  | @cons param param' _ _ first others ih =>
    obtain ⟨name, τ⟩ := param
    obtain ⟨name', σ⟩ := param'
    obtain ⟨rfl, htype⟩ := first
    exact (fewer_declareFree name (.ofVariable htype)).bind fun _ _ _ => ih

theorem fewer_checkDeclaredType (e : Located TypeExpr) :
    FewerIn Ty.Below (checkDeclaredType e) (checkDeclaredType e) :=
  related_read fun _ _ hs => TypeExpr.fewer_check hs e

/-- Aliases are declared in both scopes or in none, with types that are less known in the first. -/
theorem fewer_declareTypes (types : List (Located Alias)) :
    FewerIn Eq (declareTypes types) (declareTypes types) := by
  induction types with
  | nil => exact related_pure rfl
  | cons declaration types ih =>
    refine (fewer_checkFree _).bind fun free _ hfree => ?_
    subst hfree
    cases free with
    | false => exact ih
    | true =>
      refine (fewer_checkDeclaredType _).bind fun _ _ htype => ?_
      exact (fewer_declare _ (.ofType htype)).bind fun _ _ _ => ih

theorem fewer_declareVariables (groups : List (Located Group)) :
    FewerIn Eq (declareVariables groups) (declareVariables groups) := by
  induction groups with
  | nil => exact related_pure rfl
  | cons group groups ih =>
    refine (fewer_checkDeclaredType _).bind fun _ _ htype => ?_
    rw [declareNames_eq_declareParams, declareNames_eq_declareParams]
    exact (fewer_declareParams (parametersBelow_map htype _)).bind fun _ _ _ => ih

/-- Parameters have the same names, and types that are less known in the first scope. -/
theorem fewer_checkParams (params : List (Located Parameter)) :
    FewerIn ParametersBelow (checkParams params) (checkParams params) := by
  induction params with
  | nil => exact related_pure .nil
  | cons param params ih =>
    refine (fewer_checkDeclaredType _).bind fun _ _ htype => ?_
    refine ih.bind fun _ _ hothers => related_pure ?_
    exact List.rel_append (parametersBelow_map htype _) hothers

theorem fewer_body (body : List Statement) :
    FewerIn Eq (ScopeM.read fun s => Statement.checkAll s body)
      (ScopeM.read fun s => Statement.checkAll s body) :=
  related_read fun _ _ hs => Statement.fewer_checkAll hs body

mutual

/-- Procedures leave scopes of which the first knows less, as they found them. -/
theorem Procedure.fewer_check (p : Position) : (procedure : Procedure) →
    FewerIn Eq (procedure.check p) (procedure.check p)
  | ⟨name, params, types, vars, procedures, body⟩ => by
    rw [Procedure.check]
    refine (fewer_checkParams params).bind fun args args' hargs => ?_
    have hsymbol : (Symbol.procedure (args.map Prod.snd)).Below (.procedure (args'.map Prod.snd)) :=
      .ofProcedure (List.rel_map (fun _ _ h => h.2) hargs)
    refine (fewer_declareFree _ hsymbol).bind fun _ _ _ => ?_
    have hkeeps := fun args => keepsOuter_inside name (.procedure (args.map Prod.snd)) args types
      vars body (Procedure.keepsOuter_checkAll procedures)
    refine Related.inFrame ?_ (hkeeps args) (hkeeps args') fun _ _ hs => hs.enter
    refine (fewer_declare name hsymbol).bind fun _ _ _ => ?_
    refine (fewer_declareParams hargs).bind fun _ _ _ => ?_
    refine (fewer_declareTypes types).bind fun _ _ _ => ?_
    refine (fewer_declareVariables vars).bind fun _ _ _ => ?_
    exact (Procedure.fewer_checkAll procedures).bind fun _ _ _ => fewer_body body

theorem Procedure.fewer_checkAll : (procedures : List (Located Procedure)) →
    FewerIn Eq (Procedure.checkAll procedures) (Procedure.checkAll procedures)
  | [] => related_pure rfl
  | ⟨p, procedure⟩ :: procedures => by
    rw [Procedure.checkAll]
    exact (Procedure.fewer_check p procedure).bind fun _ _ _ => Procedure.fewer_checkAll procedures

end

/-- Declarations are checked with fewer reports where less is known, and leave less known. -/
theorem Declarations.fewer_check (d : Declarations) : FewerIn Eq d.check d.check := by
  refine (fewer_declareTypes d.types).bind fun _ _ _ => ?_
  refine (fewer_declareVariables d.vars).bind fun _ _ _ => ?_
  exact Procedure.fewer_checkAll d.procedures

/-- A program is a level with a body behind it. -/
theorem Program.fewer_check (p : Program) : FewerIn Eq p.check p.check :=
  p.declarations.fewer_check.bind fun _ _ _ => fewer_body p.body

/-! ## Runs to the end -/

/-- In every scope the computation comes to a value. -/
def ScopeM.Finishes {ω : Type} (x : ScopeM ω α) : Prop := ∀ s, ∃ a, (x.run s).2.value = .ok a

/-- Two steps in a row come to an end if both do, in any scope. -/
theorem ScopeM.Finishes.bind {ω β : Type} {x : ScopeM ω α} {f : α → ScopeM ω β} (hx : x.Finishes)
    (hf : ∀ a, (f a).Finishes) : (x >>= f).Finishes := by
  intro s
  obtain ⟨a, ha⟩ := hx s
  obtain ⟨b, hb⟩ := hf a (x.run s).1
  refine ⟨b, ?_⟩
  rw [run_bind, ha]
  exact hb

/-- A computation that yields something comes to an end. -/
theorem ScopeM.Yields.finishes {ω : Type} {P : ω → Bool} {x : ScopeM ω α}
    {notes : Scope → List ω} {after : Scope → α → Scope → Prop}
    (h : ∀ s, x.Yields P s (notes s) (after s)) : x.Finishes :=
  fun s => (h s).value.imp fun _ h => h.1

/-- Some level has the names of a scope. -/
theorem Scope.exists_shows (s : Scope) : ∃ level, s.Shows [level] := by
  refine ⟨⟨s.frames.flatMap (List.map Prod.fst), [], [], []⟩, fun name => ?_⟩
  rw [Bool.eq_iff_iff]
  simp only [visible, lookup, List.findSome?_isSome_iff, Frame.isSome_lookup_iff, visibleIn,
    Level.names]
  simp

theorem Procedure.finishes_checkAll {procedures : List (Located Procedure)}
    (h : Procedure.allHoleFree procedures = true) : (Procedure.checkAll procedures).Finishes := by
  intro s
  obtain ⟨level, hs⟩ := s.exists_shows
  exact (Procedure.yields_checkAll procedures h s level [] hs).value.imp fun _ h => h.1

/-- A program without holes is checked to the end, whatever the scope. -/
theorem Program.finishes_check {p : Program} (h : p.holeFree = true) : p.check.Finishes := by
  have hparts : ((aliasesHoleFree p.declarations.types = true ∧
      variablesHoleFree p.declarations.vars = true) ∧
      Procedure.allHoleFree p.declarations.procedures = true) ∧
      Statement.allHoleFree p.body = true := by
    simpa [Program.holeFree] using h
  obtain ⟨⟨⟨htypes, hvars⟩, hprocedures⟩, hbody⟩ := hparts
  have hdeclarations : p.declarations.check.Finishes := by
    refine (Yields.finishes (yields_declareTypes htypes)).bind fun _ => ?_
    refine (Yields.finishes (yields_declareVariables hvars)).bind fun _ => ?_
    exact Procedure.finishes_checkAll hprocedures
  exact hdeclarations.bind fun _ s => (Statement.yields_checkAll s p.body hbody).value

/-- A program without holes is checked to the end in two scopes, of which the first knows less. The
first run reports no more than the second, assignees apart, and where the declarations end its scope
again knows less. -/
theorem Program.gists_sublist_of_below {s t : Scope} (hs : s.Below t) (p : Program)
    (hp : p.holeFree = true) :
    (p.check.run s).2.value = .ok () ∧ (p.check.run t).2.value = .ok () ∧
      (gists (p.check.run s).2.log).Sublist (gists (p.check.run t).2.log) ∧
      (p.declarations.check.run s).1.Below (p.declarations.check.run t).1 := by
  obtain ⟨_, hvalue⟩ := Program.finishes_check hp s
  obtain ⟨_, hvalue'⟩ := Program.finishes_check hp t
  obtain ⟨hscopes, -⟩ := p.declarations.fewer_check s t hs
  obtain ⟨-, hreports⟩ := p.fewer_check s t hs
  exact ⟨hvalue, hvalue', hreports.notes, hscopes⟩

/-- A field of the variable `x` is written. -/
def fieldOutput : Program where
  name := "t"
  declarations := ⟨[], [], []⟩
  body := [.output (.last ⟨⟨3, 7⟩, .last ⟨⟨3, 7⟩,
    .variable (.part ⟨⟨3, 7⟩, "x"⟩ (some ⟨⟨3, 9⟩, "f"⟩) none)⟩ none⟩ none)]

theorem fieldOutput_gists_sublist :
    let unknown : Scope := ⟨[("x", .variable .unknown)], []⟩
    let known : Scope := ⟨[("x", .variable .integer)], []⟩
    unknown.Below known ∧ fieldOutput.holeFree = true ∧
      (gists (fieldOutput.check.run unknown).2.log).Sublist
        (gists (fieldOutput.check.run known).2.log) ∧
      gists (fieldOutput.check.run known).2.log = [(.fieldOfNonRecord, ⟨3, 9⟩, some "f")] := by
  have hbelow : (⟨[("x", .variable .unknown)], []⟩ : Scope).Below
      ⟨[("x", .variable .integer)], []⟩ := by
    refine ⟨fun name => ?_, .nil⟩
    rw [List.lookup_cons, List.lookup_cons]
    split
    · exact .some (.ofVariable (.unknown .integer))
    · exact .none
  exact ⟨hbelow, rfl, (Program.gists_sublist_of_below hbelow fieldOutput rfl).2.2.1, rfl⟩

end SnlFront
