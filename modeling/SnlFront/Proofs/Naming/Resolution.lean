import SnlFront.Proofs.Checking.Selected
import SnlFront.Proofs.Checking.Stops
import SnlFront.Proofs.Naming.Sites

/-!
# Undefined names are the unresolved ones

The analysis keeps a stack of frames that it changes on its way through a program. What is visible
in it at a body is what the static rule of scoping says, whatever the types of the names are and
whatever else has been reported. So the undefined identifiers that are reported are the unresolved
occurrences, one by one and in their order.

## Main definitions

* `isUndefined`: the diagnostics about undefined identifiers.
* `missing`: the diagnostics for the occurrences that are not visible.
* `Scope.Shows`: a scope shows exactly the names that some levels contribute.

## Main statements

* `Statement.yields_checkAll`: no error makes the check skip an occurrence.
* `Procedure.yields_check`: the bodies of a procedure.
* `Program.undefined_eq_unresolved`: the undefined identifiers of a program.
-/

namespace SnlFront

/-- Whether a diagnostic is about an undefined identifier. -/
def isUndefined (d : Located Diagnostic) : Bool := d.value.kind = .undefinedIdentifier

/-- The diagnostics for those of some occurrences that are not visible. -/
def missing (visible : String → Bool) (uses : List (Located String)) : List (Located Diagnostic) :=
  (uses.filter fun use => !visible use.value).map fun use => use.map Diagnostic.undefinedIdentifier

/-- Occurrences are looked at one by one, so a row of them may be cut anywhere. -/
@[simp] theorem missing_append (visible : String → Bool) (uses others : List (Located String)) :
    missing visible (uses ++ others) = missing visible uses ++ missing visible others := by
  simp [missing]

theorem missing_cons (visible : String → Bool) (use : Located String)
    (uses : List (Located String)) :
    missing visible (use :: uses) = missing visible [use] ++ missing visible uses :=
  missing_append visible [use] uses

/-- Whether a name stands for something. -/
def Scope.visible (s : Scope) (name : String) : Bool := (s.lookup name).isSome

/-! ## Expressions and statements -/

theorem yields_report_other (p : Position) {d : Diagnostic} (h : isUndefined ⟨p, d⟩ = false) :
    (report p d).Yields isUndefined [] :=
  Logged.yields_note_of_neg h

theorem yields_require_other (condition : Bool) (p : Position) {d : Diagnostic}
    (h : isUndefined ⟨p, d⟩ = false) : (require condition p d).Yields isUndefined [] :=
  Logged.yields_demand_of_neg condition h

/-- A name that is not visible is reported once, where it stands. -/
theorem yields_report_undefined (use : Located String) {visible : String → Bool}
    (h : visible use.value = false) :
    (report use.pos (.undefinedIdentifier use.value)).Yields isUndefined
      (missing visible [use]) := by
  have hmissing : missing visible [use] = [use.map Diagnostic.undefinedIdentifier] := by
    simp [missing, h]
  rw [hmissing]
  exact Logged.yields_note_of_pos rfl

/-- A name that is visible is not missed. -/
theorem missing_of_visible (use : Located String) {visible : String → Bool}
    (h : visible use.value = true) : missing visible [use] = [] := by
  simp [missing, h]

theorem Scope.visible_of_lookup {s : Scope} {name : String} {symbol : Symbol}
    (h : s.lookup name = some symbol) : s.visible name = true := by
  simp [visible, h]

/-- A name that stands for something other than a variable is reported, but not as undefined. -/
theorem yields_checkBase (s : Scope) (base : Located String) :
    (checkBase s base).Yields isUndefined (missing s.visible [base]) := by
  rw [checkBase]
  split
  · next h =>
    have hhidden : s.visible base.value = false := by simp [Scope.visible, h]
    exact (yields_report_undefined base hhidden).bind_silent fun _ => Logged.yields_pure _
  · next type h =>
    rw [missing_of_visible base (Scope.visible_of_lookup h)]
    exact Logged.yields_pure type
  · next symbol _ h =>
    rw [missing_of_visible base (Scope.visible_of_lookup h)]
    exact (yields_report_other base.pos rfl).bind fun _ => Logged.yields_pure Ty.unknown

/-- A question about the type of a variable never brings up a name. -/
theorem yields_checkField (type : Ty) (field : Option (Located String)) :
    (checkField type field).Yields isUndefined [] := by
  cases field with
  | none => exact Logged.yields_pure type
  | some field =>
    cases type with
    | unknown => exact Logged.yields_pure Ty.unknown
    | record fields =>
      rw [checkField]
      split
      · exact Logged.yields_pure _
      · exact (yields_report_other field.pos rfl).bind fun _ => Logged.yields_pure _
    | integer | char | array base lower upper =>
      exact (yields_report_other field.pos rfl).bind fun _ =>
        Logged.yields_pure _

theorem yields_checkElement (type : Ty) (p : Position) (index : Ty) :
    (checkElement type p index).Yields isUndefined [] := by
  cases type with
  | unknown => exact Logged.yields_pure Ty.unknown
  | array base lower upper =>
    exact (yields_require_other _ p rfl).bind fun _ =>
      Logged.yields_pure base
  | integer | char | record fields =>
    exact (yields_report_other p rfl).bind fun _ =>
      Logged.yields_pure _

/-- Two operands yield what each of them yields; their comparison adds nothing. -/
theorem yields_operands {left right : Checked Ty} {first second : List (Located Diagnostic)}
    (p : Position) (hleft : left.Yields isUndefined first)
    (hright : right.Yields isUndefined second) :
    Logged.Yields isUndefined (do
      let type ← left
      let other ← right
      require (type.compatible other) p (.incompatibleType type other)
      return type) (first ++ second) := by
  refine hleft.bind fun type => ?_
  have hcompared : ∀ other, Logged.Yields isUndefined (do
      require (type.compatible other) p (.incompatibleType type other)
      return type) [] := fun other =>
    (yields_require_other _ p rfl).bind fun _ =>
      Logged.yields_pure type
  exact hright.bind_silent hcompared

mutual

/-- An expression without holes yields its occurrences that are not visible. -/
theorem Expression.yields_check (s : Scope) : (e : Expression) → e.holeFree = true →
    (e.check s).Yields isUndefined (missing s.visible e.uses)
  | .last ⟨p, left⟩ sign, h => by
    rw [Expression.check, Expression.uses]
    exact Term.yields_check s left h
  | .chain ⟨p, left⟩ sign ⟨q, right⟩, h => by
    have hparts : left.holeFree = true ∧ right.holeFree = true := by
      simpa [Expression.holeFree] using h
    rw [Expression.check, Expression.uses, missing_append]
    exact yields_operands q (Term.yields_check s left hparts.1)
      (Expression.yields_check s right hparts.2)

/-- Terms, factors and variables are looked at from left to right, like expressions. -/
theorem Term.yields_check (s : Scope) : (t : Term) → t.holeFree = true →
    (t.check s).Yields isUndefined (missing s.visible t.uses)
  | .last ⟨p, left⟩ sign, h => by
    rw [Term.check, Term.uses]
    exact Factor.yields_check s left h
  | .chain ⟨p, left⟩ sign ⟨q, right⟩, h => by
    have hparts : left.holeFree = true ∧ right.holeFree = true := by
      simpa [Term.holeFree] using h
    rw [Term.check, Term.uses, missing_append]
    exact yields_operands q (Factor.yields_check s left hparts.1)
      (Term.yields_check s right hparts.2)

theorem Factor.yields_check (s : Scope) : (f : Factor) → f.holeFree = true →
    (f.check s).Yields isUndefined (missing s.visible f.uses)
  | .bracket inner, h => by
    rw [Factor.check, Factor.uses]
    exact Expression.yields_check s inner h
  | .constant value, _ => Logged.yields_pure Ty.integer
  | .variable v, h => by
    rw [Factor.check, Factor.uses]
    exact Variable.yields_check s v h
  | .hole, h => by cases h

theorem Variable.yields_check (s : Scope) : (v : Variable) → v.holeFree = true →
    (v.check s).Yields isUndefined (missing s.visible v.uses)
  | .whole base, _ => by
    rw [Variable.check, Variable.uses]
    exact yields_checkBase s base
  | .part base field none, _ => by
    rw [Variable.check, Variable.uses]
    exact (yields_checkBase s base).bind_silent fun type => yields_checkField type field
  | .part base field (some index), h => by
    have hindex := Expression.yields_check s index h
    rw [Variable.check, Variable.uses, missing_cons]
    refine (yields_checkBase s base).bind fun type => ?_
    refine (yields_checkField type field).bind fun part => ?_
    exact hindex.bind_silent fun indexType => yields_checkElement part index.left.pos indexType

end

theorem yields_checkOperand (s : Scope) {e : Expression} (h : e.holeFree = true) :
    (checkOperand s e).Yields isUndefined (missing s.visible e.uses) :=
  (e.yields_check s h).bind_silent fun _ => yields_require_other _ _ rfl

theorem Relation.yields_check (s : Scope) {r : Relation} (h : r.holeFree = true) :
    (r.check s).Yields isUndefined (missing s.visible r.uses) := by
  have hparts : r.left.holeFree = true ∧ r.right.holeFree = true := by
    simpa [Relation.holeFree] using h
  rw [Relation.check, Relation.uses, missing_append]
  exact (yields_checkOperand s hparts.1).bind fun _ => yields_checkOperand s hparts.2

/-- What is read is an occurrence like any other. -/
theorem yields_checkInput (s : Scope) (name : Located String) :
    (checkInput s name).Yields isUndefined (missing s.visible [name]) := by
  rw [checkInput]
  split
  · next h =>
    have hhidden : s.visible name.value = false := by simp [Scope.visible, h]
    exact yields_report_undefined name hhidden
  · next type h =>
    rw [missing_of_visible name (Scope.visible_of_lookup h)]
    exact yields_require_other _ name.pos rfl
  · next symbol _ h =>
    rw [missing_of_visible name (Scope.visible_of_lookup h)]
    exact yields_report_other name.pos rfl

/-- Both sides of an assignment are looked at, the target first. -/
theorem yields_checkAssignment (s : Scope) {target : Variable} {value : Expression}
    (htarget : target.holeFree = true) (hvalue : value.holeFree = true) :
    (checkAssignment s target value).Yields isUndefined
      (missing s.visible (target.uses ++ value.uses)) := by
  rw [checkAssignment, missing_append]
  refine (target.yields_check s htarget).bind fun expected => ?_
  refine (value.yields_check s hvalue).bind_silent fun got => ?_
  cases expected.isUnknown
  · exact yields_require_other _ _ rfl
  · exact yields_report_other _ rfl

/-- All arguments are looked at, with or without a parameter to go with them. -/
theorem yields_checkArguments (s : Scope) (params : List Ty) {arguments : List Expression}
    (h : arguments.all Expression.holeFree = true) :
    (checkArguments s params arguments).Yields isUndefined
      (missing s.visible (arguments.flatMap Expression.uses)) := by
  induction arguments generalizing params with
  | nil =>
    rw [checkArguments]
    exact Logged.yields_pure ()
  | cons argument arguments ih =>
    have hparts : argument.holeFree = true ∧ arguments.all Expression.holeFree = true := by
      simpa using h
    have hargument := argument.yields_check s hparts.1
    rw [List.flatMap_cons, missing_append]
    cases params with
    | nil =>
      rw [checkArguments]
      exact hargument.bind fun _ => ih [] hparts.2
    | cons param params =>
      rw [checkArguments]
      refine hargument.bind fun type => ?_
      exact (yields_require_other _ _ rfl).bind fun _ => ih params hparts.2

/-- The name that is called is looked up ahead of the arguments. -/
theorem yields_checkCallee (s : Scope) (call : Located Call) :
    (checkCallee s call.pos call.value).Yields isUndefined
      (missing s.visible [call.map Call.name]) := by
  rw [checkCallee]
  split
  · next h =>
    have hhidden : s.visible (call.map Call.name).value = false := by simp [Scope.visible, h]
    exact (yields_report_undefined (call.map Call.name) hhidden).bind_silent fun _ =>
      Logged.yields_pure _
  · next params h =>
    rw [missing_of_visible (call.map Call.name) (Scope.visible_of_lookup h)]
    exact (yields_require_other _ call.pos rfl).bind fun _ => Logged.yields_pure params
  · next symbol _ h =>
    rw [missing_of_visible (call.map Call.name) (Scope.visible_of_lookup h)]
    exact (yields_report_other call.pos rfl).bind fun _ => Logged.yields_pure _

/-- A call with a wrong number of arguments has all of them looked at. -/
theorem Call.yields_check (s : Scope) {call : Located Call} (h : call.value.holeFree = true) :
    (Call.check s call).Yields isUndefined (missing s.visible (Call.uses call)) := by
  rw [Call.check, Call.uses, missing_cons]
  exact (yields_checkCallee s call).bind fun params => yields_checkArguments s params h

mutual

/-- A statement without holes yields its occurrences that are not visible. -/
theorem Statement.yields_check (s : Scope) : (statement : Statement) → statement.holeFree = true →
    (statement.check s).Yields isUndefined (missing s.visible statement.uses)
  | .conditional condition body otherwise, h => by
    have hparts : (condition.holeFree = true ∧ Statement.allHoleFree body = true) ∧
        Statement.allHoleFree otherwise = true := by
      simpa [Statement.holeFree] using h
    rw [Statement.check, Statement.uses, missing_append, missing_append, List.append_assoc]
    refine (condition.yields_check s hparts.1.1).bind fun _ => ?_
    refine (Statement.yields_checkAll s body hparts.1.2).bind fun _ => ?_
    exact Statement.yields_checkAll s otherwise hparts.2
  | .loop condition body, h => by
    have hparts : condition.holeFree = true ∧ Statement.allHoleFree body = true := by
      simpa [Statement.holeFree] using h
    rw [Statement.check, Statement.uses, missing_append]
    refine (condition.yields_check s hparts.1).bind fun _ => ?_
    exact Statement.yields_checkAll s body hparts.2
  | .input name, _ => by
    rw [Statement.check, Statement.uses]
    exact yields_checkInput s name
  | .output value, h => by
    rw [Statement.check, Statement.uses]
    exact (value.yields_check s h).bind_silent fun _ => yields_require_other _ _ rfl
  | .result value, h => by
    rw [Statement.check, Statement.uses]
    exact (value.yields_check s h).bind_silent fun _ => Logged.yields_pure ()
  | .assign target value, h => by
    have hparts : target.holeFree = true ∧ value.holeFree = true := by
      simpa [Statement.holeFree] using h
    rw [Statement.check, Statement.uses]
    exact yields_checkAssignment s hparts.1 hparts.2
  | .call called, h => by
    rw [Statement.check, Statement.uses]
    exact Call.yields_check s h
  | .hole, h => by cases h

/-- Rows of statements are looked at in order. -/
theorem Statement.yields_checkAll (s : Scope) : (statements : List Statement) →
    Statement.allHoleFree statements = true →
    (Statement.checkAll s statements).Yields isUndefined
      (missing s.visible (Statement.usesAll statements))
  | [], _ => by
    rw [Statement.checkAll]
    exact Logged.yields_pure ()
  | statement :: statements, h => by
    have hparts : statement.holeFree = true ∧ Statement.allHoleFree statements = true := by
      simpa [Statement.allHoleFree] using h
    rw [Statement.checkAll, Statement.usesAll, missing_append]
    refine (Statement.yields_check s statement hparts.1).bind fun _ => ?_
    exact Statement.yields_checkAll s statements hparts.2

end

/-! ## Declarations -/

theorem yields_reportRepeated (seen : List String) (names : List (Located String)) :
    (reportRepeated seen names).Yields isUndefined [] := by
  induction names generalizing seen with
  | nil => exact Logged.yields_pure ()
  | cons name names ih => exact (yields_require_other _ name.pos rfl).bind fun _ => ih _

mutual

/-- Names of types are reported as types, so they count among no occurrences. -/
theorem TypeExpr.yields_validate (s : Scope) (p : Position) : (t : TypeExpr) →
    t.holeFree = true → (t.validate s p).Yields isUndefined []
  | .integer, _ => Logged.yields_pure ()
  | .char, _ => Logged.yields_pure ()
  | .array _ _ _, _ => yields_require_other _ p rfl
  | .record groups, h => by
    rw [TypeExpr.validate]
    exact Group.yields_validateAll s [] groups h
  | .named _, _ => yields_require_other _ p rfl
  | .hole, h => by cases h

theorem Group.yields_validateAll (s : Scope) (seen : List String) : (groups : List Group) →
    Group.allHoleFree groups = true → (Group.validateAll s seen groups).Yields isUndefined []
  | [], _ => Logged.yields_pure ()
  | ⟨⟨p, type⟩, names⟩ :: groups, h => by
    have hparts : type.holeFree = true ∧ Group.allHoleFree groups = true := by
      simpa [Group.allHoleFree] using h
    rw [Group.validateAll]
    refine (TypeExpr.yields_validate s p type hparts.1).bind fun _ => ?_
    refine (yields_reportRepeated seen names).bind fun _ => ?_
    exact Group.yields_validateAll s _ groups hparts.2

end

/-- A type expression yields no undefined identifier. -/
theorem TypeExpr.yields_check (s : Scope) {t : Located TypeExpr} (h : t.value.holeFree = true) :
    (TypeExpr.check s t).Yields isUndefined [] := by
  obtain ⟨τ, hτ⟩ := t.value.resolve_eq_ok s h
  rw [TypeExpr.check, hτ]
  exact (t.value.yields_validate s t.pos h).bind fun _ => ⟨⟨τ, rfl⟩, rfl⟩

/-- A scope shows some names more than another one. -/
def Scope.Grows (s : Scope) (names : List String) (t : Scope) : Prop :=
  ∀ name, t.visible name = (names.contains name || s.visible name)

theorem Scope.grows_nil (s : Scope) : s.Grows [] s := by
  intro name
  simp

/-- Names that are declared in two steps are all there afterwards. -/
theorem Scope.Grows.trans {s t u : Scope} {names others : List String} (h : s.Grows names t)
    (h' : t.Grows others u) : s.Grows (names ++ others) u := by
  intro name
  rw [h' name, h name]
  simp [Bool.or_left_comm, ← Bool.or_assoc]

/-- A declaration adds its name, whatever it stood for before. -/
theorem Scope.grows_declare (s : Scope) (name : String) (symbol : Symbol) :
    s.Grows [name] (s.declare name symbol) := by
  intro other
  by_cases h : other = name
  · simp [visible, lookup_declare, h]
  · simp [visible, lookup_declare, h]

theorem Scope.visible_of_isLocal {s : Scope} {name : String} (h : s.isLocal name = true) :
    s.visible name = true := by
  obtain ⟨symbol, hsymbol⟩ := Option.isSome_iff_exists.1 h
  have hfound : s.lookup name = some symbol := by
    simp [Scope.lookup, Scope.frames, hsymbol]
  exact visible_of_lookup hfound

/-- A name that is taken is visible already. -/
theorem Scope.grows_of_isLocal {s : Scope} {name : String} (h : s.isLocal name = true) :
    s.Grows [name] s := by
  intro other
  by_cases heq : other = name
  · simp [heq, visible_of_isLocal h]
  · simp [heq]

open ScopeM

theorem yields_checkFree (name : Located String) (s : Scope) :
    (checkFree name).Yields isUndefined s [] fun free t =>
      t = s ∧ free = !s.isLocal name.value := by
  constructor
  · rw [run_checkFree]
    exact ⟨_, rfl, rfl, rfl⟩
  · rw [run_checkFree]
    cases s.isLocal name.value <;> rfl

/-- Whether the name was free or not, it is visible afterwards. -/
theorem yields_declareFree (name : Located String) (symbol : Symbol) (s : Scope) :
    (declareFree name symbol).Yields isUndefined s [] fun _ t => s.Grows [name.value] t := by
  refine (yields_checkFree name s).bind fun free t h => ?_
  obtain ⟨rfl, hfree⟩ := h
  cases hlocal : t.isLocal name.value
  · rw [hlocal] at hfree
    subst hfree
    exact (yields_declare _ _ t).mono fun _ u hu => hu ▸ t.grows_declare name.value symbol
  · rw [hlocal] at hfree
    subst hfree
    exact yields_pure (Scope.grows_of_isLocal hlocal)

theorem yields_declareParams (params : List (Located String × Ty)) (s : Scope) :
    (declareParams params).Yields isUndefined s [] fun _ t =>
      s.Grows (params.map fun param => param.1.value) t := by
  induction params generalizing s with
  | nil => exact yields_pure s.grows_nil
  | cons param params ih =>
    refine (yields_declareFree param.1 _ s).bind fun _ t ht => ?_
    exact (ih t).mono fun _ u hu => ht.trans hu

theorem Group.yields_declareNames (g : Group) (τ : Ty) (s : Scope) :
    (declareNames τ g.names).Yields isUndefined s [] fun _ t => s.Grows g.declared t := by
  rw [declareNames_eq_declareParams]
  refine (yields_declareParams _ s).mono fun _ t ht => ?_
  simpa [Group.declared, Function.comp_def] using ht

theorem yields_checkDeclaredType {t : Located TypeExpr} (h : t.value.holeFree = true) (s : Scope) :
    (checkDeclaredType t).Yields isUndefined s [] fun _ u => u = s :=
  yields_read (TypeExpr.yields_check s h)

/-- Aliases that are passed over have names that are visible already, so all names are visible in
the end. -/
theorem yields_declareTypes {types : List (Located Alias)} (h : aliasesHoleFree types = true)
    (s : Scope) :
    (declareTypes types).Yields isUndefined s [] fun _ t => s.Grows (typeNames types) t := by
  induction types generalizing s with
  | nil => exact yields_pure s.grows_nil
  | cons declaration types ih =>
    have hparts : declaration.value.base.value.holeFree = true ∧ aliasesHoleFree types = true := by
      simpa [aliasesHoleFree] using h
    rw [declareTypes]
    refine (yields_checkFree _ s).silent_bind fun free t hfree => ?_
    obtain ⟨rfl, hfree⟩ := hfree
    cases hlocal : t.isLocal declaration.value.name
    · have hdeclared : free = true := by simpa [hlocal] using hfree
      subst hdeclared
      refine (yields_checkDeclaredType hparts.1 t).silent_bind fun type u hu => ?_
      subst hu
      refine (yields_declare _ _ u).silent_bind fun _ v hv => ?_
      subst hv
      exact (ih hparts.2 _).mono fun _ w hw => (u.grows_declare _ _).trans hw
    · have hskipped : free = false := by simpa [hlocal] using hfree
      subst hskipped
      exact (ih hparts.2 t).mono fun _ w hw => (Scope.grows_of_isLocal hlocal).trans hw

/-- The names of all groups are visible in the end, whatever their types are. -/
theorem yields_declareVariables {vars : List (Located Group)} (h : variablesHoleFree vars = true)
    (s : Scope) :
    (declareVariables vars).Yields isUndefined s [] fun _ t => s.Grows (variableNames vars) t := by
  induction vars generalizing s with
  | nil => exact yields_pure s.grows_nil
  | cons group vars ih =>
    have hparts : group.value.type.value.holeFree = true ∧ variablesHoleFree vars = true := by
      simpa [variablesHoleFree] using h
    rw [declareVariables]
    refine (yields_checkDeclaredType hparts.1 s).silent_bind fun type t ht => ?_
    subst ht
    refine (group.value.yields_declareNames type t).silent_bind fun _ u hu => ?_
    exact (ih hparts.2 u).mono fun _ v hv => hu.trans hv

/-- Parameters are not visible before the frame of the procedure is opened. -/
theorem yields_checkParams {params : List (Located Parameter)}
    (h : parametersHoleFree params = true) (s : Scope) :
    (checkParams params).Yields isUndefined s [] fun args t =>
      t = s ∧ (args.map fun arg => arg.1.value) = parameterNames params := by
  induction params with
  | nil => exact yields_pure ⟨rfl, rfl⟩
  | cons param params ih =>
    have hparts : param.value.group.type.value.holeFree = true ∧
        parametersHoleFree params = true := by
      simpa [parametersHoleFree] using h
    rw [checkParams]
    refine (yields_checkDeclaredType hparts.1 s).silent_bind fun type t ht => ?_
    subst ht
    refine (ih hparts.2).silent_bind fun args u hu => ?_
    obtain ⟨rfl, hargs⟩ := hu
    refine yields_pure ⟨rfl, ?_⟩
    simp [parameterNames, Group.declared, Function.comp_def, hargs]

/-! ## Levels -/

/-- A scope shows exactly the names that some levels contribute. -/
def Scope.Shows (s : Scope) (levels : List Level) : Prop :=
  ∀ name, s.visible name = visibleIn levels name

/-- A scope that grows shows the same levels, of which the innermost has grown. -/
theorem Scope.Shows.grows {s t : Scope} {names : List String} {level : Level}
    {outer : List Level} (hs : s.Shows (level :: outer)) (ht : s.Grows names t) (level' : Level)
    (hnames : ∀ name, name ∈ level'.names ↔ name ∈ names ∨ name ∈ level.names) :
    t.Shows (level' :: outer) := by
  intro name
  have hcontains : level'.names.contains name =
      (names.contains name || level.names.contains name) := by
    rw [Bool.eq_iff_iff]
    simpa using hnames name
  rw [ht name, hs name]
  simp only [visibleIn, List.any_cons, hcontains, Bool.or_assoc]

/-- A new frame adds a level without names. -/
theorem Scope.Shows.enter {s : Scope} {levels : List Level} (hs : s.Shows levels) :
    s.enter.Shows (⟨[], [], [], []⟩ :: levels) := by
  intro name
  have hsame : visibleIn (⟨[], [], [], []⟩ :: levels) name = visibleIn levels name := by
    simp [visibleIn, Level.names]
  rw [hsame]
  exact hs name

/-- The diagnostics about undefined identifiers in a body. -/
def Site.missing (site : Site) : List (Located Diagnostic) :=
  SnlFront.missing (visibleIn site.levels) (Statement.usesAll site.body)

/-- A body is looked at with the names that its levels contribute. -/
theorem Scope.Shows.yields_body {s : Scope} {levels : List Level} (hs : s.Shows levels)
    {body : List Statement} (h : Statement.allHoleFree body = true) :
    (ScopeM.read fun s => Statement.checkAll s body).Yields isUndefined s
      (Site.missing ⟨levels, body⟩) fun _ t => t = s := by
  have hbody := Statement.yields_checkAll s body h
  rw [funext hs] at hbody
  exact yields_read hbody

/-- The types of a level come into sight before its variables and procedures. -/
theorem Scope.Shows.yields_declareTypes {s : Scope} {own : List String} {outer : List Level}
    (hs : s.Shows (⟨own, [], [], []⟩ :: outer)) {types : List (Located Alias)}
    (h : aliasesHoleFree types = true) :
    (declareTypes types).Yields isUndefined s [] fun _ t =>
      t.Shows (⟨own, typeNames types, [], []⟩ :: outer) := by
  refine (SnlFront.yields_declareTypes h s).mono fun _ t ht => ?_
  exact hs.grows ht _ (by grind [Level.names])

/-- Variables are added to the level, behind its aliases. -/
theorem Scope.Shows.yields_declareVariables {s : Scope} {own types : List String}
    {outer : List Level} (hs : s.Shows (⟨own, types, [], []⟩ :: outer))
    {vars : List (Located Group)} (h : variablesHoleFree vars = true) :
    (declareVariables vars).Yields isUndefined s [] fun _ t =>
      t.Shows (⟨own, types, variableNames vars, []⟩ :: outer) := by
  refine (SnlFront.yields_declareVariables h s).mono fun _ t ht => ?_
  exact hs.grows ht _ (by grind [Level.names])

/-- The level of a procedure starts with its name and its parameters. -/
theorem Scope.Shows.enter_procedure {s t : Scope} {levels : List Level} (hs : s.Shows levels)
    (name : String) (symbol : Symbol) {params : List String}
    (ht : (s.enter.declare name symbol).Grows params t) :
    t.Shows (⟨name :: params, [], [], []⟩ :: levels) := by
  have hname := hs.enter.grows (s.enter.grows_declare name symbol) ⟨[name], [], [], []⟩
    (by grind [Level.names])
  exact hname.grows ht _ (by grind [Level.names])

mutual

/-- A procedure without holes yields the undefined identifiers of the bodies inside it. Behind it
one more procedure is in sight. -/
theorem Procedure.yields_check (q : Position) : (p : Procedure) → p.holeFree = true →
    (s : Scope) → (level : Level) → (outer : List Level) → s.Shows (level :: outer) →
    (p.check q).Yields isUndefined s
      ((p.sites (level.see p.name :: outer)).flatMap Site.missing)
      fun _ t => t.Shows (level.see p.name :: outer)
  | ⟨name, params, types, vars, procedures, body⟩, h, s, level, outer, hs => by
    have hparts : (((parametersHoleFree params = true ∧ aliasesHoleFree types = true) ∧
        variablesHoleFree vars = true) ∧ Procedure.allHoleFree procedures = true) ∧
        Statement.allHoleFree body = true := by
      simpa [Procedure.holeFree] using h
    obtain ⟨⟨⟨⟨hparams, htypes⟩, hvars⟩, hprocedures⟩, hbody⟩ := hparts
    rw [Procedure.check, Procedure.sites, List.flatMap_append]
    refine (yields_checkParams hparams s).silent_bind fun args t ht => ?_
    obtain ⟨rfl, hargs⟩ := ht
    refine (yields_declareFree _ _ t).silent_bind fun _ u hu => ?_
    have hu := hs.grows hu (level.see name) (by grind [Level.names, Level.see])
    -- The frame of the procedure gains names step by step, and the level around it stays.
    have hkeeps := keepsOuter_inside name (.procedure (args.map Prod.snd)) args types vars body
      (Procedure.keepsOuter_checkAll procedures)
    refine Yields.mono (Yields.inFrame ?_ hkeeps) fun _ v hv => hv ▸ hu
    refine (yields_declare name _ u.enter).silent_bind fun _ v hv => ?_
    subst hv
    refine (yields_declareParams args _).silent_bind fun _ v hv => ?_
    rw [hargs] at hv
    refine ((hu.enter_procedure name _ hv).yields_declareTypes htypes).silent_bind fun _ w hw => ?_
    refine (hw.yields_declareVariables hvars).silent_bind fun _ x hx => ?_
    refine (Procedure.yields_checkAll procedures hprocedures x _ _ hx).bind fun _ y hy => ?_
    simpa using (hy.yields_body hbody).mono fun _ _ _ => trivial

theorem Procedure.yields_checkAll : (procedures : List (Located Procedure)) →
    Procedure.allHoleFree procedures = true →
    (s : Scope) → (level : Level) → (outer : List Level) → s.Shows (level :: outer) →
    (Procedure.checkAll procedures).Yields isUndefined s
      ((Procedure.sitesAll outer level procedures).flatMap Site.missing)
      fun _ t => t.Shows
        ({ level with procedures := level.procedures ++ procedureNames procedures } :: outer)
  | [], _, s, level, outer, hs => by
    rw [Procedure.checkAll, Procedure.sitesAll]
    refine yields_pure ?_
    simpa [procedureNames] using hs
  | ⟨q, p⟩ :: procedures, h, s, level, outer, hs => by
    have hparts : p.holeFree = true ∧ Procedure.allHoleFree procedures = true := by
      simpa [Procedure.allHoleFree] using h
    rw [Procedure.checkAll, Procedure.sitesAll, List.flatMap_append]
    refine (Procedure.yields_check q p hparts.1 s level outer hs).bind fun _ t ht => ?_
    refine (Procedure.yields_checkAll procedures hparts.2 t _ outer ht).mono fun _ u hu => ?_
    simpa [Level.see, procedureNames] using hu

end

/-! ## Programs -/

theorem Scope.shows_empty : Scope.empty.Shows [⟨[], [], [], []⟩] := by
  intro name
  simp [visible, visibleIn, Level.names, lookup, frames, empty]

/-- The declarations of the outermost level yield what is missing in the bodies of its
procedures. -/
theorem Declarations.yields_check {d : Declarations} (htypes : aliasesHoleFree d.types = true)
    (hvars : variablesHoleFree d.vars = true)
    (hprocedures : Procedure.allHoleFree d.procedures = true) {s : Scope}
    (hs : s.Shows [⟨[], [], [], []⟩]) :
    d.check.Yields isUndefined s
      ((Procedure.sitesAll [] ⟨[], typeNames d.types, variableNames d.vars, []⟩
        d.procedures).flatMap Site.missing)
      fun _ t => t.Shows
        [⟨[], typeNames d.types, variableNames d.vars, procedureNames d.procedures⟩] := by
  rw [Declarations.check]
  refine (hs.yields_declareTypes htypes).silent_bind fun _ t ht => ?_
  refine (ht.yields_declareVariables hvars).silent_bind fun _ u hu => ?_
  exact Procedure.yields_checkAll d.procedures hprocedures u _ _ hu

/-- A program yields what is missing in all its bodies, in their order. -/
theorem Program.yields_check {p : Program} (h : p.holeFree = true) :
    p.check.Yields isUndefined .empty (p.sites.flatMap Site.missing) fun _ _ => True := by
  have hparts : ((aliasesHoleFree p.declarations.types = true ∧
      variablesHoleFree p.declarations.vars = true) ∧
      Procedure.allHoleFree p.declarations.procedures = true) ∧
      Statement.allHoleFree p.body = true := by
    simpa [Program.holeFree] using h
  obtain ⟨⟨⟨htypes, hvars⟩, hprocedures⟩, hbody⟩ := hparts
  rw [Program.check, Program.sites, List.flatMap_append]
  refine (Declarations.yields_check htypes hvars hprocedures Scope.shows_empty).bind
    fun _ t ht => ?_
  simpa using (ht.yields_body hbody).mono fun _ _ _ => trivial

/-- The undefined identifiers that are reported of a program without holes are its unresolved
occurrences, with their names and positions and in their order. -/
theorem Program.undefined_eq_unresolved (p : Program) (h : p.holeFree = true) :
    ∃ ds, p.analyze = .ok ds ∧ ds.filter isUndefined =
      p.unresolved.map fun use => use.map Diagnostic.undefinedIdentifier := by
  have hchecked := Program.yields_check h
  obtain ⟨_, hvalue, -⟩ := hchecked.value
  refine ⟨(p.check.run .empty).2.log, ?_, ?_⟩
  · rw [Program.analyze, hvalue]
    rfl
  · rw [hchecked.notes, Program.unresolved, List.map_flatMap]
    rfl

/-- Two procedures `p` and `q` in a row: `q` stands behind `p`, so `p` cannot call it, while `q` can
call `p`. -/
def siblings : Program where
  name := "t"
  declarations := ⟨[], [], [
    ⟨⟨1, 1⟩, ⟨"p", [], [], [], [], [.call ⟨⟨2, 3⟩, ⟨"q", []⟩⟩]⟩⟩,
    ⟨⟨4, 1⟩, ⟨"q", [], [], [], [], [.call ⟨⟨5, 3⟩, ⟨"p", []⟩⟩]⟩⟩]⟩
  body := [.input ⟨⟨8, 3⟩, "x"⟩]

theorem siblings_undefined :
    siblings.holeFree = true ∧ ∃ ds, siblings.analyze = .ok ds ∧ ds.filter isUndefined =
      [⟨⟨2, 3⟩, .undefinedIdentifier "q"⟩, ⟨⟨8, 3⟩, .undefinedIdentifier "x"⟩] :=
  ⟨rfl, siblings.undefined_eq_unresolved rfl⟩

end SnlFront
