import SnlFront.Proofs.Scope.Frames
import SnlFront.Proofs.Typing.Expressions

/-!
# Well typed programs are those without diagnostics

Declarations that are checked without a report are declared in the innermost frame one after the
other, and what they declare is what the rules say. A frame knows which names of its level have been
declared so far, so that the absence of reports about names comes down to the condition of the rules
that the names of a level are distinct.

## Main definitions

* `Scope.declareAll`: the scope behind some declarations.

## Main statements

* `clean_level_iff`: the declarations and the body of a level.
* `Procedure.clean_check_iff`: a procedure.
* `Program.analyze_eq_nil_iff`: a program has no diagnostics exactly if it is well typed.
-/

namespace SnlFront

/-! ## Scopes behind declarations -/

namespace Scope

/-- The scope behind some declarations in the innermost frame. -/
def declareAll (s : Scope) (bindings : List (String × Symbol)) : Scope :=
  bindings.foldl (fun s binding => s.declare binding.1 binding.2) s

/-- The names of the innermost frame. -/
def Taken (s : Scope) (name : String) : Prop := s.isLocal name = true

theorem declareAll_cons (s : Scope) (name : String) (symbol : Symbol)
    (bindings : List (String × Symbol)) :
    s.declareAll ((name, symbol) :: bindings) = (s.declare name symbol).declareAll bindings := rfl

theorem declareAll_append (s : Scope) (bindings others : List (String × Symbol)) :
    s.declareAll (bindings ++ others) = (s.declareAll bindings).declareAll others :=
  List.foldl_append

theorem lookup_declare_eq (s : Scope) (name : String) (symbol : Symbol) :
    (s.declare name symbol).lookup = Env.bind s.lookup name symbol :=
  funext fun other => s.lookup_declare name other symbol

/-- Declarations change what names stand for as the rules say: later ones hide earlier ones. -/
theorem lookup_declareAll (s : Scope) (bindings : List (String × Symbol)) :
    (s.declareAll bindings).lookup = Env.extend s.lookup bindings := by
  induction bindings generalizing s with
  | nil => rfl
  | cons binding bindings ih =>
    rw [declareAll_cons, ih, lookup_declare_eq]
    rfl

theorem taken_declare (s : Scope) (name : String) (symbol : Symbol) (other : String) :
    (s.declare name symbol).Taken other ↔ other = name ∨ s.Taken other := by
  simp [Taken, isLocal_declare]

/-- Behind some declarations the names of the level are those, and the ones before. -/
theorem taken_declareAll (s : Scope) (bindings : List (String × Symbol)) (name : String) :
    (s.declareAll bindings).Taken name ↔ name ∈ bindings.map Prod.fst ∨ s.Taken name := by
  induction bindings generalizing s with
  | nil => simp [declareAll]
  | cons binding bindings ih =>
    rw [declareAll_cons, ih, taken_declare, List.map_cons, List.mem_cons]
    tauto

/-- In a new frame every name is free. -/
theorem not_taken_enter (s : Scope) (name : String) : ¬ s.enter.Taken name := by
  simp [Taken]

/-- Names are fresh one after the other if those declared first are taken for the later ones. -/
theorem fresh_append_iff (s : Scope) {names others : List String}
    {bindings : List (String × Symbol)} (h : bindings.map Prod.fst = names) :
    Fresh s.Taken (names ++ others) ↔
      Fresh s.Taken names ∧ Fresh (s.declareAll bindings).Taken others := by
  rw [fresh_append]
  refine and_congr_right fun _ => fresh_congr (fun name => ?_) others
  rw [taken_declareAll, h]

end Scope

/-! ## Environments behind declarations -/

/-- An environment stays settled if what is bound in it is settled. -/
theorem Env.Settled.bind {Γ : Env} (hΓ : Γ.Settled) (name : String) {symbol : Symbol}
    (h : symbol.Settled) : (Γ.bind name symbol).Settled := by
  intro other found hfound
  by_cases heq : other = name
  · have hsame : symbol = found := by simpa [Env.bind, heq] using hfound
    exact hsame ▸ h
  · exact hΓ (by simpa [Env.bind, heq] using hfound)

theorem Env.Settled.extend {Γ : Env} (hΓ : Γ.Settled) {bindings : List (String × Symbol)}
    (h : ∀ binding ∈ bindings, binding.2.Settled) : (Γ.extend bindings).Settled := by
  induction bindings generalizing Γ with
  | nil => exact hΓ
  | cons binding bindings ih =>
    obtain ⟨hfirst, hothers⟩ := List.forall_mem_cons.1 h
    exact ih (hΓ.bind binding.1 hfirst) hothers

theorem Env.settled_empty : Env.empty.Settled := nofun

theorem Group.map_fst_bindings (g : Group) (τ : Ty) : (g.bindings τ).map Prod.fst = g.declared := by
  simp [Group.bindings, Function.comp_def]

theorem Group.settled_bindings (g : Group) {τ : Ty} (h : τ.Settled) :
    ∀ binding ∈ g.bindings τ, binding.2.Settled := by
  intro binding hbinding
  obtain ⟨name, _, rfl⟩ := List.mem_map.1 hbinding
  exact h

/-- Aliases are bound under the names they are declared with. -/
theorem TypesDenote.map_fst {Γ : Env} {types : List (Located Alias)}
    {bindings : List (String × Symbol)} (h : TypesDenote Γ types bindings) :
    bindings.map Prod.fst = typeNames types := by
  induction h with
  | nil => rfl
  | cons first others ih => simp [typeNames, ih]

/-- What aliases stand for is settled, each in the environment of those ahead of it. -/
theorem TypesDenote.settled {Γ : Env} {types : List (Located Alias)}
    {bindings : List (String × Symbol)} (h : TypesDenote Γ types bindings) (hΓ : Γ.Settled) :
    (Γ.extend bindings).Settled := by
  induction h with
  | nil => exact hΓ
  | cons first others ih => exact ih (hΓ.bind _ (first.settled hΓ))

/-- Variables are bound under the names of their groups. -/
theorem VariablesDenote.map_fst {Γ : Env} {vars : List (Located Group)}
    {bindings : List (String × Symbol)} (h : VariablesDenote Γ vars bindings) :
    bindings.map Prod.fst = variableNames vars := by
  induction h with
  | nil => rfl
  | cons first others ih => simp [variableNames, Group.map_fst_bindings, ih]

/-- The types of variables are settled, too. -/
theorem VariablesDenote.settled {Γ : Env} {vars : List (Located Group)}
    {bindings : List (String × Symbol)} (h : VariablesDenote Γ vars bindings) (hΓ : Γ.Settled) :
    (Γ.extend bindings).Settled := by
  induction h with
  | nil => exact hΓ
  | @cons Γ group groups τ bindings first others ih =>
    rw [Env.extend, List.foldl_append]
    exact ih (hΓ.extend (group.value.settled_bindings (first.settled hΓ)))

/-- Parameters have settled types; all are found in the environment around the procedure. -/
theorem ParametersDenote.settled {Γ : Env} {params : List (Located Parameter)}
    {args : List (String × Ty)} (h : ParametersDenote Γ params args) (hΓ : Γ.Settled) :
    ∀ arg ∈ args, arg.2.Settled := by
  induction h with
  | nil => simp
  | cons first others ih =>
    intro arg harg
    rcases List.mem_append.1 harg with harg | harg
    · obtain ⟨name, _, rfl⟩ := List.mem_map.1 harg
      exact first.settled hΓ
    · exact ih arg harg

/-- Parameters are bound under their names. -/
theorem ParametersDenote.map_fst {Γ : Env} {params : List (Located Parameter)}
    {args : List (String × Ty)} (h : ParametersDenote Γ params args) :
    args.map Prod.fst = parameterNames params := by
  induction h with
  | nil => rfl
  | cons first others ih => simp [parameterNames, Function.comp_def, ih]

/-- The symbol of a well typed procedure has settled parameters. -/
theorem Procedure.WellTyped.settled {Γ : Env} {p : Procedure} {params : List Ty}
    (h : p.WellTyped Γ params) (hΓ : Γ.Settled) : (Symbol.procedure params).Settled := by
  cases h with
  | intro params distinct level =>
    intro τ hτ
    obtain ⟨arg, harg, rfl⟩ := List.mem_map.1 hτ
    exact params.settled hΓ arg harg

/-- Procedures are bound one after the other, each known to the ones behind it. -/
theorem Procedure.AllWellTyped.settled {Γ : Env} {procedures : List (Located Procedure)}
    {bindings : List (String × Symbol)} (h : Procedure.AllWellTyped Γ procedures bindings)
    (hΓ : Γ.Settled) : (Γ.extend bindings).Settled := by
  induction procedures generalizing Γ bindings with
  | nil =>
    cases h
    exact hΓ
  | cons p procedures ih =>
    cases h with
    | cons first others =>
      have hbound := hΓ.bind p.value.name (first.settled hΓ)
      have hothers := ih others hbound
      exact hothers

/-! ## Clean declarations -/

/-- A name is free without a report exactly if the frame does not have it. -/
theorem clean_checkFree_iff (name : Located String) (free : Bool) (s s' : Scope) :
    (checkFree name).Clean s s' free ↔ s = s' ∧ ¬ s.Taken name.value ∧ free = true := by
  simp only [checkFree, ScopeM.clean_read, Logged.clean_bind_unit, clean_require,
    Logged.clean_pure, Scope.Taken]
  cases s.isLocal name.value <;> cases free <;> simp

/-- A declaration is clean exactly if its name is free, and then it is made. -/
theorem clean_declareFree_iff (name : Located String) (symbol : Symbol) (s s' : Scope) (u : Unit) :
    (declareFree name symbol).Clean s s' u ↔
      ¬ s.Taken name.value ∧ s.declare name.value symbol = s' := by
  simp only [declareFree, ScopeM.clean_bind, clean_checkFree_iff]
  constructor
  · intro hall
    rcases hall with ⟨_, _, ⟨rfl, hfree, rfl⟩, hdeclared⟩
    exact ⟨hfree, (ScopeM.clean_declare _ _ _ _ _).1 hdeclared⟩
  · intro hall
    rcases hall with ⟨hfree, rfl⟩
    exact ⟨s, true, ⟨rfl, hfree, rfl⟩, (ScopeM.clean_declare _ _ _ _ _).2 rfl⟩

/-- The names of parameters with their types, without positions. -/
def unlocated (params : List (Located String × Ty)) : List (String × Ty) :=
  params.map fun param => (param.1.value, param.2)

/-- Declarations in a row are clean exactly if their names are free and distinct. -/
theorem clean_declareParams_iff (params : List (Located String × Ty)) (s s' : Scope) (u : Unit) :
    (declareParams params).Clean s s' u ↔
      Fresh s.Taken ((unlocated params).map Prod.fst) ∧
        s.declareAll ((unlocated params).map fun arg => (arg.1, .variable arg.2)) = s' := by
  induction params generalizing s with
  | nil => simp [declareParams, unlocated, Scope.declareAll]
  | cons param params ih =>
    simp only [declareParams, ScopeM.clean_bind, clean_declareFree_iff, exists_const, ih, unlocated,
      List.map_cons, fresh_cons, Scope.declareAll_cons]
    constructor
    · intro hall
      rcases hall with ⟨_, ⟨hfree, rfl⟩, hothers, hs'⟩
      exact ⟨⟨hfree, (fresh_congr (s.taken_declare _ _) _).1 hothers⟩, hs'⟩
    · intro hall
      rcases hall with ⟨⟨hfree, hothers⟩, hs'⟩
      exact ⟨_, ⟨hfree, rfl⟩, (fresh_congr (s.taken_declare _ _) _).2 hothers, hs'⟩

theorem Group.clean_declareNames_iff (g : Group) (τ : Ty) (s s' : Scope) (u : Unit) :
    (declareNames τ g.names).Clean s s' u ↔
      Fresh s.Taken g.declared ∧ s.declareAll (g.bindings τ) = s' := by
  rw [declareNames_eq_declareParams, clean_declareParams_iff]
  simp [unlocated, Group.declared, Group.bindings, Function.comp_def]

/-- A type is clean exactly if it denotes one by the rules. -/
theorem clean_checkDeclaredType_iff (t : Located TypeExpr) (τ : Ty) (s s' : Scope) :
    (checkDeclaredType t).Clean s s' τ ↔ s = s' ∧ t.value.Denotes s.lookup τ := by
  rw [checkDeclaredType, ScopeM.clean_read, TypeExpr.clean_check_iff]

/-- Aliases are clean exactly if the rules bind them and their names are fresh. -/
theorem clean_declareTypes_iff (types : List (Located Alias)) (s s' : Scope) (u : Unit) :
    (declareTypes types).Clean s s' u ↔
      ∃ bindings, TypesDenote s.lookup types bindings ∧ Fresh s.Taken (typeNames types) ∧
        s.declareAll bindings = s' := by
  induction types generalizing s with
  | nil =>
    constructor
    · intro hall
      rcases hall with ⟨rfl, _⟩
      exact ⟨[], .nil, fresh_nil _, rfl⟩
    · intro hall
      rcases hall with ⟨_, hdenote, _, rfl⟩
      cases hdenote
      exact ⟨rfl, rfl, rfl⟩
  | cons declaration types ih =>
    have hfresh : ∀ τ : Ty, Fresh s.Taken (typeNames (declaration :: types)) ↔
        ¬ s.Taken declaration.value.name ∧
          Fresh (s.declare declaration.value.name (.type τ)).Taken (typeNames types) := by
      intro τ
      rw [typeNames, List.map_cons, fresh_cons]
      exact and_congr_right fun _ => (fresh_congr (s.taken_declare _ _) _).symm
    simp only [declareTypes, ScopeM.clean_bind, clean_checkFree_iff]
    constructor
    · intro hall
      rcases hall with ⟨_, _, ⟨rfl, hfree, rfl⟩, hrest⟩
      rw [if_pos rfl] at hrest
      simp only [ScopeM.clean_bind, ScopeM.clean_declare, clean_checkDeclaredType_iff,
        exists_const, ih] at hrest
      obtain ⟨_, τ, ⟨rfl, hτ⟩, _, rfl, bindings, hdenote, hothers, rfl⟩ := hrest
      rw [Scope.lookup_declare_eq] at hdenote
      exact ⟨_, .cons hτ hdenote, (hfresh τ).2 ⟨hfree, hothers⟩, rfl⟩
    · intro hall
      rcases hall with ⟨_, hdenote, hnames, rfl⟩
      cases hdenote with
      | @cons _ _ _ τ bindings first others =>
        obtain ⟨hfree, hothers⟩ := (hfresh τ).1 hnames
        refine ⟨s, true, ⟨rfl, hfree, rfl⟩, ?_⟩
        rw [if_pos rfl]
        simp only [ScopeM.clean_bind, ScopeM.clean_declare, clean_checkDeclaredType_iff,
          exists_const, ih]
        rw [← Scope.lookup_declare_eq] at others
        exact ⟨s, τ, ⟨rfl, first⟩, _, rfl, bindings, others, hothers, rfl⟩

/-- Variables are clean exactly if the rules bind them and their names are fresh. -/
theorem clean_declareVariables_iff (vars : List (Located Group)) (s s' : Scope) (u : Unit) :
    (declareVariables vars).Clean s s' u ↔
      ∃ bindings, VariablesDenote s.lookup vars bindings ∧ Fresh s.Taken (variableNames vars) ∧
        s.declareAll bindings = s' := by
  induction vars generalizing s with
  | nil =>
    constructor
    · intro hall
      rcases hall with ⟨rfl, _⟩
      exact ⟨[], .nil, fresh_nil _, rfl⟩
    · intro hall
      rcases hall with ⟨_, hdenote, _, rfl⟩
      cases hdenote
      exact ⟨rfl, rfl, rfl⟩
  | cons group vars ih =>
    have hfresh : ∀ τ : Ty, Fresh s.Taken (variableNames (group :: vars)) ↔
        Fresh s.Taken group.value.declared ∧
          Fresh (s.declareAll (group.value.bindings τ)).Taken (variableNames vars) :=
      fun τ => s.fresh_append_iff (group.value.map_fst_bindings τ)
    simp only [declareVariables, ScopeM.clean_bind, clean_checkDeclaredType_iff,
      Group.clean_declareNames_iff, exists_const, ih]
    constructor
    · intro hall
      rcases hall with ⟨_, τ, ⟨rfl, hτ⟩, _, ⟨hnames, rfl⟩, bindings, hdenote, hothers, rfl⟩
      rw [Scope.lookup_declareAll] at hdenote
      exact ⟨_, .cons hτ hdenote, (hfresh τ).2 ⟨hnames, hothers⟩, s.declareAll_append _ _⟩
    · intro hall
      rcases hall with ⟨_, hdenote, hnames, rfl⟩
      cases hdenote with
      | @cons _ _ _ τ bindings first others =>
        obtain ⟨hnames, hothers⟩ := (hfresh τ).1 hnames
        rw [← Scope.lookup_declareAll] at others
        exact ⟨s, τ, ⟨rfl, first⟩, _, ⟨hnames, rfl⟩, bindings, others, hothers,
          (s.declareAll_append _ _).symm⟩

/-- Parameters are clean exactly if the rules give them types. Whether their names are distinct
shows later, when they are declared. -/
theorem clean_checkParams_iff (params : List (Located Parameter)) (args : List (String × Ty))
    (s s' : Scope) :
    (∃ checked, (checkParams params).Clean s s' checked ∧ unlocated checked = args) ↔
      s = s' ∧ ParametersDenote s.lookup params args := by
  induction params generalizing args with
  | nil =>
    simp only [checkParams, ScopeM.clean_pure]
    constructor
    · intro hall
      rcases hall with ⟨_, ⟨rfl, rfl⟩, rfl⟩
      exact ⟨rfl, .nil⟩
    · intro hall
      rcases hall with ⟨rfl, hdenote⟩
      cases hdenote
      exact ⟨[], ⟨rfl, rfl⟩, rfl⟩
  | cons param params ih =>
    have hargs : ∀ (τ : Ty) (others : List (Located String × Ty)),
        unlocated (param.value.group.names.map (fun name => (name, τ)) ++ others) =
          param.value.group.declared.map (fun name => (name, τ)) ++ unlocated others := by
      intro τ others
      simp [unlocated, Group.declared, Function.comp_def]
    simp only [checkParams, ScopeM.clean_bind, clean_checkDeclaredType_iff, ScopeM.clean_pure]
    constructor
    · intro hall
      rcases hall with ⟨_, ⟨_, τ, ⟨rfl, hτ⟩, _, others, hothers, rfl, rfl⟩, rfl⟩
      obtain ⟨hs, hdenote⟩ := (ih _).1 ⟨others, hothers, rfl⟩
      rw [hargs]
      exact ⟨hs, .cons hτ hdenote⟩
    · intro hall
      rcases hall with ⟨rfl, hdenote⟩
      cases hdenote with
      | @cons _ _ τ rest first others =>
        obtain ⟨checked, hchecked, rfl⟩ := (ih rest).2 ⟨rfl, others⟩
        exact ⟨_, ⟨s, τ, ⟨rfl, first⟩, s, checked, hchecked, rfl, rfl⟩, hargs τ checked⟩

/-! ## Levels -/

/-- The declarations and the body of a level are checked without a report exactly if they are well
typed and the names are fresh. The procedures of the level are taken care of beforehand. -/
theorem clean_level_iff {s : Scope} (hs : Env.Settled s.lookup) (d : Declarations)
    (body : List Statement)
    (hprocedures : ∀ t t' : Scope, Env.Settled t.lookup →
      ((Procedure.checkAll d.procedures).Clean t t' () ↔
        ∃ bindings, Procedure.AllWellTyped t.lookup d.procedures bindings ∧
          Fresh t.Taken (procedureNames d.procedures) ∧ t.declareAll bindings = t')) :
    (∃ s₁ s₂ s₃ s₄, (declareTypes d.types).Clean s s₁ () ∧
        (declareVariables d.vars).Clean s₁ s₂ () ∧
        (Procedure.checkAll d.procedures).Clean s₂ s₃ () ∧
        (ScopeM.read fun s => Statement.checkAll s body).Clean s₃ s₄ ()) ↔
      Fresh s.Taken d.names ∧ LevelWellTyped s.lookup d body := by
  simp only [clean_declareTypes_iff, clean_declareVariables_iff, ScopeM.clean_read]
  have hfresh : ∀ {types vars : List (String × Symbol)},
      types.map Prod.fst = typeNames d.types → vars.map Prod.fst = variableNames d.vars →
      (Fresh s.Taken d.names ↔ (Fresh s.Taken (typeNames d.types) ∧
        Fresh (s.declareAll types).Taken (variableNames d.vars)) ∧
        Fresh ((s.declareAll types).declareAll vars).Taken (procedureNames d.procedures)) := by
    intro types vars htypes hvars
    rw [Declarations.names, ← s.declareAll_append, ← s.fresh_append_iff htypes]
    exact s.fresh_append_iff (by rw [List.map_append, htypes, hvars])
  constructor
  · rintro ⟨_, _, _, _, ⟨types, htypes, htypesFresh, rfl⟩, ⟨vars, hvars, hvarsFresh, rfl⟩, hnested,
      rfl, hbody⟩
    have hsettled := hvars.settled ((s.lookup_declareAll types) ▸ htypes.settled hs)
    rw [← Scope.lookup_declareAll] at hsettled
    obtain ⟨procedures, hprocs, hprocsFresh, rfl⟩ := (hprocedures _ _ hsettled).1 hnested
    have hbodySettled := hprocs.settled hsettled
    rw [← Scope.lookup_declareAll] at hbodySettled
    rw [Statement.clean_checkAll_iff hbodySettled] at hbody
    simp only [Scope.lookup_declareAll] at hvars hprocs hbody
    exact ⟨(hfresh htypes.map_fst hvars.map_fst).2 ⟨⟨htypesFresh, hvarsFresh⟩, hprocsFresh⟩,
      htypes, hvars, hprocs, hbody⟩
  · intro hall
    rcases hall with ⟨hnames, ⟨htypes, hvars, hprocs, hbody⟩⟩
    obtain ⟨⟨htypesFresh, hvarsFresh⟩, hprocsFresh⟩ :=
      (hfresh htypes.map_fst hvars.map_fst).1 hnames
    have hsettled := hvars.settled (htypes.settled hs)
    have hbodySettled := hprocs.settled hsettled
    simp only [← Scope.lookup_declareAll] at hvars hprocs hbody hsettled hbodySettled
    refine ⟨_, _, _, _, ⟨_, htypes, htypesFresh, rfl⟩, ⟨_, hvars, hvarsFresh, rfl⟩,
      (hprocedures _ _ hsettled).2 ⟨_, hprocs, hprocsFresh, rfl⟩, rfl, ?_⟩
    exact (Statement.clean_checkAll_iff hbodySettled body).2 hbody

/-! ## Procedures and programs -/

/-- Binding the same twice is binding it once. A procedure is declared around its frame and again
inside it. -/
theorem Env.bind_bind (Γ : Env) (name : String) (symbol : Symbol) :
    (Γ.bind name symbol).bind name symbol = Γ.bind name symbol := by
  funext other
  by_cases h : other = name <;> simp [Env.bind, h]

theorem Env.Settled.enterProcedure {Γ : Env} (hΓ : Γ.Settled) (name : String)
    {args : List (String × Ty)} (h : ∀ arg ∈ args, arg.2.Settled) :
    (Γ.enterProcedure name args).Settled := by
  have hprocedure : (Symbol.procedure (args.map Prod.snd)).Settled := by
    intro τ hτ
    obtain ⟨arg, harg, rfl⟩ := List.mem_map.1 hτ
    exact h arg harg
  refine (hΓ.bind name hprocedure).extend fun binding hbinding => ?_
  obtain ⟨arg, harg, rfl⟩ := List.mem_map.1 hbinding
  exact h arg harg

/-- The scope in which the parameters of a procedure are declared: its name stands at the level
around it and at its own. -/
def Scope.openProcedure (s : Scope) (name : String) (symbol : Symbol) : Scope :=
  (s.declare name symbol).enter.declare name symbol

/-- Inside a procedure its name stands for it, and other names for what they stood for. -/
theorem Scope.lookup_openProcedure (s : Scope) (name : String) (symbol : Symbol) :
    (s.openProcedure name symbol).lookup = Env.bind s.lookup name symbol := by
  have henter : (s.declare name symbol).enter.lookup = Env.bind s.lookup name symbol :=
    s.lookup_declare_eq name symbol
  rw [Scope.openProcedure, lookup_declare_eq, henter, Env.bind_bind]

/-- The frame of a procedure starts with its own name only. -/
theorem Scope.taken_openProcedure (s : Scope) (name : String) (symbol : Symbol) (other : String) :
    (s.openProcedure name symbol).Taken other ↔ other = name := by
  rw [Scope.openProcedure, taken_declare]
  simp [not_taken_enter]

/-- The names of the level of a procedure are distinct if each is fresh where it is declared. -/
theorem Procedure.nodup_levelNames_iff (p : Procedure) (s : Scope) (symbol : Symbol)
    {args : List (String × Symbol)} (hargs : args.map Prod.fst = parameterNames p.params) :
    p.levelNames.Nodup ↔
      Fresh (s.openProcedure p.name symbol).Taken (parameterNames p.params) ∧
        Fresh ((s.openProcedure p.name symbol).declareAll args).Taken p.declarations.names := by
  have hnodup : p.levelNames.Nodup ↔ Fresh (fun _ => False) p.levelNames := by simp [Fresh]
  rw [hnodup, Procedure.levelNames, Procedure.ownNames, List.cons_append, fresh_cons,
    ← Scope.fresh_append_iff _ hargs, not_false_eq_true, true_and]
  refine fresh_congr (fun name => ?_) _
  rw [Scope.taken_openProcedure, or_false]

theorem map_fst_variables (args : List (String × Ty)) :
    (args.map fun arg => (arg.1, Symbol.variable arg.2)).map Prod.fst = args.map Prod.fst := by
  simp [Function.comp_def]

theorem map_snd_unlocated (args : List (Located String × Ty)) :
    (unlocated args).map Prod.snd = args.map Prod.snd := by
  simp [unlocated, Function.comp_def]

mutual

/-- A procedure is checked without a report exactly if it is well typed and its name is free. -/
theorem Procedure.clean_check_iff (q : Position) : (p : Procedure) → (s s' : Scope) →
    Env.Settled s.lookup →
    ((p.check q).Clean s s' () ↔ ∃ params, p.WellTyped s.lookup params ∧ ¬ s.Taken p.name ∧
      s.declare p.name (.procedure params) = s')
  | ⟨name, params, types, vars, procedures, body⟩, s, s', hs => by
    have hlevel := fun t ht => clean_level_iff (s := t) ht ⟨types, vars, procedures⟩ body
      (Procedure.clean_checkAll_iff procedures)
    have hkeeps := fun symbol args => keepsOuter_inside name symbol args types vars body
      (Procedure.keepsOuter_checkAll procedures)
    rw [Procedure.check, ScopeM.clean_bind]
    simp only [ScopeM.clean_bind_unit, clean_declareFree_iff, (hkeeps _ _).clean_inFrame,
      ScopeM.clean_declare, clean_declareParams_iff, ← map_snd_unlocated]
    constructor
    · rintro ⟨_, checked, hchecked, _, ⟨hfree, rfl⟩, rfl, _, _, rfl, _, ⟨hargsFresh, rfl⟩,
        _, htypes, _, hvars, _, hprocedures, hbody⟩
      obtain ⟨rfl, hparams⟩ := (clean_checkParams_iff params _ s _).1 ⟨checked, hchecked, rfl⟩
      have hinside := hs.enterProcedure name (hparams.settled hs)
      rw [Env.enterProcedure, ← s.lookup_openProcedure, ← Scope.lookup_declareAll] at hinside
      obtain ⟨hnames, hlevel⟩ := (hlevel _ hinside).1
        ⟨_, _, _, _, htypes, hvars, hprocedures, hbody⟩
      rw [Scope.lookup_declareAll, s.lookup_openProcedure] at hlevel
      have hfst := (map_fst_variables (unlocated checked)).trans hparams.map_fst
      rw [hparams.map_fst] at hargsFresh
      exact ⟨_, .intro hparams ((nodup_levelNames_iff _ s _ hfst).2 ⟨hargsFresh, hnames⟩) hlevel,
        hfree, rfl⟩
    · intro hall
      rcases hall with ⟨_, ⟨hparams, hdistinct, hwell⟩, hfree, rfl⟩
      obtain ⟨checked, hchecked, rfl⟩ := (clean_checkParams_iff params _ s s).2 ⟨rfl, hparams⟩
      have hinside := hs.enterProcedure name (hparams.settled hs)
      rw [Env.enterProcedure, ← s.lookup_openProcedure, ← Scope.lookup_declareAll] at hinside
      have hfst := (map_fst_variables (unlocated checked)).trans hparams.map_fst
      obtain ⟨hargsFresh, hnames⟩ := (nodup_levelNames_iff _ s
        (.procedure ((unlocated checked).map Prod.snd)) hfst).1 hdistinct
      rw [Env.enterProcedure, ← s.lookup_openProcedure, ← Scope.lookup_declareAll] at hwell
      obtain ⟨_, _, _, _, htypes, hvars, hprocedures, hbody⟩ := (hlevel _ hinside).2 ⟨hnames, hwell⟩
      rw [← hparams.map_fst] at hargsFresh
      exact ⟨s, checked, hchecked, _, ⟨hfree, rfl⟩, rfl, _, _, rfl, _, ⟨hargsFresh, rfl⟩,
        _, htypes, _, hvars, _, hprocedures, hbody⟩

/-- Procedures are checked without a report exactly if they are well typed one after the other and
their names are fresh. -/
theorem Procedure.clean_checkAll_iff : (procedures : List (Located Procedure)) → (s s' : Scope) →
    Env.Settled s.lookup →
    ((Procedure.checkAll procedures).Clean s s' () ↔
      ∃ bindings, Procedure.AllWellTyped s.lookup procedures bindings ∧
        Fresh s.Taken (procedureNames procedures) ∧ s.declareAll bindings = s')
  | [], s, s', _ => by
    constructor
    · intro hall
      rcases hall with ⟨rfl, _⟩
      exact ⟨[], .nil, fresh_nil _, rfl⟩
    · intro hall
      rcases hall with ⟨_, hdenote, _, rfl⟩
      cases hdenote
      exact ⟨rfl, rfl, rfl⟩
  | ⟨q, p⟩ :: procedures, s, s', hs => by
    have hfirst := fun t => Procedure.clean_check_iff q p s t hs
    have hfresh : ∀ params : List Ty, Fresh s.Taken (procedureNames (⟨q, p⟩ :: procedures)) ↔
        ¬ s.Taken p.name ∧
          Fresh (s.declare p.name (.procedure params)).Taken (procedureNames procedures) := by
      intro params
      rw [procedureNames, List.map_cons, fresh_cons]
      exact and_congr_right fun _ => (fresh_congr (s.taken_declare _ _) _).symm
    rw [Procedure.checkAll, ScopeM.clean_bind_unit]
    simp only [hfirst]
    constructor
    · intro hall
      rcases hall with ⟨_, ⟨params, htyped, hfree, rfl⟩, hrest⟩
      have hsettled := hs.bind p.name (htyped.settled hs)
      rw [← Scope.lookup_declare_eq] at hsettled
      obtain ⟨bindings, hothers, hnames, rfl⟩ :=
        (Procedure.clean_checkAll_iff procedures _ s' hsettled).1 hrest
      rw [Scope.lookup_declare_eq] at hothers
      exact ⟨_, .cons htyped hothers, (hfresh params).2 ⟨hfree, hnames⟩, rfl⟩
    · intro hall
      rcases hall with ⟨_, htyped, hnames, rfl⟩
      cases htyped with
      | @cons _ _ _ params bindings first others =>
        obtain ⟨hfree, hothers⟩ := (hfresh params).1 hnames
        have hsettled := hs.bind p.name (first.settled hs)
        rw [← Scope.lookup_declare_eq] at hsettled others
        exact ⟨_, ⟨params, first, hfree, rfl⟩,
          (Procedure.clean_checkAll_iff procedures _ _ hsettled).2 ⟨bindings, others, hothers, rfl⟩⟩

end

/-- A program has no diagnostics exactly if it is well typed. -/
theorem Program.analyze_eq_nil_iff (p : Program) : p.analyze = .ok [] ↔ p.WellTyped := by
  have hclean : p.analyze = .ok [] ↔ ∃ s', p.check.Clean .empty s' () := by
    simp only [Program.analyze, ScopeM.Clean, Logged.Clean]
    cases (p.check.run .empty).2.value with
    | error fault => simp [Except.map]
    | ok u => simp [Except.map]
  have hlevel := clean_level_iff (s := .empty) Env.settled_empty p.declarations p.body
    (Procedure.clean_checkAll_iff p.declarations.procedures)
  have hnames : Fresh Scope.empty.Taken p.declarations.names ↔ p.declarations.names.Nodup := by
    simp [Fresh, Scope.Taken, Scope.isLocal, Scope.empty]
  rw [hclean]
  simp only [Program.check, Declarations.check, ScopeM.clean_bind_unit]
  constructor
  · intro hall
    rcases hall with ⟨_, _, ⟨_, htypes, _, hvars, hprocedures⟩, hbody⟩
    obtain ⟨hdistinct, hwell⟩ := hlevel.1 ⟨_, _, _, _, htypes, hvars, hprocedures, hbody⟩
    exact ⟨hnames.1 hdistinct, hwell⟩
  · intro hall
    rcases hall with ⟨hdistinct, hwell⟩
    obtain ⟨_, _, _, _, htypes, hvars, hprocedures, hbody⟩ :=
      hlevel.2 ⟨hnames.2 hdistinct, hwell⟩
    exact ⟨_, _, ⟨_, htypes, _, hvars, hprocedures⟩, hbody⟩

end SnlFront
