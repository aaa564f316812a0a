import SnlFront.Proofs.Scope.Frames
import SnlFront.Proofs.Syntax.Levels

/-!
# What an analysis may change

An analysis works in a context: a scope, and the diagnostics reported so far. Types, expressions and
statements are only looked at and leave the scope as it is. Declarations add bindings to the
innermost frame for names that it did not know, and nothing else; this holds also of a run that
breaks off in the middle of a list of declarations. What happens inside a procedure leaves no trace
but the procedure itself.

## Main definitions

* `Scope.Extends`: the innermost frame has got bindings of new names, and nothing else is different.
* `ParametersResolve`: the types of the parameters of a procedure.
* `Context`: a scope and the diagnostics reported so far.

## Main statements

* `Declarations.onlyAdds_check`, `Procedure.onlyAdds_check`: declarations add bindings.
* `Procedure.scope_check`: what is left of a procedure.
* `Context.frames_run`: what each analysis may change in a context.
-/

namespace SnlFront

/-! ## Scopes that grow -/

theorem Frame.isSome_lookup_iff (f : Frame) (name : String) :
    (f.lookup name).isSome = true ↔ name ∈ f.map Prod.fst := by
  induction f with
  | nil => simp
  | cons entry f ih =>
    rw [List.lookup_cons, List.map_cons, List.mem_cons]
    by_cases h : name = entry.1
    · simp [h]
    · have miss : (name == entry.1) = false := by simpa using h
      simp [miss, h, ih]

namespace Scope

/-- The frames below the innermost one are the same, and bindings have been put into the innermost
one, in their order, for distinct names that it did not know. -/
structure Extends (s t : Scope) : Prop where
  outer : t.outer = s.outer
  inner : ∃ added : Frame, t.inner = added.reverse ++ s.inner ∧
    Fresh (fun name => s.isLocal name = true) (added.map Prod.fst)

theorem Extends.refl (s : Scope) : s.Extends s := ⟨rfl, [], rfl, fresh_nil _⟩

theorem isLocal_iff_mem (s : Scope) (name : String) :
    s.isLocal name = true ↔ name ∈ s.inner.map Prod.fst := s.inner.isSome_lookup_iff name

/-- Names that are fresh in two steps are fresh together. -/
theorem Extends.trans {s t u : Scope} (h : s.Extends t) (h' : t.Extends u) : s.Extends u := by
  obtain ⟨houter, added, hinner, hfresh⟩ := h
  obtain ⟨houter', added', hinner', hfresh'⟩ := h'
  refine ⟨houter'.trans houter, added ++ added', ?_, ?_⟩
  · rw [hinner', hinner, List.reverse_append, List.append_assoc]
  · -- What the first step has added is taken for the second one.
    have htaken : ∀ name, t.isLocal name = true ↔
        name ∈ added.map Prod.fst ∨ s.isLocal name = true := by
      intro name
      rw [isLocal_iff_mem, isLocal_iff_mem, hinner]
      simp
    rw [List.map_append, fresh_append]
    exact ⟨hfresh, (fresh_congr htaken _).1 hfresh'⟩

/-- A name that is free can be declared. -/
theorem extends_declare {s : Scope} {name : String} (h : s.isLocal name = false)
    (symbol : Symbol) : s.Extends (s.declare name symbol) := by
  have hkeep : (s.inner.filter fun entry => entry.1 != name) = s.inner := by
    rw [List.filter_eq_self]
    intro entry hentry
    have hne : entry.1 ≠ name := by
      rintro rfl
      have hlocal := (s.isLocal_iff_mem entry.1).2 (List.mem_map_of_mem hentry)
      rw [h] at hlocal
      cases hlocal
    simpa using hne
  refine ⟨rfl, [(name, symbol)], ?_, ?_⟩
  · simp [declare, Frame.put, hkeep]
  · simp [fresh_cons, h]

end Scope

namespace ScopeM

variable {ω α β : Type}

/-- Also if the computation breaks off, it has only put new bindings into the innermost frame. -/
def OnlyAdds (x : ScopeM ω α) : Prop := ∀ s : Scope, s.Extends (x.run s).1

theorem onlyAdds_pure (a : α) : (Pure.pure a : ScopeM ω α).OnlyAdds := fun s => .refl s

theorem onlyAdds_read (f : Scope → Logged ω α) : (read f).OnlyAdds := fun s => .refl s

/-- The second step starts where the first one has ended, unless that broke off. -/
theorem extends_run_bind {x : ScopeM ω α} {f : α → ScopeM ω β} {s : Scope}
    (hx : s.Extends (x.run s).1)
    (hf : ∀ a, (x.run s).2.value = .ok a → (x.run s).1.Extends ((f a).run (x.run s).1).1) :
    s.Extends ((x >>= f).run s).1 := by
  rw [run_bind]
  cases hvalue : (x.run s).2.value with
  | error fault => exact hx
  | ok a => exact hx.trans (hf a hvalue)

theorem OnlyAdds.bind {x : ScopeM ω α} {f : α → ScopeM ω β} (hx : x.OnlyAdds)
    (hf : ∀ a, (f a).OnlyAdds) : (x >>= f).OnlyAdds :=
  fun s => extends_run_bind (hx s) fun a _ => hf a _

/-- What runs in a frame of its own adds nothing to the scope around it. -/
theorem KeepsOuter.onlyAdds_inFrame {x : ScopeM ω α} (hx : x.KeepsOuter) :
    (ScopeM.inFrame x).OnlyAdds := by
  intro s
  rw [hx.run_inFrame]
  exact .refl s

/-- A run of two steps that comes to its end has come to the end of both. -/
theorem ok_of_bind {x : ScopeM ω α} {f : α → ScopeM ω β} {s : Scope} {b : β}
    (h : ((x >>= f).run s).2.value = .ok b) :
    ∃ a, (x.run s).2.value = .ok a ∧ ((f a).run (x.run s).1).2.value = .ok b ∧
      ((x >>= f).run s).1 = ((f a).run (x.run s).1).1 := by
  rw [run_bind] at h ⊢
  cases hvalue : (x.run s).2.value with
  | error fault =>
    rw [hvalue] at h
    cases h
  | ok a =>
    rw [hvalue] at h
    exact ⟨a, rfl, h, rfl⟩

end ScopeM

open ScopeM

/-! ## Declarations -/

/-- A name is declared if it is free; otherwise nothing changes. -/
theorem scope_declareFree (name : Located String) (symbol : Symbol) (s : Scope) :
    ((declareFree name symbol).run s).1 =
      if s.isLocal name.value then s else s.declare name.value symbol := by
  rw [declareFree, run_bind, run_checkFree]
  cases s.isLocal name.value <;> rfl

/-- A name that is taken is passed over, so no name gets another meaning. -/
theorem onlyAdds_declareFree (name : Located String) (symbol : Symbol) :
    (declareFree name symbol).OnlyAdds := by
  intro s
  rw [scope_declareFree]
  split
  · exact .refl s
  · next h => exact Scope.extends_declare (by simpa using h) symbol

theorem onlyAdds_declareParams (params : List (Located String × Ty)) :
    (declareParams params).OnlyAdds := by
  induction params with
  | nil => exact onlyAdds_pure ()
  | cons param params ih => exact (onlyAdds_declareFree param.1 _).bind fun _ => ih

theorem onlyAdds_declareTypes (types : List (Located Alias)) : (declareTypes types).OnlyAdds := by
  induction types with
  | nil => exact onlyAdds_pure ()
  | cons declaration types ih =>
    intro s
    rw [declareTypes]
    refine extends_run_bind (onlyAdds_read _ s) fun free hfree => ?_
    rw [run_checkFree] at hfree ⊢
    -- The type is looked at in between, but the name stays free until it is declared.
    cases hlocal : s.isLocal declaration.value.name
    · have hdeclared : free = true := by simpa [hlocal, eq_comm] using hfree
      subst hdeclared
      refine extends_run_bind (onlyAdds_read _ s) fun type _ => ?_
      refine extends_run_bind (Scope.extends_declare hlocal _) fun _ _ => ?_
      exact ih _
    · have hskipped : free = false := by simpa [hlocal, eq_comm] using hfree
      subst hskipped
      exact ih s

theorem onlyAdds_declareVariables (groups : List (Located Group)) :
    (declareVariables groups).OnlyAdds := by
  induction groups with
  | nil => exact onlyAdds_pure ()
  | cons group groups ih =>
    refine (onlyAdds_read _).bind fun type => ?_
    rw [declareNames_eq_declareParams]
    exact (onlyAdds_declareParams _).bind fun _ => ih

/-- Parameters are read ahead of their frame, and change nothing outside it. -/
theorem onlyAdds_checkParams (params : List (Located Parameter)) :
    (checkParams params).OnlyAdds := by
  induction params with
  | nil => exact onlyAdds_pure []
  | cons param params ih =>
    refine (onlyAdds_read _).bind fun type => ?_
    exact ih.bind fun others => onlyAdds_pure _

/-- A procedure leaves its own name behind. All else is declared in its frame. -/
theorem Procedure.onlyAdds_check (p : Position) (procedure : Procedure) :
    (procedure.check p).OnlyAdds := by
  obtain ⟨name, params, types, vars, procedures, body⟩ := procedure
  rw [Procedure.check]
  refine (onlyAdds_checkParams params).bind fun args => ?_
  refine (onlyAdds_declareFree _ _).bind fun _ => ?_
  exact (keepsOuter_inside name _ args types vars body
    (Procedure.keepsOuter_checkAll procedures)).onlyAdds_inFrame

theorem Procedure.onlyAdds_checkAll (procedures : List (Located Procedure)) :
    (Procedure.checkAll procedures).OnlyAdds := by
  induction procedures with
  | nil => exact onlyAdds_pure ()
  | cons procedure procedures ih => exact (procedure.value.onlyAdds_check _).bind fun _ => ih

theorem Declarations.onlyAdds_check (d : Declarations) : d.check.OnlyAdds := by
  refine (onlyAdds_declareTypes d.types).bind fun _ => ?_
  refine (onlyAdds_declareVariables d.vars).bind fun _ => ?_
  exact Procedure.onlyAdds_checkAll d.procedures

/-! ## What is left of a procedure -/

/-- The types of parameters, one for each name, as they resolve in a scope. -/
inductive ParametersResolve (s : Scope) : List (Located Parameter) → List Ty → Prop
  | nil : ParametersResolve s [] []
  | cons {param : Located Parameter} {params : List (Located Parameter)} {τ : Ty} {τs : List Ty}
      (first : param.value.group.type.value.resolve s = .ok τ)
      (others : ParametersResolve s params τs) :
      ParametersResolve s (param :: params)
        (List.replicate param.value.group.names.length τ ++ τs)

/-- A check of a type expression that comes to its end finds what the expression resolves to. -/
theorem TypeExpr.resolve_of_check {s : Scope} {t : Located TypeExpr} {τ : Ty}
    (h : (TypeExpr.check s t).value = .ok τ) : t.value.resolve s = .ok τ := by
  rw [TypeExpr.check] at h
  cases hvalid : (t.value.validate s t.pos).value with
  | error fault =>
    rw [Logged.bind_of_error hvalid] at h
    cases h
  | ok _ =>
    rw [Logged.value_bind_of_ok hvalid] at h
    exact h

/-- Looking at parameters leaves the scope alone and finds the types they resolve to. -/
theorem run_checkParams {params : List (Located Parameter)} {s : Scope}
    {args : List (Located String × Ty)} (h : ((checkParams params).run s).2.value = .ok args) :
    ((checkParams params).run s).1 = s ∧ ParametersResolve s params (args.map Prod.snd) := by
  induction params generalizing args with
  | nil =>
    cases h
    exact ⟨rfl, .nil⟩
  | cons param params ih =>
    rw [checkParams] at h ⊢
    obtain ⟨τ, hτ, hrest, hscope⟩ := ok_of_bind h
    obtain ⟨others, hothers, hargs, hscope'⟩ := ok_of_bind hrest
    obtain ⟨hsame, hresolve⟩ := ih hothers
    refine ⟨hscope.trans (hscope'.trans hsame), ?_⟩
    cases hargs
    have htypes : ((param.value.group.names.map fun name => (name, τ)) ++ others).map Prod.snd =
        List.replicate param.value.group.names.length τ ++ others.map Prod.snd := by
      simp [Function.comp_def, List.map_const']
    rw [htypes]
    exact .cons (TypeExpr.resolve_of_check hτ) hresolve

/-- A procedure that is checked to its end leaves its name, if that was free, and nothing else. -/
theorem Procedure.scope_check {p : Position} {procedure : Procedure} {s : Scope}
    (h : ((procedure.check p).run s).2.value = .ok ()) :
    ∃ τs, ParametersResolve s procedure.params τs ∧
      ((procedure.check p).run s).1 =
        if s.isLocal procedure.name then s
        else s.declare procedure.name (.procedure τs) := by
  obtain ⟨name, params, types, vars, procedures, body⟩ := procedure
  rw [Procedure.check] at h ⊢
  obtain ⟨args, hargs, hrest, hscope⟩ := ok_of_bind h
  obtain ⟨hsame, hresolve⟩ := run_checkParams hargs
  obtain ⟨_, _, _, hscope'⟩ := ok_of_bind hrest
  refine ⟨args.map Prod.snd, hresolve, ?_⟩
  have hkeeps := keepsOuter_inside name (.procedure (args.map Prod.snd)) args types vars body
    (Procedure.keepsOuter_checkAll procedures)
  rw [hscope, hscope', hkeeps.run_inFrame, hsame, scope_declareFree]

/-! ## Contexts -/

/-- The state of an analysis under way: the scope, and what has been reported so far. -/
structure Context where
  scope : Scope
  sink : List (Located Diagnostic)

namespace Context

variable {α β : Type}

/-- Run an analysis. Its reports go to the end of the sink, also those before a fault. -/
def run (c : Context) (x : Analysis α) : Context × Except Fault α :=
  let after := x.run c.scope
  (⟨after.1, c.sink ++ after.2.log⟩, after.2.value)

/-- What only looks at the scope does not change it. -/
theorem scope_run_read (c : Context) (f : Scope → Checked α) :
    (c.run (.read f)).1.scope = c.scope := rfl

theorem run_bind (c : Context) (x : Analysis α) (f : α → Analysis β) :
    c.run (x >>= f) =
      match (c.run x).2 with
      | .ok a => (c.run x).1.run (f a)
      | .error fault => ((c.run x).1, .error fault) := by
  simp only [run, ScopeM.run_bind]
  cases (x.run c.scope).2.value with
  | error fault => rfl
  | ok a => simp

/-- Reports are added behind those that are there, also on a run that breaks off. -/
theorem sink_isPrefix_run (c : Context) (x : Analysis α) : c.sink <+: (c.run x).1.sink :=
  List.prefix_append _ _

/-- Whatever follows an analysis, its reports stay where they are. -/
theorem sink_isPrefix_bind (c : Context) (x : Analysis α) (f : α → Analysis β) :
    (c.run x).1.sink <+: (c.run (x >>= f)).1.sink := by
  rw [run_bind]
  cases (c.run x).2 with
  | error fault => exact List.prefix_rfl
  | ok a => exact (c.run x).1.sink_isPrefix_run (f a)

end Context

/-- Statements that are checked to the end report what each of them reports by itself. -/
theorem Statement.log_checkAll {s : Scope} {statements : List Statement}
    (h : (Statement.checkAll s statements).value = .ok ()) :
    (Statement.checkAll s statements).log =
      statements.flatMap fun statement => (statement.check s).log := by
  induction statements with
  | nil => rfl
  | cons statement statements ih =>
    rw [Statement.checkAll] at h ⊢
    cases hfirst : (statement.check s).value with
    | error fault =>
      rw [Logged.bind_of_error hfirst] at h
      cases h
    | ok _ =>
      rw [Logged.value_bind_of_ok hfirst] at h
      rw [Logged.log_bind_of_ok hfirst, ih h, List.flatMap_cons]

/-- What each analysis may change in a context, on every way out. Types, expressions and statements
change nothing in the scope, so that statements checked to the end report one after the other what
they report by themselves. Declarations add bindings of new names to the innermost frame. Of a
procedure checked to the end only its name is left, if that was free. Reports are never taken
back. -/
theorem Context.frames_run (c : Context) :
    ((∀ statements : List Statement,
        (c.run (.read fun s => Statement.checkAll s statements)).1.scope = c.scope) ∧
      (∀ e : Expression, (c.run (.read fun s => e.check s)).1.scope = c.scope) ∧
      (∀ t : Term, (c.run (.read fun s => t.check s)).1.scope = c.scope) ∧
      (∀ v : Variable, (c.run (.read fun s => v.check s)).1.scope = c.scope) ∧
      (∀ r : Relation, (c.run (.read fun s => r.check s)).1.scope = c.scope) ∧
      (∀ call : Located Call, (c.run (.read fun s => Call.check s call)).1.scope = c.scope) ∧
      ∀ t : Located TypeExpr, (c.run (checkDeclaredType t)).1.scope = c.scope) ∧
    (∀ statements : List Statement,
      (c.run (.read fun s => Statement.checkAll s statements)).2 = .ok () →
      (c.run (.read fun s => Statement.checkAll s statements)).1.sink =
        c.sink ++ statements.flatMap fun statement => (statement.check c.scope).log) ∧
    (∀ d : Declarations, c.scope.Extends (c.run d.check).1.scope) ∧
    (∀ (p : Position) (procedure : Procedure),
      c.scope.Extends (c.run (procedure.check p)).1.scope ∧
      ((c.run (procedure.check p)).2 = .ok () →
        ∃ τs, ParametersResolve c.scope procedure.params τs ∧
          (c.run (procedure.check p)).1.scope =
            if c.scope.isLocal procedure.name then c.scope
            else c.scope.declare procedure.name (.procedure τs))) ∧
    ∀ (α β : Type) (x : Analysis α) (f : α → Analysis β),
      c.sink <+: (c.run x).1.sink ∧ (c.run x).1.sink <+: (c.run (x >>= f)).1.sink := by
  refine ⟨⟨fun _ => c.scope_run_read _, fun _ => c.scope_run_read _, fun _ => c.scope_run_read _,
    fun _ => c.scope_run_read _, fun _ => c.scope_run_read _, fun _ => c.scope_run_read _,
    fun _ => c.scope_run_read _⟩, ?_, ?_, ?_, ?_⟩
  · intro statements h
    exact congrArg (c.sink ++ ·) (Statement.log_checkAll h)
  · exact fun d => d.onlyAdds_check c.scope
  · intro p procedure
    exact ⟨procedure.onlyAdds_check p c.scope, fun h => Procedure.scope_check h⟩
  · intro α β x f
    exact ⟨c.sink_isPrefix_run x, c.sink_isPrefix_bind x f⟩

-- The variables have a type that was never filled in: the alias before them has been declared.
example :
    (Declarations.check ⟨[⟨⟨1, 6⟩, "t", ⟨⟨1, 10⟩, .integer⟩⟩],
      [⟨⟨2, 5⟩, ⟨⟨2, 5⟩, .hole⟩, [⟨⟨2, 9⟩, "x"⟩]⟩], []⟩).run .empty =
    (⟨[("t", .type .integer)], []⟩, ⟨[], .error .unfinished⟩) := rfl

end SnlFront
