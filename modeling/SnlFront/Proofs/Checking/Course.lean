import Mathlib.Logic.Relation
import SnlFront.Proofs.Checking.Items

/-!
# The course of an analysis

An analysis is described from beginning to end by what it comes to. Here it is taken apart into
steps, each of which changes the scope at most once: a stage of the analysis has a context and a
list of what is still to be done. After a fault nothing more is done than to close the frames that
are open. The stages of a program lead to what its analysis comes to, so the scopes on the way are
those in which the analysis is at some point.

## Main definitions

* `Task`, `Task.step`: something to be done, and the first step of it.
* `Stage`, `Stage.next`: a stage of an analysis, and the stage that follows it.
* `Stage.Leads`: one stage comes after another.
* `Program.start`, `Program.Passes`: the stages and scopes of a program.
* `Procedure.announce`: what happens to a procedure ahead of its frame.

## Main statements

* `Performs.append`, `performs_expand`, `performs_inFrame`: analyses as lists of tasks.
* `Procedure.performs_check`: a procedure is analysed step by step.
* `Program.leads_start`: the stages of a program lead to what its analysis comes to.
* `leads_between`, `leads_level`: the stages between the items of a level.
* `Program.passes_front`, `Program.passes_level`: the scopes between the items of a level.
-/

namespace SnlFront

/-- Something that is to be done. -/
inductive Task
  | item (item : Item)
  | enter
  | put (name : String) (symbol : Symbol)
  | body (statements : List Statement)
  | leave

/-- What is to be done inside a procedure, given its parameters with their types. -/
def Procedure.tasks (p : Procedure) (args : List (Located String × Ty)) : List Task :=
  .enter :: ([.put p.name (.procedure (args.map Prod.snd))] ++
    ((p.levelItems args).map .item ++ [.body p.body])) ++ [.leave]

namespace Task

/-- Take the first step of a task. The answer is what is left of the task. -/
def step : Task → Analysis (List Task)
  | .item (.binding name symbol) => do
    declareFree name symbol
    return []
  | .item (.alias d) => do
    declareTypes [d]
    return []
  | .item (.group g) => do
    let type ← checkDeclaredType g.value.type
    return g.value.names.map fun name => .item (.binding name (.variable type))
  | .item (.procedure p) => do
    let args ← checkParams p.value.params
    declareFree (p.map Procedure.name) (.procedure (args.map Prod.snd))
    return p.value.tasks args
  | .enter => do
    ScopeM.enter
    return []
  | .put name symbol => do
    ScopeM.declare name symbol
    return []
  | .body statements => do
    ScopeM.read fun s => Statement.checkAll s statements
    return []
  | .leave => do
    ScopeM.leave
    return []

/-- What becomes of a task after a fault: frames are closed, and nothing else is done. -/
def unwind (c : Context) : Task → Context
  | .leave => (c.run ScopeM.leave).1
  | _ => c

end Task

/-- A stage of an analysis: the context, whether a fault has occurred, and what is to be done. -/
structure Stage where
  context : Context
  outcome : Except Fault Unit
  tasks : List Task

namespace Stage

/-- The stage behind the next step. -/
def next : Stage → Option Stage
  | ⟨_, _, []⟩ => none
  | ⟨c, .ok _, task :: tasks⟩ =>
    let after := c.run task.step
    match after.2 with
    | .ok rest => some ⟨after.1, .ok (), rest ++ tasks⟩
    | .error fault => some ⟨after.1, .error fault, tasks⟩
  | ⟨c, .error fault, task :: tasks⟩ => some ⟨task.unwind c, .error fault, tasks⟩

/-- What the analysis comes to if nothing is left to be done. -/
def answer (a : Stage) : Except Fault (List (Located Diagnostic)) :=
  a.outcome.map fun _ => a.context.sink

/-- One stage comes after another, or is the same. -/
def Leads : Stage → Stage → Prop := Relation.ReflTransGen fun a b => a.next = some b

theorem Leads.step {a b : Stage} (h : a.next = some b) : a.Leads b := .single h

theorem Leads.trans {a b c : Stage} (h : a.Leads b) (h' : b.Leads c) : a.Leads c :=
  Relation.ReflTransGen.trans h h'

/-- All stages behind one stage lie on the way to the last of them. -/
theorem Leads.leads_last {a b last : Stage} (h : a.Leads b) (hlast : a.Leads last)
    (hnone : last.next = none) : b.Leads last := by
  have hunique : Relator.RightUnique fun a b : Stage => a.next = some b :=
    fun _ _ _ hb hc => Option.some.inj (hb.symm.trans hc)
  rcases Relation.ReflTransGen.total_of_right_unique hunique h hlast with hb | hb
  · exact hb
  · rcases Relation.ReflTransGen.cases_head hb with rfl | ⟨c, hc, -⟩
    · exact .refl
    · rw [hnone] at hc
      cases hc

end Stage

open Stage

/-! ## Analyses as lists of tasks -/

namespace Context

theorem run_pure {α : Type} (c : Context) (a : α) : c.run (pure a) = (c, .ok a) := by
  simp [run, Logged.pure]

theorem run_enter (c : Context) : c.run ScopeM.enter = (⟨c.scope.enter, c.sink⟩, .ok ()) := by
  simp [run, ScopeM.enter, Logged.pure]

theorem run_declare (c : Context) (name : String) (symbol : Symbol) :
    c.run (ScopeM.declare name symbol) = (⟨c.scope.declare name symbol, c.sink⟩, .ok ()) := by
  simp [run, ScopeM.declare, Logged.pure]

theorem run_leave {c : Context} {s : Scope} (h : c.scope.leave? = some s) :
    c.run ScopeM.leave = (⟨s, c.sink⟩, .ok ()) := by
  simp [run, ScopeM.leave, h, Logged.pure]

end Context

/-- The tasks do what the analysis does, and go on to what is to be done behind them. -/
def Performs (tasks : List Task) (x : Analysis Unit) : Prop :=
  ∀ (c : Context) (rest : List Task),
    Leads ⟨c, .ok (), tasks ++ rest⟩ ⟨(c.run x).1, (c.run x).2, rest⟩

theorem performs_nil : Performs [] (pure ()) := by
  intro c rest
  rw [Context.run_pure]
  exact .refl

/-- Tasks that close no frame are passed over after a fault. -/
theorem leads_of_fault (fault : Fault) (c : Context) {tasks : List Task} (h : .leave ∉ tasks)
    (rest : List Task) : Leads ⟨c, .error fault, tasks ++ rest⟩ ⟨c, .error fault, rest⟩ := by
  induction tasks with
  | nil => exact .refl
  | cons task tasks ih =>
    have htask : task ≠ .leave := fun heq => h (heq ▸ List.mem_cons_self)
    refine .trans (.step ?_) (ih fun hmem => h (List.mem_cons_of_mem _ hmem))
    cases task with
    | leave => exact absurd rfl htask
    | item item | enter | put name symbol | body statements => rfl

/-- Two analyses in a row. -/
theorem Performs.append {xs ys : List Task} {x y : Analysis Unit} (hx : Performs xs x)
    (hy : Performs ys y) (hleave : .leave ∉ ys) : Performs (xs ++ ys) (do x; y) := by
  intro c rest
  rw [List.append_assoc]
  refine (hx c (ys ++ rest)).trans ?_
  rw [Context.run_bind]
  cases (c.run x).2 with
  | ok u => exact hy (c.run x).1 rest
  | error fault => exact leads_of_fault fault _ hleave rest

/-- A task whose first step leaves other tasks. -/
theorem performs_expand {α : Type} {task : Task} {y : Analysis α} {tasks : α → List Task}
    {z : α → Analysis Unit} (hstep : task.step = y >>= fun a => pure (tasks a))
    (hz : ∀ a, Performs (tasks a) (z a)) : Performs [task] (y >>= z) := by
  intro c rest
  have hrun := c.run_bind y fun a => pure (tasks a)
  rw [Context.run_bind]
  cases hy : (c.run y).2 with
  | error fault =>
    rw [← hstep, hy] at hrun
    refine .step ?_
    simp [next, hrun]
  | ok a =>
    rw [← hstep, hy] at hrun
    simp only [Context.run_pure] at hrun
    refine .trans (.step ?_) (hz a (c.run y).1 rest)
    simp [next, hrun]

/-- A task that is done in one step. -/
theorem performs_single {task : Task} {x : Analysis Unit}
    (hstep : task.step = (do x; return [])) : Performs [task] x := by
  have h := performs_expand (z := fun _ => pure ()) hstep fun _ => performs_nil
  rwa [bind_pure_unit] at h

/-- What is done in a frame of its own. The frame is closed also after a fault. -/
theorem performs_inFrame {tasks : List Task} {x : Analysis Unit} (hx : Performs tasks x)
    (hkeeps : x.KeepsOuter) : Performs (.enter :: tasks ++ [.leave]) (ScopeM.inFrame x) := by
  intro c rest
  have henter : Performs [.enter] ScopeM.enter := performs_single rfl
  have hleave : Performs [.leave] ScopeM.leave := performs_single rfl
  have hopen := henter c (tasks ++ [.leave] ++ rest)
  rw [c.run_enter] at hopen
  have hinside := hx ⟨c.scope.enter, c.sink⟩ ([.leave] ++ rest)
  rw [← List.append_assoc] at hinside
  -- The frame that is left is the one that was opened, since the frames below it are kept.
  have hback : (Context.run ⟨c.scope.enter, c.sink⟩ x).1.scope.leave? = some c.scope := by
    have hframes : (x.run c.scope.enter).1.outer = c.scope.inner :: c.scope.outer := hkeeps _
    simp [Context.run, Scope.leave?, hframes]
  have hall : c.run (ScopeM.inFrame x) =
      (⟨c.scope, (Context.run ⟨c.scope.enter, c.sink⟩ x).1.sink⟩,
        (Context.run ⟨c.scope.enter, c.sink⟩ x).2) := by
    simp [Context.run, hkeeps.run_inFrame]
  refine hopen.trans (hinside.trans ?_)
  rw [hall]
  cases (Context.run ⟨c.scope.enter, c.sink⟩ x).2 with
  | ok u =>
    have hclose := hleave (Context.run ⟨c.scope.enter, c.sink⟩ x).1 rest
    rwa [Context.run_leave hback] at hclose
  | error fault =>
    refine .step ?_
    simp [next, Task.unwind, Context.run_leave hback]

/-! ## Programs -/

theorem leave_not_mem_items (items : List Item) : .leave ∉ items.map Task.item := by
  simp

theorem performs_checkAll {items : List Item}
    (h : ∀ item ∈ items, Performs [.item item] item.check) :
    Performs (items.map .item) (Item.checkAll items) := by
  induction items with
  | nil => exact performs_nil
  | cons item items ih =>
    obtain ⟨hitem, hitems⟩ := List.forall_mem_cons.1 h
    exact hitem.append (ih hitems) (leave_not_mem_items items)

theorem performs_binding (name : Located String) (symbol : Symbol) :
    Performs [.item (.binding name symbol)] (declareFree name symbol) := performs_single rfl

theorem performs_alias (d : Located Alias) : Performs [.item (.alias d)] (declareTypes [d]) :=
  performs_single rfl

theorem performs_group (g : Located Group) :
    Performs [.item (.group g)] (declareVariables [g]) := by
  have hnames : ∀ τ, Performs
      (g.value.names.map fun name => .item (.binding name (.variable τ)))
      (declareNames τ g.value.names) := by
    intro τ
    rw [declareNames_eq_declareParams, declareParams_eq_checkAll]
    have hparams : Performs ((parameterItems (g.value.names.map fun name => (name, τ))).map .item)
        (Item.checkAll (parameterItems (g.value.names.map fun name => (name, τ)))) := by
      refine performs_checkAll fun item hitem => ?_
      obtain ⟨arg, _, rfl⟩ := List.mem_map.1 hitem
      exact performs_binding _ _
    simpa [parameterItems, Function.comp_def] using hparams
  have hstep : (Task.item (.group g)).step = checkDeclaredType g.value.type >>= fun τ =>
      pure (g.value.names.map fun name => .item (.binding name (.variable τ))) := rfl
  have hgroup := performs_expand hstep hnames
  have hlast : declareVariables [g] =
      checkDeclaredType g.value.type >>= fun τ => declareNames τ g.value.names := by
    simp [declareVariables]
  rwa [hlast]

/-- The tasks of a procedure do what is done inside it, if its own procedures are analysed step by
step. -/
theorem Procedure.performs_tasks (p : Procedure) (args : List (Located String × Ty))
    (h : ∀ q ∈ p.procedures, Performs [.item (.procedure q)] (q.value.check q.pos)) :
    Performs (p.tasks args) (ScopeM.inFrame (p.inside args)) := by
  have hlevel : Performs ((p.levelItems args).map .item) (Item.checkAll (p.levelItems args)) := by
    refine performs_checkAll fun item hitem => ?_
    simp only [levelItems, parameterItems, Declarations.items, List.mem_append, List.mem_map]
      at hitem
    rcases hitem with ⟨arg, _, rfl⟩ | (⟨d, _, rfl⟩ | ⟨g, _, rfl⟩) | ⟨q, hq, rfl⟩
    · exact performs_binding _ _
    · exact performs_alias d
    · exact performs_group g
    · exact h q hq
  have hbody : Performs [.body p.body] (ScopeM.read fun s => Statement.checkAll s p.body) :=
    performs_single rfl
  have hput : Performs [.put p.name (.procedure (args.map Prod.snd))]
      (ScopeM.declare p.name (.procedure (args.map Prod.snd))) := performs_single rfl
  refine performs_inFrame ?_ (p.inside_keepsOuter args)
  exact hput.append (hlevel.append hbody (by simp)) (by simp)

mutual

/-- A procedure is analysed step by step. -/
theorem Procedure.performs_check (q : Position) : (p : Procedure) →
    Performs [.item (.procedure ⟨q, p⟩)] (p.check q)
  | ⟨name, params, types, vars, procedures, body⟩ => by
    have hnested := Procedure.performs_all procedures
    rw [Procedure.check_eq]
    have hinside := fun args =>
      Procedure.performs_tasks ⟨name, params, types, vars, procedures, body⟩ args hnested
    have hstep : Task.step (.item (.procedure ⟨q, ⟨name, params, types, vars, procedures, body⟩⟩)) =
        (do
          let args ← checkParams params
          declareFree ⟨q, name⟩ (.procedure (args.map Prod.snd))
          pure args) >>= fun args =>
            pure (Procedure.tasks ⟨name, params, types, vars, procedures, body⟩ args) := by
      simp [Task.step, Located.map]
    have hprocedure := performs_expand hstep hinside
    simpa using hprocedure

theorem Procedure.performs_all : (procedures : List (Located Procedure)) →
    ∀ q ∈ procedures, Performs [.item (.procedure q)] (q.value.check q.pos)
  | [], _, hq => absurd hq List.not_mem_nil
  | ⟨p, procedure⟩ :: procedures, q, hq => by
    rcases List.mem_cons.1 hq with rfl | hq
    · exact Procedure.performs_check p procedure
    · exact Procedure.performs_all procedures q hq

end

/-- Every item is checked step by step. -/
theorem Item.performs_check : (item : Item) → Performs [.item item] item.check
  | .binding name symbol => performs_binding name symbol
  | .alias d => performs_alias d
  | .group g => performs_group g
  | .procedure p => Procedure.performs_check p.pos p.value

/-- Items are checked step by step, one after the other. -/
theorem performs_items (items : List Item) : Performs (items.map .item) (Item.checkAll items) :=
  performs_checkAll fun item _ => item.performs_check

/-- The first stage of the analysis of a program. -/
def Program.start (p : Program) : Stage :=
  ⟨⟨.empty, []⟩, .ok (), p.declarations.items.map .item ++ [.body p.body]⟩

/-- At some point of the analysis of a program the scope is the given one. -/
def Program.Passes (p : Program) (s : Scope) : Prop :=
  ∃ stage, p.start.Leads stage ∧ stage.context.scope = s

theorem Declarations.performs_check (d : Declarations) :
    Performs (d.items.map .item) d.check := by
  rw [d.check_eq_checkAll]
  exact performs_items d.items

/-- The stages of a program lead to what its analysis comes to. -/
theorem Program.leads_start (p : Program) :
    ∃ last, p.start.Leads last ∧ last.next = none ∧ last.answer = p.analyze := by
  have hbody : Performs [.body p.body] (ScopeM.read fun s => Statement.checkAll s p.body) :=
    performs_single rfl
  have hall := (p.declarations.performs_check.append hbody (by simp)) ⟨.empty, []⟩ []
  rw [List.append_nil] at hall
  exact ⟨_, hall, rfl, rfl⟩

/-! ## Levels -/

/-- Between two items of a level the analysis is at the stage that checking the items so far comes
to. The items behind them are still to be done. -/
theorem leads_between (c : Context) (items others : List Item) (rest : List Task) :
    Leads ⟨c, .ok (), (items ++ others).map .item ++ rest⟩
      ⟨(c.run (Item.checkAll items)).1, (c.run (Item.checkAll items)).2,
        others.map .item ++ rest⟩ := by
  rw [List.map_append, List.append_assoc]
  exact performs_items items c (others.map .item ++ rest)

/-- Behind every front of the items of a program the scope is the one that checking this front
leaves. -/
theorem Program.passes_front (p : Program) {items : List Item}
    (h : items <+: p.declarations.items) : p.Passes ((Item.checkAll items).run .empty).1 := by
  obtain ⟨others, hitems⟩ := h
  have hfront := leads_between ⟨.empty, []⟩ items others [.body p.body]
  rw [hitems] at hfront
  exact ⟨_, hfront, rfl⟩

/-- What happens to a procedure ahead of its frame: the parameters are checked, and the name is
declared. -/
def Procedure.announce (q : Located Procedure) : Analysis (List (Located String × Ty)) := do
  let args ← checkParams q.value.params
  declareFree (q.map Procedure.name) (.procedure (args.map Prod.snd))
  return args

/-- A procedure that is announced without a fault is opened. -/
theorem leads_opened {c c' : Context} {q : Located Procedure} {args : List (Located String × Ty)}
    (h : c.run (Procedure.announce q) = (c', .ok args)) (rest : List Task) :
    Leads ⟨c, .ok (), .item (.procedure q) :: rest⟩ ⟨c', .ok (), q.value.tasks args ++ rest⟩ := by
  have hstep : (Task.item (.procedure q)).step =
      Procedure.announce q >>= fun args => pure (q.value.tasks args) := by
    simp [Task.step, Procedure.announce]
  have hrun : c.run (Task.item (.procedure q)).step = (c', .ok (q.value.tasks args)) := by
    rw [hstep, Context.run_bind, h]
    exact Context.run_pure c' (q.value.tasks args)
  refine .step ?_
  rw [next, hrun]

/-- Between two items of a procedure's level the analysis is at the stage that checking the items so
far comes to, from a frame in which the procedure is known. Where the next item is a procedure, the
same holds of the level below. -/
theorem leads_level {c c' : Context} {q : Located Procedure} {args : List (Located String × Ty)}
    (h : c.run (Procedure.announce q) = (c', .ok args)) {items others : List Item}
    (hitems : items ++ others = q.value.levelItems args) (rest : List Task) :
    let symbol : Symbol := .procedure (args.map Prod.snd)
    let inside : Context := ⟨c'.scope.enter.declare q.value.name symbol, c'.sink⟩
    Leads ⟨c, .ok (), .item (.procedure q) :: rest⟩
      ⟨(inside.run (Item.checkAll items)).1, (inside.run (Item.checkAll items)).2,
        others.map .item ++ ([.body q.value.body, .leave] ++ rest)⟩ := by
  intro symbol inside
  have henter : Performs [.enter] ScopeM.enter := performs_single rfl
  have hput : Performs [.put q.value.name symbol] (ScopeM.declare q.value.name symbol) :=
    performs_single rfl
  have hframe : Leads ⟨c', .ok (), q.value.tasks args ++ rest⟩
      ⟨inside, .ok (), (items ++ others).map .item ++ ([.body q.value.body, .leave] ++ rest)⟩ := by
    have hboth := (henter.append hput (by simp)) c'
      ((items ++ others).map .item ++ ([.body q.value.body, .leave] ++ rest))
    have hrun : c'.run (do ScopeM.enter; ScopeM.declare q.value.name symbol) =
        (inside, .ok ()) := by
      rw [Context.run_bind, Context.run_enter]
      exact Context.run_declare _ q.value.name symbol
    rw [hrun] at hboth
    simpa [Procedure.tasks, hitems] using hboth
  exact (leads_opened h rest).trans (hframe.trans (leads_between inside items others _))

/-- Behind every front of a procedure's level the scope is the one that checking this front leaves,
wherever the procedure stands in the program. -/
theorem Program.passes_level {p : Program} {c c' : Context} {q : Located Procedure}
    {args : List (Located String × Ty)} {rest : List Task}
    (hreached : p.start.Leads ⟨c, .ok (), .item (.procedure q) :: rest⟩)
    (hopened : c.run (Procedure.announce q) = (c', .ok args)) {items : List Item}
    (h : items <+: q.value.levelItems args) :
    p.Passes ((Item.checkAll items).run
      (c'.scope.enter.declare q.value.name (.procedure (args.map Prod.snd)))).1 := by
  obtain ⟨others, hitems⟩ := h
  exact ⟨_, hreached.trans (leads_level hopened hitems rest), rfl⟩

end SnlFront
