import SnlFront.Proofs.Checking.Course
import SnlFront.Proofs.Ty.Groups

/-!
# Symbol tables hold canonical types

Fields are looked up and records are compared in a way that is right for canonical types only. No
other types are ever stored: in all scopes that an analysis passes through, in every frame and also
behind names that are hidden, symbols have canonical types, and the types that are found in such a
scope are canonical. This holds of every program, also of one whose analysis breaks off.

## Main definitions

* `Symbol.types`, `Scope.Canonical`: the types of a symbol, and scopes that store canonical ones.
* `Logged.Gives`, `ScopeM.Gives`: what is known of a value, if one comes out.
* `Stage.Canonical`: the types that a stage of an analysis has stored or is going to store.

## Main statements

* `TypeExpr.canonical_of_resolve`: type expressions denote canonical types.
* `Expression.gives_check`: expressions have canonical types.
* `Stage.canonical_next`: one step of an analysis.
* `Program.canonical_of_passes`: all scopes that the analysis of a program passes through.
-/

namespace SnlFront

/-! ## Scopes -/

/-- The types that a symbol holds. -/
def Symbol.types : Symbol → List Ty
  | .variable τ => [τ]
  | .type τ => [τ]
  | .procedure params => params

/-- All types that a symbol holds are canonical. -/
def Symbol.Canonical (symbol : Symbol) : Prop := ∀ τ ∈ symbol.types, τ.Canonical

theorem Symbol.canonical_variable {τ : Ty} (h : τ.Canonical) : (Symbol.variable τ).Canonical := by
  simpa [Symbol.Canonical, Symbol.types] using h

theorem Symbol.canonical_type {τ : Ty} (h : τ.Canonical) : (Symbol.type τ).Canonical := by
  simpa [Symbol.Canonical, Symbol.types] using h

namespace Scope

/-- All symbols of all frames hold canonical types, whether or not a name leads to them. -/
def Canonical (s : Scope) : Prop := ∀ frame ∈ s.frames, ∀ entry ∈ frame, entry.2.Canonical

variable {s : Scope}

theorem canonical_empty : Scope.empty.Canonical := by
  intro frame hframe entry hentry
  rw [List.mem_singleton.1 hframe] at hentry
  cases hentry

theorem Canonical.enter (h : s.Canonical) : s.enter.Canonical := by
  intro frame hframe entry hentry
  rcases List.mem_cons.1 hframe with rfl | hframe
  · cases hentry
  · exact h frame hframe entry hentry

/-- Declaring keeps the other symbols of the frame, or drops one; so only the new symbol matters. -/
theorem Canonical.declare (h : s.Canonical) (name : String) {symbol : Symbol}
    (hsymbol : symbol.Canonical) : (s.declare name symbol).Canonical := by
  intro frame hframe entry hentry
  rcases List.mem_cons.1 hframe with rfl | hframe
  · rcases List.mem_cons.1 hentry with rfl | hentry
    · exact hsymbol
    · exact h s.inner List.mem_cons_self entry (List.mem_of_mem_filter hentry)
  · exact h frame (List.mem_cons_of_mem _ hframe) entry hentry

theorem Canonical.leave? (h : s.Canonical) {t : Scope} (ht : s.leave? = some t) : t.Canonical := by
  obtain ⟨inner, outer⟩ := s
  cases outer with
  | nil => cases ht
  | cons frame outer =>
    cases ht
    exact fun frame hframe => h frame (List.mem_cons_of_mem _ hframe)

/-- What is found behind a name is stored in some frame. -/
theorem Canonical.lookup (h : s.Canonical) {name : String} {symbol : Symbol}
    (hname : s.lookup name = some symbol) : symbol.Canonical := by
  obtain ⟨frame, hframe, hfound⟩ := List.exists_of_findSome?_eq_some hname
  obtain ⟨before, after, rfl, -⟩ := List.lookup_eq_some_iff.1 hfound
  exact h _ hframe (name, symbol) (by simp)

/-- A name that stands for no type is taken for the unknown one, which is canonical. -/
theorem Canonical.lookupType? (h : s.Canonical) (name : String) :
    ((s.lookupType? name).getD .unknown).Canonical := by
  unfold Scope.lookupType?
  split
  · next type htype => exact h.lookup htype type List.mem_cons_self
  · trivial

end Scope

/-! ## Values, if there are any -/

namespace Logged

variable {ω α β : Type} {Q : α → Prop} {R : β → Prop}

/-- If a value comes out, it has a property. -/
def Gives (Q : α → Prop) (x : Logged ω α) : Prop := ∀ a, x.value = .ok a → Q a

theorem gives_pure {a : α} (h : Q a) : (Pure.pure a : Logged ω α).Gives Q := by
  rintro _ ⟨⟩
  exact h

theorem gives_fail (fault : Fault) : (fail fault : Logged ω α).Gives Q := nofun

/-- What is known of the first value may be used for the second. -/
theorem Gives.bind {x : Logged ω α} {f : α → Logged ω β} (hx : x.Gives Q)
    (hf : ∀ a, Q a → (f a).Gives R) : (x >>= f).Gives R := by
  intro b hb
  cases hvalue : x.value with
  | error fault =>
    rw [bind_of_error hvalue] at hb
    cases hb
  | ok a =>
    rw [value_bind_of_ok hvalue] at hb
    exact hf a (hx a hvalue) b hb

/-- Often nothing has to be known of what comes first. -/
theorem gives_bind {x : Logged ω α} {f : α → Logged ω β} (hf : ∀ a, (f a).Gives R) :
    (x >>= f).Gives R :=
  Gives.bind (Q := fun _ => True) (fun _ _ => trivial) fun a _ => hf a

end Logged

open Logged

/-! ## Types that are found -/

mutual

/-- A type expression denotes a canonical type, in a scope that stores such types. -/
theorem TypeExpr.canonical_of_resolve {s : Scope} (hs : s.Canonical) : (t : TypeExpr) → (τ : Ty) →
    t.resolve s = .ok τ → τ.Canonical
  | .integer, _, h => by
    cases h
    trivial
  | .char, _, h => by
    cases h
    trivial
  | .array base lower upper, _, h => by
    cases h
    cases base <;> rfl
  | .record groups, τ, h => by
    rw [TypeExpr.resolve] at h
    cases hmembers : Group.resolveMembers s groups with
    | error fault =>
      rw [hmembers] at h
      cases h
    | ok members =>
      rw [hmembers] at h
      cases h
      exact Ty.canonical_ofMembers (Group.canonical_of_resolveMembers hs groups members hmembers)
  | .named name, _, h => by
    cases h
    exact hs.lookupType? name
  | .hole, _, h => by cases h

theorem Group.canonical_of_resolveMembers {s : Scope} (hs : s.Canonical) : (groups : List Group) →
    (members : List (String × Ty)) → Group.resolveMembers s groups = .ok members →
    ∀ member ∈ members, member.2.Canonical
  | [], _, h => by
    cases h
    simp
  | ⟨⟨p, type⟩, names⟩ :: groups, _, h => by
    obtain ⟨τ, rest, hτ, hrest, rfl⟩ := Group.resolveMembers_cons_eq_ok h
    have hfirst := TypeExpr.canonical_of_resolve hs type τ hτ
    have hothers := Group.canonical_of_resolveMembers hs groups rest hrest
    refine List.forall_mem_append.2 ⟨?_, hothers⟩
    exact List.forall_mem_map.2 fun _ _ => hfirst

end

section Found

variable {s : Scope}

/-- A type that was checked is the one that the expression denotes. -/
theorem TypeExpr.gives_check (hs : s.Canonical) (t : Located TypeExpr) :
    (TypeExpr.check s t).Gives Ty.Canonical :=
  fun τ hτ => t.value.canonical_of_resolve hs τ (TypeExpr.resolve_of_check hτ)

/-- The type of a variable is canonical, as all types that are stored. -/
theorem gives_checkBase (hs : s.Canonical) (base : Located String) :
    (checkBase s base).Gives Ty.Canonical := by
  rw [checkBase]
  split
  · exact gives_bind fun _ => gives_pure trivial
  · next type htype => exact gives_pure (hs.lookup htype type List.mem_cons_self)
  · exact gives_bind fun _ => gives_pure trivial

/-- The field of a canonical record is canonical; whatever is wrong gives the unknown type. -/
theorem gives_checkField {τ : Ty} (hτ : τ.Canonical) (field : Option (Located String)) :
    (checkField τ field).Gives Ty.Canonical := by
  cases field with
  | none => exact gives_pure hτ
  | some field =>
    cases τ with
    | unknown => exact gives_pure trivial
    | integer | char | array base lower upper => exact gives_bind fun _ => gives_pure trivial
    | record fields =>
      rw [checkField]
      split
      · next type htype =>
        rw [Ty.field?_eq_lookup hτ.1] at htype
        exact gives_pure (hτ.lookup htype)
      · exact gives_bind fun _ => gives_pure trivial

/-- The elements of a canonical array are of a base type. -/
theorem gives_checkElement {τ : Ty} (hτ : τ.Canonical) (p : Position) (index : Ty) :
    (checkElement τ p index).Gives Ty.Canonical := by
  cases τ with
  | unknown => exact gives_pure trivial
  | integer | char | record fields => exact gives_bind fun _ => gives_pure trivial
  | array base lower upper =>
    refine gives_bind fun _ => gives_pure ?_
    have hbase : base.isBase = true := hτ
    cases base with
    | integer | char => trivial
    | unknown | array _ _ _ | record _ => cases hbase

/-- A chain of operands has the type of its first operand. -/
theorem gives_operands {left right : Checked Ty} (p : Position) (hleft : left.Gives Ty.Canonical) :
    (do
      let type ← left
      let other ← right
      require (type.compatible other) p (.incompatibleType type other)
      return type).Gives Ty.Canonical :=
  hleft.bind fun _ htype => gives_bind fun _ => gives_bind fun _ => gives_pure htype

/-- A variable has a canonical type, whatever is selected of it. -/
theorem Variable.gives_check (hs : s.Canonical) (v : Variable) :
    (v.check s).Gives Ty.Canonical := by
  cases v with
  | whole base =>
    rw [Variable.check]
    exact gives_checkBase hs base
  | part base field index =>
    cases index with
    | none =>
      rw [Variable.check]
      exact (gives_checkBase hs base).bind fun _ htype => gives_checkField htype field
    | some index =>
      rw [Variable.check]
      refine (gives_checkBase hs base).bind fun _ hbase => ?_
      refine (gives_checkField hbase field).bind fun _ htype => ?_
      exact gives_bind fun _ => gives_checkElement htype _ _

mutual

/-- Expressions have canonical types, and so do terms and factors. A chain has the type of its first
operand. -/
theorem Expression.gives_check (hs : s.Canonical) : (e : Expression) →
    (e.check s).Gives Ty.Canonical
  | .last ⟨_, left⟩ _ => by
    rw [Expression.check]
    exact Term.gives_check hs left
  | .chain ⟨_, left⟩ _ ⟨p, _⟩ => by
    rw [Expression.check]
    exact gives_operands p (Term.gives_check hs left)

theorem Term.gives_check (hs : s.Canonical) : (t : Term) → (t.check s).Gives Ty.Canonical
  | .last ⟨_, left⟩ _ => by
    rw [Term.check]
    exact Factor.gives_check hs left
  | .chain ⟨_, left⟩ _ ⟨p, _⟩ => by
    rw [Term.check]
    exact gives_operands p (Factor.gives_check hs left)

theorem Factor.gives_check (hs : s.Canonical) : (f : Factor) → (f.check s).Gives Ty.Canonical
  | .bracket inner => by
    rw [Factor.check]
    exact Expression.gives_check hs inner
  | .constant _ => gives_pure trivial
  | .variable v => by
    rw [Factor.check]
    exact Variable.gives_check hs v
  | .hole => gives_fail _

end

end Found

/-! ## One step of an analysis -/

namespace ScopeM

variable {ω α β : Type} {Q : α → Prop} {R : β → Prop}

/-- From a scope that stores canonical types the computation goes to such a scope, also if it breaks
off. If a value comes out, it has a property. -/
def Gives (Q : α → Prop) (x : ScopeM ω α) : Prop :=
  ∀ s : Scope, s.Canonical → (x.run s).1.Canonical ∧ (x.run s).2.Gives Q

theorem gives_pure {a : α} (h : Q a) : (Pure.pure a : ScopeM ω α).Gives Q :=
  fun _ hs => ⟨hs, Logged.gives_pure h⟩

theorem gives_read {f : Scope → Logged ω α} (h : ∀ s : Scope, s.Canonical → (f s).Gives Q) :
    (read f).Gives Q := fun s hs => ⟨hs, h s hs⟩

theorem Gives.bind {x : ScopeM ω α} {f : α → ScopeM ω β} (hx : x.Gives Q)
    (hf : ∀ a, Q a → (f a).Gives R) : (x >>= f).Gives R := by
  intro s hs
  obtain ⟨hscope, hvalue⟩ := hx s hs
  rw [run_bind]
  cases ha : (x.run s).2.value with
  | error fault => exact ⟨hscope, nofun⟩
  | ok a => exact hf a (hvalue a ha) _ hscope

end ScopeM

/-- Nothing is said of a value. -/
abbrev whatever {α : Type} (_ : α) : Prop := True

open ScopeM

/-- Storing a symbol with canonical types keeps a scope canonical. -/
theorem gives_declare (name : String) {symbol : Symbol} (h : symbol.Canonical) :
    (ScopeM.declare name symbol : Analysis Unit).Gives whatever :=
  fun _ hs => ⟨hs.declare name h, fun _ _ => trivial⟩

theorem gives_enter : (ScopeM.enter : Analysis Unit).Gives whatever :=
  fun _ hs => ⟨hs.enter, fun _ _ => trivial⟩

/-- Closing a frame drops symbols. The only frame is not closed. -/
theorem gives_leave : (ScopeM.leave : Analysis Unit).Gives whatever := by
  intro s hs
  refine ⟨?_, fun _ _ => trivial⟩
  unfold ScopeM.leave
  dsimp only
  split
  · next t ht => exact hs.leave? ht
  · exact hs

theorem gives_checkFree (name : Located String) : (checkFree name).Gives whatever :=
  gives_read fun _ _ _ _ => trivial

/-- A name that is taken is not declared again. -/
theorem gives_declareFree (name : Located String) {symbol : Symbol} (h : symbol.Canonical) :
    (declareFree name symbol).Gives whatever := by
  refine (gives_checkFree name).bind fun free _ => ?_
  cases free with
  | false => exact gives_pure trivial
  | true => exact gives_declare name.value h

theorem gives_checkDeclaredType (t : Located TypeExpr) :
    (checkDeclaredType t).Gives Ty.Canonical :=
  gives_read fun _ hs => TypeExpr.gives_check hs t

/-- An alias is stored with the type that it denotes. -/
theorem gives_declareType (d : Located Alias) : (declareTypes [d]).Gives whatever := by
  refine (gives_checkFree _).bind fun free _ => ?_
  cases free with
  | false => exact gives_pure trivial
  | true =>
    refine (gives_checkDeclaredType _).bind fun τ hτ => ?_
    exact (gives_declare _ (Symbol.canonical_type hτ)).bind fun _ _ => gives_pure trivial

/-- Parameters are found with canonical types, before any of them is declared. -/
theorem gives_checkParams (params : List (Located Parameter)) :
    (checkParams params).Gives fun args => ∀ arg ∈ args, arg.2.Canonical := by
  induction params with
  | nil => exact gives_pure (by simp)
  | cons param params ih =>
    refine (gives_checkDeclaredType _).bind fun τ hτ => ?_
    refine ih.bind fun args hargs => gives_pure ?_
    exact List.forall_mem_append.2 ⟨List.forall_mem_map.2 fun _ _ => hτ, hargs⟩

/-- The symbols that a task is going to store hold canonical types. -/
def Task.Canonical : Task → Prop
  | .item (.binding _ symbol) => symbol.Canonical
  | .put _ symbol => symbol.Canonical
  | _ => True

theorem Symbol.canonical_procedure {args : List (Located String × Ty)}
    (h : ∀ arg ∈ args, arg.2.Canonical) : (Symbol.procedure (args.map Prod.snd)).Canonical :=
  List.forall_mem_map.2 h

/-- Parameters with canonical types leave tasks that store canonical types. -/
theorem Procedure.canonical_tasks (p : Procedure) {args : List (Located String × Ty)}
    (h : ∀ arg ∈ args, arg.2.Canonical) : ∀ task ∈ p.tasks args, task.Canonical := by
  intro task htask
  simp only [Procedure.tasks, Procedure.levelItems, parameterItems, Declarations.items,
    List.mem_append, List.mem_cons, List.mem_map, List.not_mem_nil, or_false] at htask
  rcases htask with (rfl | rfl | ⟨item, hitem, rfl⟩ | rfl) | rfl
  · trivial
  · exact Symbol.canonical_procedure h
  · rcases hitem with ⟨arg, harg, rfl⟩ | (⟨d, _, rfl⟩ | ⟨g, _, rfl⟩) | ⟨q, _, rfl⟩
    · exact Symbol.canonical_variable (h arg harg)
    · trivial
    · trivial
    · trivial
  · trivial
  · trivial

/-- The first step of a task stores canonical types only, and so do the tasks that it leaves. -/
theorem Task.gives_step {task : Task} (h : task.Canonical) :
    task.step.Gives fun rest : List Task => ∀ t ∈ rest, t.Canonical := by
  have hnone : ∀ x : Analysis Unit, x.Gives whatever →
      (do x; return ([] : List Task)).Gives fun rest : List Task => ∀ t ∈ rest, t.Canonical :=
    fun x hx => hx.bind fun _ _ => gives_pure (by simp)
  cases task with
  | item item =>
    cases item with
    | binding name symbol => exact hnone _ (gives_declareFree name h)
    | «alias» d => exact hnone _ (gives_declareType d)
    | group g =>
      refine (gives_checkDeclaredType _).bind fun τ hτ => gives_pure ?_
      exact List.forall_mem_map.2 fun _ _ => Symbol.canonical_variable hτ
    | procedure p =>
      refine (gives_checkParams _).bind fun args hargs => ?_
      refine (gives_declareFree _ (Symbol.canonical_procedure hargs)).bind fun _ _ => ?_
      exact gives_pure (p.value.canonical_tasks hargs)
  | enter => exact hnone _ gives_enter
  | put name symbol => exact hnone _ (gives_declare name h)
  | body statements => exact hnone _ (gives_read fun _ _ _ _ => trivial)
  | leave => exact hnone _ gives_leave

/-! ## All steps -/

/-- All types that a stage has stored, or is going to store, are canonical. -/
structure Stage.Canonical (a : Stage) : Prop where
  scope : a.context.scope.Canonical
  tasks : ∀ task ∈ a.tasks, task.Canonical

/-- One step of an analysis stores canonical types only. -/
theorem Stage.canonical_next {a b : Stage} (ha : a.Canonical) (h : a.next = some b) :
    b.Canonical := by
  obtain ⟨c, outcome, tasks⟩ := a
  cases tasks with
  | nil => cases h
  | cons task tasks =>
    obtain ⟨htask, htasks⟩ := List.forall_mem_cons.1 ha.tasks
    cases outcome with
    | ok u =>
      obtain ⟨hscope, hrest⟩ := Task.gives_step htask c.scope ha.scope
      simp only [next, Context.run] at h
      cases hvalue : (task.step.run c.scope).2.value with
      | ok rest =>
        rw [hvalue] at h
        cases h
        exact ⟨hscope, List.forall_mem_append.2 ⟨hrest rest hvalue, htasks⟩⟩
      | error fault =>
        rw [hvalue] at h
        cases h
        exact ⟨hscope, htasks⟩
    | error fault =>
      cases h
      refine ⟨?_, htasks⟩
      cases task with
      | leave => exact (gives_leave c.scope ha.scope).1
      | item item | enter | put name symbol | body statements => exact ha.scope

/-- The stages that follow a stage store canonical types only. -/
theorem Stage.Leads.canonical {a b : Stage} (h : a.Leads b) (ha : a.Canonical) : b.Canonical := by
  induction h with
  | refl => exact ha
  | tail _ hstep ih => exact Stage.canonical_next ih hstep

/-- At the start nothing is stored, and no symbol is waiting to be. -/
theorem Program.canonical_start (p : Program) : p.start.Canonical := by
  refine ⟨Scope.canonical_empty, fun task htask => ?_⟩
  simp only [Program.start, Declarations.items, List.mem_append, List.mem_map,
    List.mem_singleton] at htask
  rcases htask with ⟨item, (⟨d, _, rfl⟩ | ⟨g, _, rfl⟩) | ⟨q, _, rfl⟩, rfl⟩ | rfl
  · trivial
  · trivial
  · trivial
  · trivial

/-- The analysis of a program goes from stage to stage up to its answer. In every scope that it
passes through on the way, all types that are stored are canonical, and so are the types that type
expressions denote there and that expressions, terms and variables have. -/
theorem Program.canonical_of_passes (p : Program) :
    (∃ last, p.start.Leads last ∧ last.next = none ∧ last.answer = p.analyze ∧
      ∀ stage, p.start.Leads stage → stage.Leads last) ∧
    ∀ s, p.Passes s →
      s.Canonical ∧
      (∀ (t : Located TypeExpr) (τ : Ty), (TypeExpr.check s t).value = .ok τ → τ.Canonical) ∧
      (∀ (e : Expression) (τ : Ty), (e.check s).value = .ok τ → τ.Canonical) ∧
      (∀ (t : Term) (τ : Ty), (t.check s).value = .ok τ → τ.Canonical) ∧
      ∀ (v : Variable) (τ : Ty), (v.check s).value = .ok τ → τ.Canonical := by
  constructor
  · obtain ⟨last, hlast, hnone, hanswer⟩ := p.leads_start
    exact ⟨last, hlast, hnone, hanswer, fun _ hstage => hstage.leads_last hlast hnone⟩
  · rintro _ ⟨stage, hstage, rfl⟩
    have hs := (hstage.canonical p.canonical_start).scope
    exact ⟨hs, fun t => TypeExpr.gives_check hs t, fun e => Expression.gives_check hs e,
      fun t => Term.gives_check hs t, fun v => Variable.gives_check hs v⟩

end SnlFront
