import SnlFront.Proofs.Correspondence.Checking

/-!
# Shadowed bindings

A scope is asked two questions only: what a name stands for, and whether it is taken at the
innermost level. Two scopes may give the same answers although one is deeper than the other, or has
bindings that a frame further in hides. No analysis can tell such scopes apart, and it leaves scopes
that give the same answers again. This is also so for procedures, whose end uncovers the frames that
were there before.

## Main definitions

* `Scope.Agrees`: two scopes answer in the same way.
* `ScopeM.SameFrom`: a computation takes the same course from two scopes.

## Main statements

* `Scope.Agrees.sameFrom_analyses`: every analysis takes the same course from scopes that agree.
-/

namespace SnlFront

/-- Two scopes answer in the same way for every name. Their frames may differ. -/
structure Scope.Agrees (s t : Scope) : Prop where
  lookup : ∀ name, s.lookup name = t.lookup name
  isLocal : ∀ name, s.isLocal name = t.isLocal name

/-- From two scopes the computation takes the same notes and comes to the same value or the same
fault, and it leaves scopes that agree. -/
structure ScopeM.SameFrom {ω α : Type} (x : ScopeM ω α) (s t : Scope) : Prop where
  notes : (x.run s).2.log = (x.run t).2.log
  value : (x.run s).2.value = (x.run t).2.value
  scopes : (x.run s).1.Agrees (x.run t).1

namespace Correspondence

theorem symbols_same_iff {f : Position → Position} {a b : Symbol} :
    (same f).Symbols a b ↔ a = b := by
  constructor
  · intro h
    cases h with
    | ofVariable h => exact congrArg Symbol.variable h
    | ofType h => exact congrArg Symbol.type h
    | ofProcedure h =>
      have hparams : List.Forall₂ Eq _ _ := h
      rw [List.forall₂_eq_eq_eq] at hparams
      exact congrArg Symbol.procedure hparams
  · rintro rfl
    cases a with
    | «variable» τ => exact .ofVariable rfl
    | type τ => exact .ofType rfl
    | procedure τs => exact .ofProcedure (List.forall₂_same.2 fun _ _ => rfl)

/-- If names stay as they are, scopes correspond exactly if they agree. -/
theorem scopes_same_iff {f : Position → Position} {s t : Scope} :
    (same f).Scopes s t ↔ s.Agrees t := by
  constructor
  · intro h
    refine ⟨fun name => ?_, h.isLocal⟩
    have hsame : ∀ a b, (same f).Symbols a b → b = id a := fun _ _ hab =>
      (symbols_same_iff.1 hab).symm
    have hname : t.lookup name = (s.lookup name).map id := eq_map_of_rel hsame (h.lookup name)
    rw [hname, Option.map_id, id]
  · intro h
    refine ⟨fun name => ?_, h.isLocal⟩
    change Option.Rel _ (s.lookup name) (t.lookup name)
    rw [← h.lookup name]
    cases s.lookup name with
    | none => exact .none
    | some symbol => exact .some (symbols_same_iff.2 rfl)

/-- An analysis that corresponds to itself, label by label, takes the same course from scopes that
agree. -/
theorem MatchedIn.sameFrom {α : Type} {x : Analysis α} (h : (same id).MatchedIn Eq x x)
    {s t : Scope} (hs : s.Agrees t) : x.SameFrom s t := by
  obtain ⟨hscopes, hnotes, hvalue⟩ := h s t (scopes_same_iff.2 hs)
  refine ⟨?_, ?_, scopes_same_iff.1 hscopes⟩
  · rw [log_eq_of_same hnotes]
    exact (List.map_id' _).symm
  · rcases hvalue.cases with ⟨a, _, hx, hy, rfl⟩ | ⟨fault, hx, hy⟩
    · rw [hx, hy]
    · rw [hx, hy]

end Correspondence

open Correspondence

/-- Analyses of types, declarations, procedures, statements, expressions and calls take the same
course from scopes that agree, whatever the tree. -/
theorem Scope.Agrees.sameFrom_analyses {s t : Scope} (hs : s.Agrees t) :
    (∀ e : Located TypeExpr, (checkDeclaredType e).SameFrom s t) ∧
    (∀ d : Declarations, d.check.SameFrom s t) ∧
    (∀ (p : Position) (procedure : Procedure), (procedure.check p).SameFrom s t) ∧
    (∀ statements : List Statement,
      (ScopeM.read fun s => Statement.checkAll s statements).SameFrom s t) ∧
    (∀ e : Expression, (ScopeM.read fun s => e.check s).SameFrom s t) ∧
    ∀ call : Located Call, (ScopeM.read fun s => Call.check s call).SameFrom s t := by
  refine ⟨fun e => ?_, fun d => ?_, fun p procedure => ?_, fun statements => ?_, fun e => ?_,
    fun call => ?_⟩
  · have h := matched_checkDeclaredType (K := same id) e
    rw [Located.relabel, TypeExpr.relabel_self] at h
    exact MatchedIn.sameFrom h hs
  · have h := d.matched_check (K := same id)
    rw [Declarations.relabel_self] at h
    exact MatchedIn.sameFrom h hs
  · have h := procedure.matched_check (K := same id) p
    rw [Procedure.relabel_self] at h
    exact MatchedIn.sameFrom h hs
  · have h := matched_body (K := same id) statements
    rw [Statement.relabelAll_self] at h
    exact MatchedIn.sameFrom h hs
  · refine MatchedIn.sameFrom (ScopeM.related_read fun s t h => ?_) hs
    have he := e.matched_check h
    rw [Expression.relabel_self] at he
    exact he
  · refine MatchedIn.sameFrom (ScopeM.related_read fun s t h => ?_) hs
    have hcall := Call.matched_check h call
    rw [Located.relabel, Call.relabel_self] at hcall
    exact hcall

theorem hiddenType_sameFrom :
    let shallow : Scope := ⟨[("x", .variable .integer)], []⟩
    let deep : Scope := ⟨[("x", .variable .integer)], [[("x", .type .char)], []]⟩
    shallow ≠ deep ∧ shallow.Agrees deep ∧
      ∀ (p : Position) (procedure : Procedure), (procedure.check p).SameFrom shallow deep := by
  intro shallow deep
  have hagrees : shallow.Agrees deep := by
    refine ⟨fun name => ?_, fun name => rfl⟩
    by_cases hname : name = "x"
    · subst hname
      rfl
    · have miss : (name == "x") = false := by simpa using hname
      simp [shallow, deep, Scope.lookup, Scope.frames, List.findSome?_cons, List.lookup_cons, miss]
  exact ⟨by decide, hagrees, hagrees.sameFrom_analyses.2.2.1⟩

end SnlFront
