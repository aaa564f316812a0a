import SnlFront.Checking.Declarations
import SnlFront.Proofs.Checking.Clean

/-!
# Frames below the innermost one

Declarations work on the innermost frame only. Whatever they declare and however they end, the
frames below stay as they were, so a procedure that is checked in a frame of its own leaves the
scope exactly as it found it.

## Main definitions

* `ScopeM.KeepsOuter`: no frame below the innermost one is changed.

## Main statements

* `ScopeM.KeepsOuter.run_inFrame`: what runs in a frame of its own leaves no trace in the scope.
* `Declarations.keepsOuter_check`: the declarations of a level keep the frames below.
-/

namespace SnlFront

namespace ScopeM

variable {ω α β : Type}

/-- No frame below the innermost one is changed, also if the computation breaks off. -/
def KeepsOuter (x : ScopeM ω α) : Prop := ∀ s, (x.run s).1.outer = s.outer

theorem keepsOuter_pure (a : α) : (Pure.pure a : ScopeM ω α).KeepsOuter := fun _ => rfl

theorem keepsOuter_read (f : Scope → Logged ω α) : (read f).KeepsOuter := fun _ => rfl

theorem keepsOuter_declare (name : String) (symbol : Symbol) :
    (declare name symbol : ScopeM ω Unit).KeepsOuter := fun _ => rfl

/-- Two steps in a row keep the frames that both keep. -/
theorem KeepsOuter.bind {x : ScopeM ω α} {f : α → ScopeM ω β} (hx : x.KeepsOuter)
    (hf : ∀ a, (f a).KeepsOuter) : (x >>= f).KeepsOuter := by
  intro s
  rw [run_bind]
  cases (x.run s).2.value with
  | error fault => exact hx s
  | ok a => exact (hf a _).trans (hx s)

/-- If the frame of its own is the innermost one again when a computation ends, closing it gives the
scope that was there before. -/
theorem run_inFrame_of_outer {x : ScopeM ω α} {s : Scope}
    (h : (x.run s.enter).1.outer = s.enter.outer) :
    (inFrame x).run s = (s, (x.run s.enter).2) := by
  have houter : (x.run s.enter).1.outer = s.inner :: s.outer := h
  simp [inFrame, Scope.leave?, houter]

/-- A computation that keeps the frames below its own leaves the scope as it was. -/
theorem KeepsOuter.run_inFrame {x : ScopeM ω α} (hx : x.KeepsOuter) (s : Scope) :
    (inFrame x).run s = (s, (x.run s.enter).2) :=
  run_inFrame_of_outer (hx s.enter)

/-- What runs in a frame of its own keeps the others, so frames may be nested. -/
theorem KeepsOuter.inFrame {x : ScopeM ω α} (hx : x.KeepsOuter) : (inFrame x).KeepsOuter := by
  intro s
  rw [hx.run_inFrame]

theorem KeepsOuter.clean_inFrame {x : ScopeM ω α} (hx : x.KeepsOuter) (a : α) (s s' : Scope) :
    (ScopeM.inFrame x).Clean s s' a ↔ s = s' ∧ ∃ inner, x.Clean s.enter inner a := by
  simp [Clean, hx.run_inFrame]

end ScopeM

open ScopeM

/-- A look at the innermost frame tells whether a name is free. -/
theorem run_checkFree (name : Located String) (s : Scope) :
    (checkFree name).run s =
      (s, ⟨if s.isLocal name.value then [⟨name.pos, .duplicatedIdentifier name.value⟩] else [],
        .ok (!s.isLocal name.value)⟩) := by
  rw [checkFree, run_read]
  cases s.isLocal name.value <;> rfl

theorem keepsOuter_checkFree (name : Located String) : (checkFree name).KeepsOuter :=
  keepsOuter_read _

/-- A declaration works on the innermost frame, whether it is made or not. -/
theorem keepsOuter_declareFree (name : Located String) (symbol : Symbol) :
    (declareFree name symbol).KeepsOuter := by
  refine (keepsOuter_checkFree name).bind fun free => ?_
  cases free
  · exact keepsOuter_pure ()
  · exact keepsOuter_declare name.value symbol

theorem keepsOuter_declareParams (params : List (Located String × Ty)) :
    (declareParams params).KeepsOuter := by
  induction params with
  | nil => exact keepsOuter_pure ()
  | cons param params ih => exact (keepsOuter_declareFree param.1 _).bind fun _ => ih

/-- Names of one type are declared as parameters of that type are. -/
theorem declareNames_eq_declareParams (τ : Ty) (names : List (Located String)) :
    declareNames τ names = declareParams (names.map fun name => (name, τ)) := by
  induction names with
  | nil => rfl
  | cons name names ih => rw [declareNames, ih, List.map_cons, declareParams]

theorem keepsOuter_declareTypes (types : List (Located Alias)) :
    (declareTypes types).KeepsOuter := by
  induction types with
  | nil => exact keepsOuter_pure ()
  | cons declaration types ih =>
    refine (keepsOuter_checkFree _).bind fun free => ?_
    cases free
    · exact ih
    · refine (keepsOuter_read _).bind fun type => ?_
      exact (keepsOuter_declare _ _).bind fun _ => ih

theorem keepsOuter_declareVariables (groups : List (Located Group)) :
    (declareVariables groups).KeepsOuter := by
  induction groups with
  | nil => exact keepsOuter_pure ()
  | cons group groups ih =>
    refine (keepsOuter_read _).bind fun type => ?_
    rw [declareNames_eq_declareParams]
    exact (keepsOuter_declareParams _).bind fun _ => ih

theorem keepsOuter_checkParams (params : List (Located Parameter)) :
    (checkParams params).KeepsOuter := by
  induction params with
  | nil => exact keepsOuter_pure []
  | cons param params ih =>
    refine (keepsOuter_read _).bind fun type => ?_
    exact ih.bind fun others => keepsOuter_pure _

/-- What is done inside a procedure keeps the frames below, if that is so for its procedures. -/
theorem keepsOuter_inside (name : String) (symbol : Symbol) (args : List (Located String × Ty))
    (types : List (Located Alias)) (vars : List (Located Group))
    {procedures : List (Located Procedure)} (body : List Statement)
    (h : (Procedure.checkAll procedures).KeepsOuter) :
    KeepsOuter (do
      ScopeM.declare name symbol
      declareParams args
      declareTypes types
      declareVariables vars
      Procedure.checkAll procedures
      ScopeM.read fun s => Statement.checkAll s body) := by
  refine (keepsOuter_declare name symbol).bind fun _ => ?_
  refine (keepsOuter_declareParams args).bind fun _ => ?_
  refine (keepsOuter_declareTypes types).bind fun _ => ?_
  refine (keepsOuter_declareVariables vars).bind fun _ => ?_
  exact h.bind fun _ => keepsOuter_read _

mutual

/-- A procedure is declared in the innermost frame, and checked in one of its own. -/
theorem Procedure.keepsOuter_check (p : Position) :
    (procedure : Procedure) → (procedure.check p).KeepsOuter
  | ⟨name, params, types, vars, procedures, body⟩ => by
    rw [Procedure.check]
    refine (keepsOuter_checkParams params).bind fun args => ?_
    refine (keepsOuter_declareFree _ _).bind fun _ => ?_
    have hnested := Procedure.keepsOuter_checkAll procedures
    exact (keepsOuter_inside name _ args types vars body hnested).inFrame

theorem Procedure.keepsOuter_checkAll :
    (procedures : List (Located Procedure)) → (Procedure.checkAll procedures).KeepsOuter
  | [] => keepsOuter_pure ()
  | ⟨p, procedure⟩ :: procedures => by
    rw [Procedure.checkAll]
    exact (procedure.keepsOuter_check p).bind fun _ => Procedure.keepsOuter_checkAll procedures

end

theorem Declarations.keepsOuter_check (d : Declarations) : d.check.KeepsOuter := by
  refine (keepsOuter_declareTypes d.types).bind fun _ => ?_
  refine (keepsOuter_declareVariables d.vars).bind fun _ => ?_
  exact Procedure.keepsOuter_checkAll d.procedures

end SnlFront
