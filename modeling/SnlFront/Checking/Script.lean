import SnlFront.Checking.Declarations

/-!
# Scripts of analyses

A script runs analyses one after the other in the same scope and answers each of them. Steps may be
put inside a procedure: they run in a frame of their own that knows the procedure's name. A step
that breaks off is answered with its fault, and the next one follows.

## Main definitions

* `Analysis.Step`: an analysis, or steps inside a procedure.
* `Analysis.Answer`: what a step came to.
* `Analysis.answers`: the answers to a script.
-/

namespace SnlFront.Analysis

/-- One step of a script. -/
inductive Step (ρ : Type)
  | run (action : Analysis ρ)
  | inProcedure (name : String) (symbol : Symbol) (steps : List (Step ρ))

/-- What a step came to, and the scope after it. -/
inductive Answer (ρ : Type)
  | ran (diagnostics : List (Located Diagnostic)) (value : Except Fault ρ) (scope : Scope)
  | leftProcedure (value : Except Fault Unit) (scope : Scope)

variable {ρ : Type}

/-- Run an analysis and answer it. -/
def answer (action : Analysis ρ) : ScopeM (Answer ρ) Unit :=
  ⟨fun s =>
    let after := action.run s
    (after.1, ⟨[.ran after.2.log after.2.value after.1], .ok ()⟩)⟩

/-- Answer the steps inside a procedure after they have been run. -/
def answerProcedure (inside : ScopeM (Answer ρ) Unit) : ScopeM (Answer ρ) Unit :=
  ⟨fun s =>
    let after := inside.run s
    (after.1, ⟨after.2.log ++ [.leftProcedure after.2.value after.1], .ok ()⟩)⟩

mutual

/-- Carry out a step. -/
def Step.carryOut : Step ρ → ScopeM (Answer ρ) Unit
  | .run action => answer action
  | .inProcedure name symbol steps =>
    answerProcedure <| ScopeM.inFrame do
      ScopeM.declare name symbol
      Step.carryOutAll steps

/-- Carry out steps one after the other. -/
def Step.carryOutAll : List (Step ρ) → ScopeM (Answer ρ) Unit
  | [] => pure ()
  | step :: steps => do
    step.carryOut
    Step.carryOutAll steps

end

/-- The answers to a script that starts in an empty scope. -/
def answers (script : List (Step ρ)) : List (Answer ρ) :=
  ((Step.carryOutAll script).run .empty).2.log

end SnlFront.Analysis
