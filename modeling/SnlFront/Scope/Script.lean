import SnlFront.Scope.Run

/-!
# Scripts of scope operations

A script is a list of operations on a scope that is carried out and answered step by step. A block
runs its steps in a frame of its own. A step that fails is answered like any other and the next one
follows, unless the block is strict: then the fault ends the block, whose frame is closed all the
same.

## Main definitions

* `Scope.Step`: one operation, or a block of them.
* `Scope.Answer`: what a step came to and the scope after it.
* `Scope.Step.runAll`: carry out a script.
-/

namespace SnlFront.Scope

/-- One operation of a script. Questions about the scope are given as functions of it. -/
inductive Step (ρ : Type)
  | enter
  | leave
  | declare (name : String) (symbol : Symbol)
  | ask (question : Scope → Except Fault ρ)
  | block (strict : Bool) (steps : List (Step ρ))

/-- What a step came to: the answer to a question, or a fault, and the scope after the step. -/
structure Answer (ρ : Type) where
  value : Except Fault (Option ρ)
  scope : Scope

variable {ρ : Type}

/-- Note what a computation came to. A fault is passed on only if the script is strict. -/
def answer (strict : Bool) (x : ScopeM (Answer ρ) (Option ρ)) : ScopeM (Answer ρ) Unit :=
  ⟨fun s =>
    let after := x.run s
    let log := after.2.log ++ [⟨after.2.value, after.1⟩]
    match strict, after.2.value with
    | true, .error fault => (after.1, ⟨log, .error fault⟩)
    | _, _ => (after.1, ⟨log, .ok ()⟩)⟩

mutual

/-- Carry out a step, without noting what it came to. -/
def Step.run : Step ρ → ScopeM (Answer ρ) (Option ρ)
  | .enter => do
    ScopeM.enter
    return none
  | .leave => do
    ScopeM.leave
    return none
  | .declare name symbol => do
    ScopeM.declare name symbol
    return none
  | .ask question => ScopeM.read fun s => Logged.ofExcept ((question s).map some)
  | .block strict steps => do
    ScopeM.inFrame (Step.runAll strict steps)
    return none

/-- Carry out steps one after the other and note what each came to. -/
def Step.runAll (strict : Bool) : List (Step ρ) → ScopeM (Answer ρ) Unit
  | [] => pure ()
  | step :: steps => do
    answer strict step.run
    Step.runAll strict steps

end

/-- The answers to a script that starts in an empty scope. -/
def answers (script : List (Step ρ)) : List (Answer ρ) :=
  ((Step.runAll false script).run .empty).2.log

end SnlFront.Scope
