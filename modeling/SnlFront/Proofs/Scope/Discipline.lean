import SnlFront.Proofs.Scope.Frames
import SnlFront.Proofs.Scope.Moves
import SnlFront.Scope.Script

/-!
# Scripts keep the scope in order

A script makes moves: its steps open and close frames and declare names, and a block opens a frame,
makes the moves of its steps as far as they are carried out, and closes the frame that is then the
innermost one. Every scope that is seen on the way is the one to which the moves made so far lead.
A block whose steps have closed exactly the frames they opened therefore closes its own frame, and
leaves the scope as it was, also if a step has broken off.

## Main definitions

* `Scope.Step.moves`, `Scope.Step.movesAll`: the moves of a step and of a script.
* `Scope.Makes`: what a computation does is to make some moves.
* `Scope.Ordered`: a scope as some moves from an empty one should leave it.

## Main statements

* `Scope.Step.makes_run`, `Scope.Step.makes_runAll`: steps and scripts make their moves.
* `Scope.run_inFrame_of_balanced`: balanced moves in a frame of their own leave no trace.
* `Scope.scripts_keep_order`: what holds at every point of every script, and of blocks.
-/

namespace SnlFront.Scope

variable {ρ ω α β : Type}

/-! ## The moves of a script -/

/-- Closing the innermost frame, unless it is the only one. -/
def closing (s : Scope) : List Move := if s.outer.isEmpty then [] else [.leave]

/-- Whether a step breaks off. -/
def Step.fails (s : Scope) (step : Step ρ) : Bool :=
  match (step.run.run s).2.value with
  | .ok _ => false
  | .error _ => true

mutual

/-- The moves that a step makes. A block opens a frame, makes the moves of its steps and closes the
frame that is then the innermost one. -/
def Step.moves (s : Scope) : Step ρ → List Move
  | .enter => [.enter]
  | .leave => s.closing
  | .declare name symbol => [.declare name symbol]
  | .ask _ => []
  | .block strict steps =>
    let inside := Step.movesAll strict s.enter steps
    .enter :: (inside ++ (s.enter.replay inside).closing)

/-- The moves that steps make one after the other. In a strict script a step that breaks off is the
last one. -/
def Step.movesAll (strict : Bool) (s : Scope) : List (Step ρ) → List Move
  | [] => []
  | step :: steps =>
    let here := step.moves s
    if strict && step.fails s then here
    else here ++ Step.movesAll strict (s.replay here) steps

end

/-! ## Computations that make moves -/

/-- A computation makes some moves. Closing a frame is always possible when it is done, and every
scope that is noted is one to which some of the moves have led. -/
structure Makes (x : ScopeM (Answer ρ) α) (s : Scope) (moves : List Move) : Prop where
  scope : (x.run s).1 = s.replay moves
  possible : ClosesAtMost s.outer.length moves
  answers : ∀ a ∈ (x.run s).2.log, ∃ done, done <+: moves ∧ a.scope = s.replay done

/-- Moves that close no more frames than there are change the depth by what they open and close. -/
theorem length_outer_replay {s : Scope} {moves : List Move}
    (h : ClosesAtMost s.outer.length moves) :
    (s.replay moves).outer.length + moves.count .leave = s.outer.length + moves.count .enter := by
  have hlength := length_frames_replay h
  simp only [frames, List.length_cons] at hlength
  omega

/-- Without answers there is nothing to show about the scopes in between. -/
theorem makes_of_silent {x : ScopeM (Answer ρ) α} {s : Scope} {moves : List Move}
    (hscope : (x.run s).1 = s.replay moves) (hlog : (x.run s).2.log = [])
    (hpossible : ClosesAtMost s.outer.length moves) : Makes x s moves := by
  refine ⟨hscope, hpossible, ?_⟩
  rw [hlog]
  exact nofun

/-- After a fault no further moves are made. -/
theorem Makes.bind_of_error {x : ScopeM (Answer ρ) α} {s : Scope} {moves : List Move}
    (h : Makes x s moves) {fault : Fault} (hx : (x.run s).2.value = .error fault)
    (f : α → ScopeM (Answer ρ) β) : Makes (x >>= f) s moves := by
  have hrun : (x >>= f).run s = ((x.run s).1, ⟨(x.run s).2.log, .error fault⟩) := by
    rw [ScopeM.run_bind, hx]
  refine ⟨?_, h.possible, ?_⟩
  · rw [hrun]
    exact h.scope
  · rw [hrun]
    exact h.answers

/-- Two steps in a row make their moves in a row. -/
theorem Makes.bind_of_ok {x : ScopeM (Answer ρ) α} {s : Scope} {moves more : List Move}
    (h : Makes x s moves) {a : α} (hx : (x.run s).2.value = .ok a)
    {f : α → ScopeM (Answer ρ) β} (hf : Makes (f a) (s.replay moves) more) :
    Makes (x >>= f) s (moves ++ more) := by
  have hrun : (x >>= f).run s = (((f a).run (s.replay moves)).1,
      ⟨(x.run s).2.log ++ ((f a).run (s.replay moves)).2.log,
        ((f a).run (s.replay moves)).2.value⟩) := by
    rw [ScopeM.run_bind, hx, h.scope]
  refine ⟨?_, h.possible.append hf.possible (length_outer_replay h.possible), ?_⟩
  · rw [hrun, replay_append]
    exact hf.scope
  · rw [hrun]
    intro answer hanswer
    rcases List.mem_append.1 hanswer with hanswer | hanswer
    · obtain ⟨done, hdone, hscope⟩ := h.answers answer hanswer
      exact ⟨done, hdone.trans (List.prefix_append _ _), hscope⟩
    · obtain ⟨done, hdone, hscope⟩ := hf.answers answer hanswer
      refine ⟨moves ++ done, (List.prefix_append_right_inj moves).2 hdone, ?_⟩
      rw [replay_append]
      exact hscope

/-- A computation of which only the end matters makes the same moves. -/
theorem Makes.andReturn {x : ScopeM (Answer ρ) α} {s : Scope} {moves : List Move}
    (h : Makes x s moves) (b : β) : Makes (x >>= fun _ => return b) s moves := by
  cases hx : (x.run s).2.value with
  | error fault => exact h.bind_of_error hx _
  | ok a =>
    have hreturn : Makes (return b : ScopeM (Answer ρ) β) (s.replay moves) [] :=
      makes_of_silent rfl rfl (closesAtMost_nil _)
    simpa using h.bind_of_ok hx (f := fun _ => return b) hreturn

theorem run_answer (strict : Bool) (x : ScopeM (Answer ρ) (Option ρ)) (s : Scope) :
    (answer strict x).run s =
      ((x.run s).1, ⟨(x.run s).2.log ++ [⟨(x.run s).2.value, (x.run s).1⟩],
        if strict then (x.run s).2.value.map fun _ => () else .ok ()⟩) := by
  cases strict with
  | false => rfl
  | true => cases hx : (x.run s).2.value <;> simp [answer, hx, Except.map]

/-- What a computation came to is noted behind all its moves. -/
theorem Makes.answer {x : ScopeM (Answer ρ) (Option ρ)} {s : Scope} {moves : List Move}
    (h : Makes x s moves) (strict : Bool) : Makes (Scope.answer strict x) s moves := by
  refine ⟨?_, h.possible, ?_⟩
  · rw [run_answer]
    exact h.scope
  · rw [run_answer]
    intro a ha
    rcases List.mem_append.1 ha with ha | ha
    · exact h.answers a ha
    · obtain rfl := List.mem_singleton.1 ha
      exact ⟨moves, List.prefix_refl _, h.scope⟩

/-! ## Closing frames -/

/-- A frame is closed only if one remains. -/
theorem closesAtMost_closing (s : Scope) : ClosesAtMost s.outer.length s.closing := by
  obtain ⟨inner, outer⟩ := s
  cases outer with
  | nil => exact closesAtMost_nil 0
  | cons frame outer => exact closesAtMost_singleton (by simp)

/-- A frame can be closed exactly if it is not the only one; otherwise nothing changes. -/
theorem run_leave (s : Scope) :
    (ScopeM.leave : ScopeM ω Unit).run s =
      (s.replay s.closing,
        ⟨[], if s.frames.length = 1 then .error .outermost else .ok ()⟩) := by
  obtain ⟨inner, outer⟩ := s
  cases outer <;> rfl

/-- The frame of a block is closed on every exit. If the block has closed it itself, and only one
frame is left, that close is the fault. -/
theorem run_inFrame (x : ScopeM ω α) (s : Scope) :
    (ScopeM.inFrame x).run s =
      ((x.run s.enter).1.replay (x.run s.enter).1.closing,
        ⟨(x.run s.enter).2.log,
          if (x.run s.enter).1.frames.length = 1 then .error .outermost
          else (x.run s.enter).2.value⟩) := by
  simp only [ScopeM.inFrame]
  obtain ⟨⟨inner, outer⟩, log, value⟩ := x.run s.enter
  cases outer <;> rfl

theorem makes_leave (s : Scope) : Makes (ScopeM.leave : ScopeM (Answer ρ) Unit) s s.closing := by
  refine makes_of_silent ?_ ?_ s.closesAtMost_closing
  · rw [run_leave]
  · rw [run_leave]

/-- What is done in a frame of its own is done between opening and closing a frame. -/
theorem Makes.inFrame {x : ScopeM (Answer ρ) α} {s : Scope} {inside : List Move}
    (h : Makes x s.enter inside) :
    Makes (ScopeM.inFrame x) s (.enter :: (inside ++ (s.enter.replay inside).closing)) := by
  refine ⟨?_, ?_, ?_⟩
  · rw [run_inFrame, h.scope, replay_cons, replay_append]
    rfl
  · have hclosing := closesAtMost_closing (s.enter.replay inside)
    have hinside := h.possible.append hclosing (length_outer_replay h.possible)
    exact ClosesAtMost.append (closesAtMost_singleton (by simp)) hinside (by simp [enter, frames])
  · rw [run_inFrame]
    intro a ha
    obtain ⟨done, hdone, hscope⟩ := h.answers a ha
    refine ⟨.enter :: done, ?_, hscope⟩
    exact List.cons_prefix_cons.2 ⟨rfl, hdone.trans (List.prefix_append _ _)⟩

/-! ## Steps and scripts -/

/-- Where faults are handed on, a step that fails ends the script. -/
theorem value_answer_of_fails {strict : Bool} {step : Step ρ} {s : Scope}
    (h : (strict && step.fails s) = true) :
    ∃ fault, ((answer strict step.run).run s).2.value = .error fault := by
  obtain ⟨rfl, hfails⟩ := Bool.and_eq_true_iff.1 h
  rw [run_answer]
  cases hvalue : (step.run.run s).2.value with
  | error fault => exact ⟨fault, rfl⟩
  | ok a => simp [Step.fails, hvalue] at hfails

/-- Where faults are caught, or none occurs, the script goes on. -/
theorem value_answer_of_goesOn {strict : Bool} {step : Step ρ} {s : Scope}
    (h : (strict && step.fails s) = false) :
    ((answer strict step.run).run s).2.value = .ok () := by
  rw [run_answer]
  cases strict with
  | false => rfl
  | true =>
    cases hvalue : (step.run.run s).2.value with
    | error fault => simp [Step.fails, hvalue] at h
    | ok a => rfl

mutual

/-- A step makes its moves. -/
theorem Step.makes_run (s : Scope) : (step : Step ρ) → Makes step.run s (step.moves s)
  | .enter => by
    rw [Step.run, Step.moves]
    exact (makes_of_silent rfl rfl (closesAtMost_singleton (by simp))).andReturn none
  | .leave => by
    rw [Step.run, Step.moves]
    exact s.makes_leave.andReturn none
  | .declare name symbol => by
    rw [Step.run, Step.moves]
    exact (makes_of_silent rfl rfl (closesAtMost_singleton (by simp))).andReturn none
  | .ask question => by
    rw [Step.run, Step.moves]
    exact makes_of_silent rfl rfl (closesAtMost_nil _)
  | .block strict steps => by
    rw [Step.run, Step.moves]
    exact (Step.makes_runAll strict s.enter steps).inFrame.andReturn none

/-- A script makes its moves, as far as it is carried out. -/
theorem Step.makes_runAll (strict : Bool) (s : Scope) :
    (steps : List (Step ρ)) → Makes (Step.runAll strict steps) s (Step.movesAll strict s steps)
  | [] => by
    rw [Step.runAll, Step.movesAll]
    exact makes_of_silent rfl rfl (closesAtMost_nil _)
  | step :: steps => by
    have hstep := (Step.makes_run s step).answer strict
    rw [Step.runAll, Step.movesAll]
    cases hends : strict && step.fails s with
    | true =>
      obtain ⟨fault, hvalue⟩ := value_answer_of_fails hends
      exact hstep.bind_of_error hvalue _
    | false =>
      exact hstep.bind_of_ok (value_answer_of_goesOn hends) (Step.makes_runAll strict _ steps)

end

/-! ## Points and blocks -/

/-- How the scope should be to which some moves from an empty one have led. -/
structure Ordered (done : List Move) : Prop where
  nonempty : (empty.replay done).frames ≠ []
  height : (empty.replay done).frames.length + done.count .leave = 1 + done.count .enter
  lookup : ∀ name symbol,
    (empty.replay done).lookup name = some symbol ↔ Means done name symbol

theorem ordered_of_closesAtMost {done : List Move} (h : ClosesAtMost 0 done) : Ordered done :=
  ⟨List.cons_ne_nil _ _, length_frames_replay_empty h, lookup_replay_iff h⟩

/-- A frame is not closed exactly if it is the only one, and then the scope stays as it is. -/
structure ClosesFrames (x : ScopeM ω α) (s : Scope) : Prop where
  refuses : (x.run s).2.value = .error .outermost ↔ s.frames.length = 1
  faults : ∀ fault, (x.run s).2.value = .error fault → fault = .outermost
  keeps : s.frames.length = 1 → (x.run s).1 = s
  closes : s.frames.length ≠ 1 → (x.run s).1.frames = s.frames.tail

/-- A close takes away the innermost frame, or is refused and takes away none. -/
theorem Step.closesFrames_leave (s : Scope) : ClosesFrames (Step.leave : Step ρ).run s := by
  obtain ⟨inner, outer⟩ := s
  rw [Step.run]
  cases outer with
  | nil =>
    refine ⟨⟨fun _ => rfl, fun _ => rfl⟩, fun fault h => ?_, fun _ => rfl, fun h => absurd rfl h⟩
    exact (Except.error.inj h).symm
  | cons frame outer =>
    exact ⟨⟨nofun, by simp [frames]⟩, nofun, by simp [frames], fun _ => rfl⟩

/-- Balanced moves in a frame of their own leave no trace, and what they come to is handed on. -/
theorem run_inFrame_of_balanced {x : ScopeM ω α} {s : Scope} {inside : List Move}
    (hscope : (x.run s.enter).1 = s.enter.replay inside) (h : Balanced inside) :
    (ScopeM.inFrame x).run s = (s, (x.run s.enter).2) := by
  refine ScopeM.run_inFrame_of_outer ?_
  rw [hscope, h.outer_replay]

/-- A block makes its moves between opening and closing a frame. If those inside are balanced, the
scope is afterwards as it was, and the block breaks off exactly as its steps have done. -/
theorem Step.run_block_of_balanced {strict : Bool} {steps : List (Step ρ)} {s : Scope}
    (h : Balanced (Step.movesAll strict s.enter steps)) :
    ((Step.block strict steps).run.run s).1 = s ∧
      ((Step.block strict steps).run.run s).2.value =
        ((Step.runAll strict steps).run s.enter).2.value.map fun _ => none := by
  have hinside := run_inFrame_of_balanced (Step.makes_runAll strict s.enter steps).scope h
  rw [Step.run, ScopeM.run_bind, hinside]
  cases ((Step.runAll strict steps).run s.enter).2.value <;> exact ⟨rfl, rfl⟩

/-- Scopes are in order at every point of every run. Whatever frames are opened and closed and
whatever is declared, starting from an empty scope, there is a frame, and names stand for what was
declared last in the innermost frame that knows them; the only frame is not closed. The scopes that
are met in a script are of this kind. A body that closes the frames it opens and no other ones can
run in a frame of its own without a trace, and its fault is handed on; so can the steps of a block,
as far as they are carried out. -/
theorem scripts_keep_order :
    (∀ done, ClosesAtMost 0 done → Ordered done) ∧
    (∀ s : Scope, ClosesFrames (Step.leave : Step ρ).run s) ∧
    (∀ (strict : Bool) (script : List (Step ρ)),
      let trace := Step.movesAll strict empty script
      ClosesAtMost 0 trace ∧ (∀ done, done <+: trace → Ordered done) ∧
        ((Step.runAll strict script).run empty).1 = empty.replay trace ∧
        ∀ a ∈ ((Step.runAll strict script).run empty).2.log,
          ∃ done, done <+: trace ∧ a.scope = empty.replay done) ∧
    (∀ (x : ScopeM (Answer ρ) (Option ρ)) (s : Scope) (inside : List Move),
      (x.run s.enter).1 = s.enter.replay inside → Balanced inside →
        (ScopeM.inFrame x).run s = (s, (x.run s.enter).2)) ∧
    ∀ (strict : Bool) (steps : List (Step ρ)) (s : Scope),
      Balanced (Step.movesAll strict s.enter steps) →
        ((Step.block strict steps).run.run s).1 = s ∧
          ((Step.block strict steps).run.run s).2.value =
            ((Step.runAll strict steps).run s.enter).2.value.map fun _ => none := by
  refine ⟨fun done h => ordered_of_closesAtMost h, fun s => Step.closesFrames_leave s,
    fun strict script => ?_, fun x s inside hscope h => run_inFrame_of_balanced hscope h,
    fun strict steps s h => Step.run_block_of_balanced h⟩
  have hmakes := Step.makes_runAll strict empty script
  refine ⟨hmakes.possible, fun done hdone => ?_, hmakes.scope, hmakes.answers⟩
  exact ordered_of_closesAtMost (hmakes.possible.of_prefix hdone)

/-- A block that opens and closes a frame, and breaks off inside another block before it would close
its own frame. -/
def brokenBlock : List (Step Unit) :=
  [.enter, .declare "x" (.type .char), .leave,
   .block true [.declare "y" (.type .char), .ask fun _ => .error (.stopped "halfway")],
   .leave]

theorem brokenBlock_keeps_order :
    let s : Scope := ⟨[("x", .variable .integer)], []⟩
    Step.movesAll true s.enter brokenBlock =
        [.enter, .declare "x" (.type .char), .leave, .enter, .declare "y" (.type .char), .leave] ∧
      Balanced (Step.movesAll true s.enter brokenBlock) ∧
      ((Step.block true brokenBlock).run.run s).1 = s ∧
      ((Step.block true brokenBlock).run.run s).2.value = .error (.stopped "halfway") := by
  intro s
  have htrace : Step.movesAll true s.enter brokenBlock =
      [.enter, .declare "x" (.type .char), .leave, .enter, .declare "y" (.type .char), .leave] :=
    rfl
  have hbalanced : Balanced (Step.movesAll true s.enter brokenBlock) := by
    rw [htrace]
    decide
  obtain ⟨hscope, hvalue⟩ := scripts_keep_order.2.2.2.2 true brokenBlock s hbalanced
  exact ⟨htrace, hbalanced, hscope, hvalue.trans rfl⟩

end SnlFront.Scope
