import Mathlib.Data.List.Induction
import SnlFront.Backlog
import SnlFront.Proofs.Checking.Stops

/-!
# The history of a backlog

A backlog is told by what was done to it. Every operation adds what it has to say behind what was
there before, each text with its own position, and tagged with the phase that was opened last. This
goes on after a checkpoint that ends the run, since nothing is taken back. A checkpoint looks at
the whole history, and not only at what happened since the last one.

## Main definitions

* `Leaf`: a text that is entered on its own.
* `Remark.leaves`, `Backlog.Event.leaves`: what is entered by a remark and by an operation.
* `Backlog.Event.Regular`: an operation that only adds to a backlog.
* `Backlog.after`: the backlog after some operations.
* `Backlog.phaseAfter`, `Backlog.history`: the phase and the entries, read off the operations.

## Main statements

* `Backlog.exists_recorded`: what one operation does.
* `Backlog.after_recorded`: what a run of operations does.
* `Backlog.run_history`: the entries after a run, and when checkpoints and checks succeed.
-/

namespace SnlFront

/-! ## Leaves -/

/-- A text that is entered on its own, with the position it is about, if there is one. -/
structure Leaf where
  place : Option Position
  text : String

/-- The entry of a leaf. A phase with a name stands in front, and then the position. -/
def Leaf.entry (phase : Option String) (leaf : Leaf) : String :=
  let heading := match phase with
    | none => ""
    | some name => if name = "" then "" else "\x7b" ++ name ++ "\x7d \t| "
  let place := match leaf.place with
    | none => ""
    | some p => "line " ++ toString p.line ++ ", column " ++ toString p.column ++ ": "
  heading ++ place ++ leaf.text

mutual

/-- The leaves of a remark, from left to right. -/
def Remark.leaves : Remark → List Leaf
  | .text s => [⟨none, s⟩]
  | .located x => [⟨some x.pos, x.value⟩]
  | .many remarks => Remark.leavesOfAll remarks

/-- The leaves of several remarks, one after the other. -/
def Remark.leavesOfAll : List Remark → List Leaf
  | [] => []
  | remark :: remarks => remark.leaves ++ Remark.leavesOfAll remarks

end

theorem Backlog.tag_text (b : Backlog) (s : String) : b.tag s = Leaf.entry b.phase ⟨none, s⟩ := by
  obtain ⟨phase, entries⟩ := b
  cases phase with
  | none => simp [tag, Leaf.entry]
  | some name => by_cases hname : name = "" <;> simp [tag, Leaf.entry, hname]

/-- A located text is entered with its position behind the phase. -/
theorem Backlog.tag_remark (b : Backlog) (x : Located String) :
    b.tag x.remark = Leaf.entry b.phase ⟨some x.pos, x.value⟩ := by
  rw [tag_text]
  simp only [Leaf.entry, Located.remark, Position.describe, String.append_empty,
    String.append_assoc]

mutual

/-- A remark is entered leaf by leaf, with the phase in front of each. -/
theorem Remark.map_tag_texts (b : Backlog) :
    (remark : Remark) → remark.texts.map b.tag = remark.leaves.map (Leaf.entry b.phase)
  | .text s => by simp [Remark.texts, Remark.leaves, b.tag_text]
  | .located x => by simp [Remark.texts, Remark.leaves, b.tag_remark]
  | .many remarks => by
    rw [Remark.texts, Remark.leaves, Remark.map_tag_textsOfAll b remarks]

theorem Remark.map_tag_textsOfAll (b : Backlog) : (remarks : List Remark) →
    (Remark.textsOfAll remarks).map b.tag =
      (Remark.leavesOfAll remarks).map (Leaf.entry b.phase)
  | [] => by rw [Remark.textsOfAll, Remark.leavesOfAll, List.map_nil, List.map_nil]
  | remark :: remarks => by
    rw [Remark.textsOfAll, Remark.leavesOfAll, List.map_append, List.map_append,
      Remark.map_tag_texts b remark, Remark.map_tag_textsOfAll b remarks]

end

namespace Backlog

/-! ## Operations -/

namespace Event

/-- What an operation enters. A position that is given with a text is the position of the text;
given with many remarks it is dropped. Diagnostics are entered at their positions. -/
def leaves : Event → List Leaf
  | .log (.text s) place => [⟨place, s⟩]
  | .log remark _ => remark.leaves
  | .check program =>
    match program.analyze with
    | .ok ds => ds.map fun d => ⟨some d.pos, d.value.message⟩
    | .error _ => []
  | .checkpoint _ | .crash _ | .clear => []

/-- The phase that an operation opens. -/
def opens? : Event → Option (Option String)
  | .checkpoint phase => some phase
  | _ => none

/-- An operation that adds to a backlog: it does not clear it, gives no second position to a located
text, and checks no program that has a hole. -/
def Regular : Event → Prop
  | .log (.located _) place => place = none
  | .check program => program.holeFree = true
  | .clear => False
  | _ => True

end Event

/-- What an operation does to a backlog, by what it enters and opens. -/
structure Recorded (b : Backlog) (event : Event) (effect : Effect) : Prop where
  entries : effect.backlog.entries = b.entries ++ event.leaves.map (Leaf.entry b.phase)
  phase : effect.backlog.phase = event.opens?.getD b.phase
  ended : ∀ phase, event = .checkpoint phase → (effect.ended = true ↔ b.entries ≠ [])
  valid : ∀ program, event = .check program → effect.valid = some event.leaves.isEmpty

/-- A remark is entered with the position that is given for it. -/
theorem map_tag_place (b : Backlog) {remark : Remark} {place : Option Position}
    (h : (Event.log remark place).Regular) :
    (match place with | some p => remark.place p | none => remark).texts.map b.tag =
      (Event.log remark place).leaves.map (Leaf.entry b.phase) := by
  cases place with
  | none =>
    rw [Remark.map_tag_texts]
    cases remark <;> simp [Event.leaves, Remark.leaves]
  | some p =>
    rw [Remark.map_tag_texts]
    cases remark with
    | text s => simp [Event.leaves, Remark.leaves, Remark.place]
    | located x => cases h
    | many remarks => rfl

/-- Every regular operation comes to an end and does what it should. -/
theorem exists_recorded (b : Backlog) {event : Event} (h : event.Regular) :
    ∃ effect, b.apply event = .ok effect ∧ Recorded b event effect := by
  cases event with
  | log remark place =>
    refine ⟨_, rfl, ?_, rfl, nofun, nofun⟩
    exact congrArg (b.entries ++ ·) (b.map_tag_place h)
  | checkpoint phase =>
    refine ⟨_, rfl, ?_, rfl, fun _ _ => ?_, nofun⟩
    · exact (List.append_nil _).symm
    · cases hentries : b.entries <;> simp [checkpoint, openPhase, hentries]
  | crash message => exact ⟨_, rfl, (List.append_nil _).symm, rfl, nofun, nofun⟩
  | check program =>
    obtain ⟨ds, hds⟩ := Program.analyze_ends (Program.not_unfinished h)
    have hleaves : (Event.check program).leaves =
        ds.map fun d => ⟨some d.pos, d.value.message⟩ := by
      simp [Event.leaves, hds]
    refine ⟨_, by rw [apply, check, hds]; rfl, ?_, rfl, nofun, fun _ _ => ?_⟩
    · have htag : ∀ d : Located Diagnostic,
          b.tag (Diagnostic.line d) = Leaf.entry b.phase ⟨some d.pos, d.value.message⟩ :=
        fun d => b.tag_remark (d.map Diagnostic.message)
      simp only [hleaves, entries_enter, List.map_map, Function.comp_def, htag]
    · simp [hleaves]
  | clear => cases h

/-! ## Runs -/

/-- The backlog after an operation. One that breaks off leaves it as it was. -/
def next (b : Backlog) (event : Event) : Backlog :=
  match b.apply event with
  | .ok effect => effect.backlog
  | .error _ => b

/-- The backlog after some operations, of which each is carried out whatever the ones before it came
to. -/
def after (b : Backlog) (events : List Event) : Backlog := events.foldl next b

theorem after_concat (b : Backlog) (events : List Event) (event : Event) :
    b.after (events ++ [event]) = (b.after events).next event := by
  simp [after]

/-- The phase in which some operations leave a backlog: the last one that was opened. -/
def phaseAfter (events : List Event) : Option String :=
  (events.filterMap Event.opens?).getLast?.join

/-- The entries that some operations make, each tagged with the phase that the operations ahead of
it have left. -/
def history (events : List Event) : List String :=
  (events.mapIdx fun i event =>
    event.leaves.map (Leaf.entry (phaseAfter (events.take i)))).flatten

theorem phaseAfter_concat (events : List Event) (event : Event) :
    phaseAfter (events ++ [event]) = event.opens?.getD (phaseAfter events) := by
  rw [phaseAfter, List.filterMap_append, List.filterMap_cons]
  cases event.opens? with
  | none => simp [phaseAfter]
  | some phase => simp

/-- One more operation adds its leaves at the end, in the phase that it finds. -/
theorem history_concat (events : List Event) (event : Event) :
    history (events ++ [event]) =
      history events ++ event.leaves.map (Leaf.entry (phaseAfter events)) := by
  have hahead : (events.mapIdx fun i earlier =>
      earlier.leaves.map (Leaf.entry (phaseAfter ((events ++ [event]).take i)))) =
      events.mapIdx fun i earlier =>
        earlier.leaves.map (Leaf.entry (phaseAfter (events.take i))) := by
    refine List.mapIdx_eq_mapIdx_iff.2 fun i hi => ?_
    rw [List.take_append_of_le_length (Nat.le_of_lt hi)]
  rw [history, List.mapIdx_concat, hahead, List.flatten_append]
  simp [history]

/-- Nothing was entered exactly if no operation had anything to enter. -/
theorem history_eq_nil_iff (events : List Event) :
    history events = [] ↔ ∀ event ∈ events, event.leaves = [] := by
  induction events using List.reverseRecOn with
  | nil => simp [history]
  | append_singleton events event ih => simp [history_concat, ih, or_imp, forall_and]

theorem next_eq {b : Backlog} {event : Event} {effect : Effect} (h : b.apply event = .ok effect) :
    b.next event = effect.backlog := by
  rw [next, h]

/-- The entries and the phase after a run are those of its history. -/
theorem after_recorded {events : List Event} (h : ∀ event ∈ events, event.Regular) :
    (empty.after events).entries = history events ∧
      (empty.after events).phase = phaseAfter events := by
  induction events using List.reverseRecOn with
  | nil => exact ⟨rfl, rfl⟩
  | append_singleton events event ih =>
    simp only [List.forall_mem_append, List.forall_mem_singleton] at h
    obtain ⟨hentries, hphase⟩ := ih h.1
    obtain ⟨effect, happly, hrecorded⟩ := (empty.after events).exists_recorded h.2
    rw [after_concat, next_eq happly, history_concat, phaseAfter_concat, ← hentries, ← hphase]
    exact ⟨hrecorded.entries, hrecorded.phase⟩

/-- After a run of regular operations the entries are those of its history. Every operation of the
run comes to an end and only adds entries; a checkpoint ends the run exactly if an operation ahead
of it had something to enter, and a check approves of its program exactly if it entered nothing. -/
theorem run_history {events : List Event} (h : ∀ event ∈ events, event.Regular) :
    (empty.after events).entries = history events ∧
    ∀ before event later, events = before ++ event :: later →
      ∃ effect, (empty.after before).apply event = .ok effect ∧
        effect.backlog = empty.after (before ++ [event]) ∧
        (empty.after before).entries <+: effect.backlog.entries ∧
        (∀ phase, event = .checkpoint phase →
          (effect.ended = true ↔ ∃ earlier ∈ before, earlier.leaves ≠ [])) ∧
        ∀ program, event = .check program →
          ∃ answer, effect.valid = some answer ∧
            (answer = true ↔ effect.backlog.entries = (empty.after before).entries) := by
  refine ⟨(after_recorded h).1, ?_⟩
  rintro before event later rfl
  simp only [List.forall_mem_append, List.forall_mem_cons] at h
  obtain ⟨hbefore, hevent, -⟩ := h
  obtain ⟨effect, happly, hrecorded⟩ := (empty.after before).exists_recorded hevent
  refine ⟨effect, happly, ?_, ?_, fun phase hcheckpoint => ?_, fun program hcheck => ?_⟩
  · rw [after_concat, next_eq happly]
  · exact hrecorded.entries ▸ List.prefix_append _ _
  · rw [hrecorded.ended phase hcheckpoint, (after_recorded hbefore).1, ne_eq, history_eq_nil_iff]
    simp only [not_forall, exists_prop, ne_eq]
  · refine ⟨_, hrecorded.valid program hcheck, ?_⟩
    simp [hrecorded.entries]

/-- A run with nested remarks and empty lists. Its second checkpoint ends it, and a program is
checked behind that. -/
def raggedRun : List Event :=
  [.checkpoint (some "args"),
   .log (.many [.text "a", .many [], .many [.many [.located ⟨⟨1, 2⟩, "b"⟩]]]) (some ⟨9, 9⟩),
   .checkpoint (some ""),
   .log (.text "c") (some ⟨3, 4⟩),
   .checkpoint (some "semantic"),
   .check ⟨"p", ⟨[], [], []⟩, [.input ⟨⟨2, 3⟩, "x"⟩]⟩]

theorem raggedRun_history :
    (∀ event ∈ raggedRun, event.Regular) ∧
    (empty.after raggedRun).entries =
      ["\x7bargs\x7d \t| a", "\x7bargs\x7d \t| line 1, column 2: b", "line 3, column 4: c",
       "\x7bsemantic\x7d \t| line 2, column 3: undefined identifier: x"] ∧
    ∃ effect, (empty.after (raggedRun.take 2)).apply (.checkpoint (some "")) = .ok effect ∧
      effect.ended = true := by
  have hregular : ∀ event ∈ raggedRun, event.Regular := by
    simp only [raggedRun, List.forall_mem_cons, Event.Regular, true_and]
    exact ⟨rfl, nofun⟩
  obtain ⟨hentries, hrun⟩ := run_history hregular
  refine ⟨hregular, ?_, ?_⟩
  · rw [hentries]
    rfl
  · obtain ⟨effect, happly, -, -, hended, -⟩ := hrun (raggedRun.take 2) _ _ rfl
    refine ⟨effect, happly, (hended _ rfl).2 ⟨_, List.mem_cons_of_mem _ List.mem_cons_self, ?_⟩⟩
    simp [Event.leaves, Remark.leaves, Remark.leavesOfAll]

end Backlog

end SnlFront
