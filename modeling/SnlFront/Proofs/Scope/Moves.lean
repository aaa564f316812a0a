import Mathlib.Data.List.Induction
import Mathlib.Data.List.Infix
import SnlFront.Scope

/-!
# Scopes by their history

What a scope is can be told from the moves that have led to it: frames that were opened and closed,
and names that were declared. Opened and closed frames match like brackets, so it can be counted
which frames are still open after some moves, and a name stands for what was declared last among the
declarations in frames that are still open.

## Main definitions

* `Scope.Move`, `Scope.replay`: moves, and the scope they lead to.
* `Scope.ClosesAtMost`: moves that close only so many of the frames that were open ahead of them.
* `Scope.Balanced`: moves that close exactly the frames they have opened.
* `Scope.Means`: what a name stands for, read off the moves.

## Main statements

* `Scope.exists_frames_replay`: frames further out stay as they are.
* `Scope.Balanced.outer_replay`: balanced moves change the innermost frame only.
* `Scope.lookup_replay_iff`: a name stands for what the moves say.
-/

namespace SnlFront.Scope

/-- A change of a scope. -/
inductive Move
  | enter
  | leave
  | declare (name : String) (symbol : Symbol)
deriving DecidableEq

/-- Carry out a move. The only frame of a scope is not left. -/
def move (s : Scope) : Move → Scope
  | .enter => s.enter
  | .leave => s.leave?.getD s
  | .declare name symbol => s.declare name symbol

/-- Carry out moves one after the other. -/
def replay (s : Scope) (moves : List Move) : Scope := moves.foldl move s

@[simp] theorem replay_nil (s : Scope) : s.replay [] = s := rfl

@[simp] theorem replay_cons (s : Scope) (m : Move) (moves : List Move) :
    s.replay (m :: moves) = (s.move m).replay moves := rfl

@[simp] theorem replay_append (s : Scope) (moves more : List Move) :
    s.replay (moves ++ more) = (s.replay moves).replay more := by
  simp [replay]

/-! ## Frames that are closed -/

/-- For counting frames, leaving one counts once. -/
theorem count_singleton_leave :
    [Move.leave].count .leave = 1 ∧ [Move.leave].count .enter = 0 := by
  decide

/-- At no point have the moves closed more than so many of the frames that were open ahead of
them. -/
def ClosesAtMost (n : Nat) (moves : List Move) : Prop :=
  ∀ done, done <+: moves → done.count .leave ≤ n + done.count .enter

/-- The moves close none of the frames that were open ahead of them, and all that they have
opened. -/
structure Balanced (moves : List Move) : Prop where
  keeps : ClosesAtMost 0 moves
  closes : moves.count .leave = moves.count .enter

instance (n : Nat) (moves : List Move) : Decidable (ClosesAtMost n moves) :=
  decidable_of_iff (∀ done ∈ moves.inits, done.count .leave ≤ n + done.count .enter) (by
    simp [ClosesAtMost, List.mem_inits])

instance (moves : List Move) : Decidable (Balanced moves) :=
  decidable_of_iff (ClosesAtMost 0 moves ∧ moves.count .leave = moves.count .enter)
    ⟨fun h => ⟨h.1, h.2⟩, fun h => ⟨h.keeps, h.closes⟩⟩

theorem closesAtMost_nil (n : Nat) : ClosesAtMost n [] := by
  intro done hdone
  simp [List.prefix_nil.1 hdone]

/-- What holds at every point of some moves holds at every point of the first of them. -/
theorem ClosesAtMost.of_prefix {n : Nat} {moves done : List Move} (h : ClosesAtMost n moves)
    (hdone : done <+: moves) : ClosesAtMost n done :=
  fun earlier hearlier => h earlier (hearlier.trans hdone)

theorem ClosesAtMost.count_le {n : Nat} {moves : List Move} (h : ClosesAtMost n moves) :
    moves.count .leave ≤ n + moves.count .enter :=
  h moves (List.prefix_refl moves)

/-- One more move has to be counted at the end only. -/
theorem closesAtMost_concat {n : Nat} {moves : List Move} {m : Move} :
    ClosesAtMost n (moves ++ [m]) ↔
      ClosesAtMost n moves ∧
        (moves ++ [m]).count .leave ≤ n + (moves ++ [m]).count .enter := by
  constructor
  · intro h
    exact ⟨h.of_prefix (List.prefix_append _ _), h.count_le⟩
  · rintro ⟨hmoves, hall⟩ done hdone
    rcases List.prefix_concat_iff.1 hdone with rfl | hdone
    · exact hall
    · exact hmoves done hdone

theorem closesAtMost_singleton {n : Nat} {m : Move}
    (h : [m].count .leave ≤ n + [m].count .enter) : ClosesAtMost n [m] :=
  closesAtMost_concat.2 ⟨closesAtMost_nil n, h⟩

theorem ClosesAtMost.append {n k : Nat} {moves more : List Move} (h : ClosesAtMost n moves)
    (hmore : ClosesAtMost k more) (hk : k + moves.count .leave = n + moves.count .enter) :
    ClosesAtMost n (moves ++ more) := by
  induction more using List.reverseRecOn with
  | nil => simpa using h
  | append_singleton more m ih =>
    rw [← List.append_assoc, closesAtMost_concat]
    refine ⟨ih (hmore.of_prefix (List.prefix_append _ _)), ?_⟩
    have hcount := hmore.count_le
    simp only [List.count_append] at hcount ⊢
    omega

/-! ## Frames that stay -/

/-- One move changes only the frames in front of some others, if it does not close the last of
them. -/
theorem exists_frames_move {s : Scope} {own below : List Frame} (hs : s.frames = own ++ below)
    (hown : 0 < own.length) (m : Move) (hm : m = .leave → 1 < own.length) :
    ∃ own', (s.move m).frames = own' ++ below ∧
      own'.length + [m].count .leave = own.length + [m].count .enter := by
  obtain ⟨inner, outer⟩ := s
  obtain ⟨frame, own, rfl⟩ := List.exists_cons_of_length_pos hown
  obtain ⟨rfl, rfl⟩ := List.cons.inj hs
  cases m with
  | enter => exact ⟨[] :: inner :: own, rfl, rfl⟩
  | leave =>
    cases own with
    | nil => exact absurd (hm rfl) (by simp)
    | cons frame own => exact ⟨frame :: own, rfl, rfl⟩
  | declare name symbol => exact ⟨inner.put name symbol :: own, rfl, rfl⟩

/-- Moves that do not close all of some frames leave the frames behind them as they are. -/
theorem exists_frames_replay {n : Nat} {moves : List Move} (h : ClosesAtMost n moves) {s : Scope}
    {own below : List Frame} (hs : s.frames = own ++ below) (hown : own.length = n + 1) :
    ∃ own', (s.replay moves).frames = own' ++ below ∧
      own'.length + moves.count .leave = own.length + moves.count .enter := by
  induction moves using List.reverseRecOn with
  | nil => exact ⟨own, hs, rfl⟩
  | append_singleton moves m ih =>
    obtain ⟨hmoves, hcount⟩ := closesAtMost_concat.1 h
    obtain ⟨mid, hmid, hlength⟩ := ih hmoves
    have hkept := hmoves.count_le
    rw [replay_append, replay_cons, replay_nil]
    simp only [List.count_append] at hcount ⊢
    have hleave : m = .leave → 1 < mid.length := by
      rintro rfl
      have hone := count_singleton_leave
      omega
    obtain ⟨own', hframes, hlength'⟩ := exists_frames_move hmid (by omega) m hleave
    exact ⟨own', hframes, by omega⟩

/-- In a scope that has so many frames behind the innermost one, closed and opened frames can be
counted. -/
theorem length_frames_replay {s : Scope} {moves : List Move}
    (h : ClosesAtMost s.outer.length moves) :
    (s.replay moves).frames.length + moves.count .leave =
      s.frames.length + moves.count .enter := by
  have hs : s.frames = s.frames ++ [] := (List.append_nil _).symm
  obtain ⟨own, hframes, hlength⟩ := exists_frames_replay h hs rfl
  rw [hframes, List.append_nil]
  exact hlength

theorem length_frames_replay_empty {moves : List Move} (h : ClosesAtMost 0 moves) :
    (empty.replay moves).frames.length + moves.count .leave = 1 + moves.count .enter :=
  length_frames_replay h

/-- Balanced moves change the innermost frame only. -/
theorem Balanced.outer_replay {moves : List Move} (h : Balanced moves) (s : Scope) :
    (s.replay moves).outer = s.outer := by
  have hs : s.frames = [s.inner] ++ s.outer := rfl
  obtain ⟨own, hframes, hlength⟩ := exists_frames_replay h.keeps hs rfl
  have hone : own.length = 1 := by
    rw [h.closes, List.length_singleton] at hlength
    omega
  obtain ⟨frame, rfl⟩ := List.length_eq_one_iff.1 hone
  exact (List.cons.inj hframes).2

/-! ## What names stand for -/

/-- After the moves the frame in which they start is still open, and has at least `k` frames in
front of it. -/
def Covers (k : Nat) (moves : List Move) : Prop :=
  ClosesAtMost 0 moves ∧ moves.count .leave + k ≤ moves.count .enter

/-- How many frames have to be in front of a frame ahead of a move, so that there are at least `k`
after it. -/
def Move.ahead (k : Nat) : Move → Nat
  | .enter => k - 1
  | .leave => k + 1
  | .declare _ _ => k

theorem covers_zero_iff {moves : List Move} : Covers 0 moves ↔ ClosesAtMost 0 moves :=
  ⟨fun h => h.1, fun h => ⟨h, by simpa using h.count_le⟩⟩

/-- A move shifts how many frames have to be in front. -/
theorem covers_concat {k : Nat} {moves : List Move} {m : Move} :
    Covers k (moves ++ [m]) ↔ Covers (m.ahead k) moves := by
  rw [Covers, closesAtMost_concat, Covers, and_assoc]
  refine and_congr_right fun h => ?_
  have hkept := h.count_le
  rw [List.count_append, List.count_append]
  cases m with
  | enter =>
    have hone : [Move.enter].count .leave = 0 ∧ [Move.enter].count .enter = 1 := by decide
    simp only [Move.ahead]
    omega
  | leave =>
    have hone := count_singleton_leave
    simp only [Move.ahead]
    omega
  | declare name symbol =>
    have hnone : [Move.declare name symbol].count .leave = 0 ∧
        [Move.declare name symbol].count .enter = 0 := by simp
    simp only [Move.ahead]
    omega

/-- A name was declared behind some of the moves, in a frame that is still open after all of them
and has at least `k` frames in front of it. -/
def Stands (k : Nat) (moves : List Move) (name : String) (symbol : Symbol)
    (before : List Move) : Prop :=
  ∃ later, moves = before ++ .declare name symbol :: later ∧ Covers k later

theorem Stands.length_lt {k : Nat} {moves : List Move} {name : String} {symbol : Symbol}
    {before : List Move} (h : Stands k moves name symbol before) :
    before.length < moves.length := by
  obtain ⟨later, rfl, -⟩ := h
  simp

theorem not_stands_nil {k : Nat} {name : String} {symbol : Symbol} {before : List Move} :
    ¬ Stands k [] name symbol before :=
  fun h => absurd h.length_lt (by simp)

theorem stands_concat {k : Nat} {moves : List Move} {m : Move} {name : String} {symbol : Symbol}
    {before : List Move} :
    Stands k (moves ++ [m]) name symbol before ↔
      (m = .declare name symbol ∧ k = 0 ∧ before = moves) ∨
        Stands (m.ahead k) moves name symbol before := by
  constructor
  · rintro ⟨later, hmoves, hcovers⟩
    rcases List.eq_nil_or_concat later with rfl | ⟨later, m', rfl⟩
    · obtain ⟨rfl, hm⟩ := List.append_inj' hmoves rfl
      exact .inl ⟨List.singleton_inj.1 hm, by simpa [Covers] using hcovers.2, rfl⟩
    · rw [List.concat_eq_append, ← List.cons_append, ← List.append_assoc] at hmoves
      obtain ⟨rfl, hm⟩ := List.append_inj' hmoves rfl
      obtain rfl := List.singleton_inj.1 hm
      rw [List.concat_eq_append] at hcovers
      exact .inr ⟨later, rfl, covers_concat.1 hcovers⟩
  · rintro (⟨rfl, rfl, rfl⟩ | ⟨later, rfl, hcovers⟩)
    · exact ⟨[], rfl, closesAtMost_nil 0, by simp⟩
    · exact ⟨later ++ [m], by simp, covers_concat.2 hcovers⟩

/-- The last declaration of a name among those that stand. -/
def LastStands (k : Nat) (moves : List Move) (name : String) (symbol : Symbol) : Prop :=
  ∃ before, Stands k moves name symbol before ∧
    ∀ other before', Stands k moves name other before' → before'.length ≤ before.length

theorem not_lastStands_nil {k : Nat} {name : String} {symbol : Symbol} :
    ¬ LastStands k [] name symbol := by
  rintro ⟨before, hstands, -⟩
  exact not_stands_nil hstands

/-- What a name stands for in the frames behind the first `k` ones. -/
def lookupBehind (k : Nat) (s : Scope) (name : String) : Option Symbol :=
  (s.frames.drop k).findSome? (List.lookup name)

/-- A move that declares nothing for the name in the frames that count changes only which frames are
in front of them. -/
theorem lookupBehind_move {s : Scope} {name : String} {m : Move} {k : Nat}
    (hdeclare : ∀ symbol, m = .declare name symbol → k ≠ 0) (hleave : m = .leave → s.outer ≠ []) :
    lookupBehind k (s.move m) name = lookupBehind (m.ahead k) s name := by
  obtain ⟨inner, outer⟩ := s
  cases m with
  | enter => cases k <;> rfl
  | leave =>
    obtain ⟨frame, outer, rfl⟩ := List.exists_cons_of_ne_nil (hleave rfl)
    rfl
  | declare other symbol =>
    cases k with
    | zero =>
      have hne : name ≠ other := fun h => hdeclare symbol (h ▸ rfl) rfl
      simp [lookupBehind, move, declare, frames, Move.ahead, Frame.lookup_put, hne,
        List.findSome?_cons]
    | succ k => rfl

/-- A declaration of the name in the innermost frame is the last one that stands. -/
theorem lastStands_declare {moves : List Move} {name : String} {value symbol : Symbol} :
    LastStands 0 (moves ++ [.declare name value]) name symbol ↔ value = symbol := by
  have hlast : Stands 0 (moves ++ [.declare name value]) name value moves :=
    stands_concat.2 (.inl ⟨rfl, rfl, rfl⟩)
  constructor
  · rintro ⟨before, hbefore, hmax⟩
    rcases stands_concat.1 hbefore with ⟨hsame, -, -⟩ | hearlier
    · injection hsame
    · exact absurd hearlier.length_lt (Nat.not_lt.2 (hmax value moves hlast))
  · rintro rfl
    refine ⟨moves, hlast, fun other before' h => ?_⟩
    rcases stands_concat.1 h with ⟨-, -, rfl⟩ | hearlier
    · exact Nat.le_refl _
    · exact Nat.le_of_lt hearlier.length_lt

theorem lastStands_concat {k : Nat} {moves : List Move} {m : Move} {name : String}
    (h : ∀ symbol, m = .declare name symbol → k ≠ 0) {symbol : Symbol} :
    LastStands k (moves ++ [m]) name symbol ↔ LastStands (m.ahead k) moves name symbol := by
  have hstands : ∀ value before, Stands k (moves ++ [m]) name value before ↔
      Stands (m.ahead k) moves name value before := by
    intro value before
    rw [stands_concat]
    exact or_iff_right fun hnew => h value hnew.1 hnew.2.1
  simp only [LastStands, hstands]

/-- In the frames behind the first `k` ones a name stands for what was declared last in one of
them. -/
theorem lookupBehind_replay_iff {moves : List Move} (h : ClosesAtMost 0 moves) (k : Nat)
    (name : String) (symbol : Symbol) :
    lookupBehind k (empty.replay moves) name = some symbol ↔
      LastStands k moves name symbol := by
  induction moves using List.reverseRecOn generalizing k with
  | nil =>
    have hnone : lookupBehind k empty name = none := by
      cases k <;> simp [lookupBehind, empty, frames]
    rw [replay_nil, hnone]
    exact iff_of_false (Option.some_ne_none symbol).symm not_lastStands_nil
  | append_singleton moves m ih =>
    obtain ⟨hmoves, hcount⟩ := closesAtMost_concat.1 h
    rw [replay_append, replay_cons, replay_nil]
    by_cases hnew : ∃ value, m = .declare name value ∧ k = 0
    · obtain ⟨value, rfl, rfl⟩ := hnew
      have hfound : lookupBehind 0 ((empty.replay moves).declare name value) name = some value := by
        simp [lookupBehind, declare, frames, Frame.lookup_put]
      rw [lastStands_declare, move, hfound, Option.some_inj]
    · have hdeclare : ∀ value, m = .declare name value → k ≠ 0 :=
        fun value hm hk => hnew ⟨value, hm, hk⟩
      have hleave : m = .leave → (empty.replay moves).outer ≠ [] := by
        rintro rfl houter
        have hone := count_singleton_leave
        have hlength := length_frames_replay_empty hmoves
        rw [frames, houter, List.length_singleton] at hlength
        rw [List.count_append, List.count_append] at hcount
        omega
      rw [lookupBehind_move hdeclare hleave, lastStands_concat hdeclare, ih hmoves]

/-- What a name stands for, read off the moves: it was declared in a frame that is still open, and
wherever else it was declared in such a frame, that frame is further out, or is the same and it was
done earlier. -/
def Means (moves : List Move) (name : String) (symbol : Symbol) : Prop :=
  ∃ before later, moves = before ++ .declare name symbol :: later ∧ ClosesAtMost 0 later ∧
    ∀ before' other later', moves = before' ++ .declare name other :: later' →
      ClosesAtMost 0 later' →
      (empty.replay before').frames.length < (empty.replay before).frames.length ∨
        (empty.replay before').frames.length = (empty.replay before).frames.length ∧
          before'.length ≤ before.length

/-- Where a frame stays open, later frames are further in. -/
theorem length_frames_le {moves before before' later : List Move} {name : String}
    {symbol : Symbol} (h : ClosesAtMost 0 moves)
    (hmoves : moves = before' ++ .declare name symbol :: later) (hlater : ClosesAtMost 0 later)
    (hbefore : before <+: moves) (hlength : before'.length ≤ before.length) :
    (empty.replay before').frames.length ≤ (empty.replay before).frames.length := by
  have hprefix : before' <+: moves := ⟨_, hmoves.symm⟩
  obtain ⟨mid, rfl⟩ := List.prefix_of_prefix_length_le hprefix hbefore hlength
  have hmid : mid.count .leave ≤ mid.count .enter := by
    rw [hmoves, List.prefix_append_right_inj] at hbefore
    cases mid with
    | nil => simp
    | cons m mid =>
      obtain ⟨rfl, hmid⟩ := List.cons_prefix_cons.1 hbefore
      simpa using hlater mid hmid
  have hinner := length_frames_replay_empty (h.of_prefix hprefix)
  have houter := length_frames_replay_empty (h.of_prefix hbefore)
  rw [List.count_append, List.count_append] at houter
  omega

/-- Among the declarations in open frames the last one is in the innermost frame that has any, since
frames are closed from the inside. -/
theorem means_iff_lastStands {moves : List Move} (h : ClosesAtMost 0 moves) (name : String)
    (symbol : Symbol) : Means moves name symbol ↔ LastStands 0 moves name symbol := by
  constructor
  · rintro ⟨before, later, hmoves, hkeeps, hmax⟩
    refine ⟨before, ⟨later, hmoves, covers_zero_iff.2 hkeeps⟩, ?_⟩
    rintro other before' ⟨later', hmoves', hcovers'⟩
    rcases hmax before' other later' hmoves' (covers_zero_iff.1 hcovers') with hheight | hsame
    · refine Nat.le_of_not_lt fun hlength => Nat.not_le.2 hheight ?_
      exact length_frames_le h hmoves hkeeps ⟨_, hmoves'.symm⟩ (Nat.le_of_lt hlength)
    · exact hsame.2
  · rintro ⟨before, ⟨later, hmoves, hcovers⟩, hmax⟩
    refine ⟨before, later, hmoves, covers_zero_iff.1 hcovers, ?_⟩
    intro before' other later' hmoves' hkeeps'
    have hlength := hmax other before' ⟨later', hmoves', covers_zero_iff.2 hkeeps'⟩
    have hle := length_frames_le h hmoves' hkeeps' ⟨_, hmoves.symm⟩ hlength
    omega

/-- After moves that start in an empty scope a name stands for what the moves say. -/
theorem lookup_replay_iff {moves : List Move} (h : ClosesAtMost 0 moves) (name : String)
    (symbol : Symbol) :
    (empty.replay moves).lookup name = some symbol ↔ Means moves name symbol := by
  rw [means_iff_lastStands h, ← lookupBehind_replay_iff h]
  rfl

end SnlFront.Scope
