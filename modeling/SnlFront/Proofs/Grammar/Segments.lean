import Mathlib.Logic.ExistsUnique
import SnlFront.Proofs.Grammar.Viability

/-!
# The law of recovery

Every row of tokens falls in one way into segments, each but the last with a refused token behind
it: a segment is the front of a program, and with the refused token it no longer is. Reading starts
over behind each refused token, so the last segment decides what program is found. The first refused
token is noted; any other one, and the end of the text if the last segment is no program, is noted
if its segment has at least three tokens. A text without a refused token is never silent about its
end.

## Main definitions

* `Segments`: the segments of a row of tokens, with the tokens refused behind them.
* `Segments.Cuts`: they are the segments of this row.
* `Segments.errors`, `Segments.endNotice`: what is noted.

## Main statements

* `Segments.exists_cuts`, `Segments.Cuts.unique`: a row of tokens has segments, and only one way.
* `readTokens_segments`: what reading makes of the segments.
-/

namespace SnlFront

open Parsing

namespace Parsing

/-! ## Segments -/

/-- Segments of a row of tokens: those at the end of which a token was refused, each with that
token, and the last one. -/
structure Segments where
  failed : List (Tokens × Located Token)
  last : Tokens

namespace Segments

/-- All tokens of some segments, in their order. -/
def tokens (d : Segments) : Tokens := d.failed.flatMap (fun f => f.1 ++ [f.2]) ++ d.last

/-- Segments are those of a row of tokens: each is the front of a program, and is not so any more
together with the token refused behind it. -/
structure Cuts (d : Segments) (ts : Tokens) : Prop where
  tokens_eq : d.tokens = ts
  viable : ∀ f ∈ d.failed, Viable f.1
  refused : ∀ f ∈ d.failed, ¬ Viable (f.1 ++ [f.2])
  last_viable : Viable d.last

/-- The refused tokens that are noted: the first one, and those behind three tokens or more. -/
def errors (d : Segments) : List Notice :=
  match d.failed with
  | [] => []
  | first :: others =>
    .unexpected first.2 ::
      (others.filter fun f => 3 ≤ f.1.length).map fun f => .unexpected f.2

/-- What is noted of the end of the text if the last segment is no program. -/
def endNotice (d : Segments) : List Notice :=
  if d.failed.isEmpty ∨ 3 ≤ d.last.length then [.unexpectedEnd] else []

end Segments

theorem Viable.of_append {us vs : Tokens} (h : Viable (us ++ vs)) : Viable us := by
  obtain ⟨rest, p, hp⟩ := h
  exact ⟨vs ++ rest, p, by rwa [← List.append_assoc]⟩

/-- Tokens are read to the end, or up to one that is refused. -/
theorem State.pushAll_or_refuse (s : State) (ts : Tokens) :
    (∃ s', s.pushAll ts = some s') ∨
    ∃ us e vs s', ts = us ++ [e] ++ vs ∧ s.pushAll us = some s' ∧ s'.push e = none := by
  induction ts generalizing s with
  | nil => exact .inl ⟨s, rfl⟩
  | cons t ts ih =>
    cases hs : s.push t with
    | none => exact .inr ⟨[], t, ts, s, rfl, rfl, hs⟩
    | some s' =>
      have hpush : ∀ us, s.pushAll (t :: us) = s'.pushAll us := fun us => by
        rw [pushAll, hs, Option.bind_some]
      rcases ih s' with ⟨s'', hs''⟩ | ⟨us, e, vs, s'', hts, hus, he⟩
      · exact .inl ⟨s'', (hpush ts).trans hs''⟩
      · exact .inr ⟨t :: us, e, vs, s'', by rw [hts]; rfl, (hpush us).trans hus, he⟩

/-- A row of tokens that is no front of a program has a segment in front. -/
theorem exists_refused {ts : Tokens} (h : ¬ Viable ts) :
    ∃ us e vs, ts = us ++ [e] ++ vs ∧ Viable us ∧ ¬ Viable (us ++ [e]) := by
  rcases State.empty.pushAll_or_refuse ts with hread | ⟨us, e, vs, s, hts, hus, he⟩
  · exact absurd (viable_iff_pushAll.2 hread) h
  · refine ⟨us, e, vs, hts, viable_iff_pushAll.2 ⟨s, hus⟩, ?_⟩
    rw [viable_iff_pushAll, State.pushAll_append, hus]
    simp [State.pushAll, he]

namespace Segments

theorem Cuts.cons {d : Segments} {us vs : Tokens} {e : Located Token} (h : d.Cuts vs)
    (hus : Viable us) (he : ¬ Viable (us ++ [e])) :
    (Segments.mk ((us, e) :: d.failed) d.last).Cuts (us ++ [e] ++ vs) where
  tokens_eq := by
    rw [← h.tokens_eq]
    simp [tokens]
  viable := by
    intro f hf
    rcases List.mem_cons.1 hf with rfl | hf
    · exact hus
    · exact h.viable f hf
  refused := by
    intro f hf
    rcases List.mem_cons.1 hf with rfl | hf
    · exact he
    · exact h.refused f hf
  last_viable := h.last_viable

/-- A row of tokens has segments. -/
theorem exists_cuts (ts : Tokens) : ∃ d : Segments, d.Cuts ts := by
  by_cases h : Viable ts
  · exact ⟨⟨[], ts⟩, rfl, by simp, by simp, h⟩
  · obtain ⟨us, e, vs, hts, hus, he⟩ := exists_refused h
    have hlength : vs.length < ts.length := by
      simp only [hts, List.length_append, List.length_cons]
      omega
    obtain ⟨d, hd⟩ := exists_cuts vs
    rw [hts]
    exact ⟨_, hd.cons hus he⟩
termination_by ts.length

theorem Cuts.tail {f : Tokens × Located Token} {failed : List (Tokens × Located Token)}
    {last ts : Tokens} (h : (Segments.mk (f :: failed) last).Cuts ts) :
    ∃ vs, ts = f.1 ++ [f.2] ++ vs ∧ Viable f.1 ∧ ¬ Viable (f.1 ++ [f.2]) ∧
      (Segments.mk failed last).Cuts vs := by
  refine ⟨(Segments.mk failed last).tokens, ?_, h.viable f (by simp), h.refused f (by simp), rfl,
    fun g hg => h.viable g (by simp [hg]), fun g hg => h.refused g (by simp [hg]),
    h.last_viable⟩
  rw [← h.tokens_eq]
  simp [tokens]

/-- No front of a program goes on with a token that is refused. -/
theorem eq_nil_of_refused {us vs ws xs : Tokens} {e : Located Token} (h : [e] ++ ws = vs ++ xs)
    (hvs : Viable (us ++ vs)) (he : ¬ Viable (us ++ [e])) : vs = [] := by
  cases vs with
  | nil => rfl
  | cons t vs =>
    obtain ⟨rfl, -⟩ := List.cons.inj h
    have hviable : Viable (us ++ [e] ++ vs) := by simpa using hvs
    exact absurd hviable.of_append he

/-- A segment ends at the first token that is refused. -/
theorem eq_of_refused {us us' vs vs' : Tokens} {e e' : Located Token}
    (h : us ++ [e] ++ vs = us' ++ [e'] ++ vs') (hus : Viable us) (he : ¬ Viable (us ++ [e]))
    (hus' : Viable us') (he' : ¬ Viable (us' ++ [e'])) : us = us' ∧ e = e' ∧ vs = vs' := by
  have hsame : us = us' := by
    rw [List.append_assoc, List.append_assoc, List.append_eq_append_iff] at h
    rcases h with ⟨ws, hws, hrest⟩ | ⟨ws, hws, hrest⟩
    · rw [hws] at hus'
      rw [hws, eq_nil_of_refused hrest hus' he, List.append_nil]
    · rw [hws] at hus
      rw [hws, eq_nil_of_refused hrest hus he', List.append_nil]
  subst hsame
  simpa using h

/-- A row of tokens has segments in one way only. -/
theorem Cuts.unique {d d' : Segments} {ts : Tokens} (h : d.Cuts ts) (h' : d'.Cuts ts) :
    d = d' := by
  obtain ⟨failed, last⟩ := d
  obtain ⟨failed', last'⟩ := d'
  induction failed generalizing ts failed' with
  | nil =>
    have hlast : last = ts := h.tokens_eq
    subst hlast
    cases failed' with
    | nil =>
      have hlast' : last' = last := h'.tokens_eq
      rw [hlast']
    | cons f' failed' =>
      -- No token is refused inside a segment: the front of a segment is the front of a program too.
      obtain ⟨vs, hts, -, hrefused, -⟩ := h'.tail
      have hviable := h.last_viable
      simp only [hts] at hviable
      exact absurd hviable.of_append hrefused
  | cons f failed ih =>
    obtain ⟨vs, hts, hviable, hrefused, htail⟩ := h.tail
    cases failed' with
    | nil =>
      have hlast' : last' = ts := h'.tokens_eq
      have hviable' := h'.last_viable
      simp only [hlast', hts] at hviable'
      exact absurd hviable'.of_append hrefused
    | cons f' failed' =>
      obtain ⟨vs', hts', hviable', hrefused', htail'⟩ := h'.tail
      obtain ⟨hfirst, hsecond, rfl⟩ :=
        eq_of_refused (hts.symm.trans hts') hviable hrefused hviable' hrefused'
      have hrest := ih htail failed' htail'
      have hf : f = f' := Prod.ext hfirst hsecond
      cases hrest
      rw [hf]

/-! ## Reading segments -/

/-- The refused tokens that are noted when errors stay silent for some tokens yet. -/
def errorsFrom (silence : Nat) : List (Tokens × Located Token) → List Notice
  | [] => []
  | f :: failed =>
    (if silence ≤ f.1.length then [.unexpected f.2] else []) ++ errorsFrom 3 failed

theorem errorsFrom_three (failed : List (Tokens × Located Token)) :
    errorsFrom 3 failed =
      (failed.filter fun f => 3 ≤ f.1.length).map fun f => .unexpected f.2 := by
  induction failed with
  | nil => rfl
  | cons f failed ih =>
    rw [errorsFrom, ih]
    by_cases h : 3 ≤ f.1.length
    · simp [h]
    · simp [h]

theorem errors_eq (d : Segments) : d.errors = errorsFrom 0 d.failed := by
  obtain ⟨failed, last⟩ := d
  cases failed with
  | nil => rfl
  | cons f failed => simp [errors, errorsFrom, errorsFrom_three]

end Segments

namespace Reader

/-- Tokens that are accepted leave no notice. -/
theorem readAll_append {s s' : State} {us : Tokens} (h : s.pushAll us = some s') (silence : Nat)
    (vs : Tokens) :
    (Reader.mk s silence).readAll (us ++ vs) =
      (Reader.mk s' (silence - us.length)).readAll vs := by
  induction us generalizing s silence with
  | nil =>
    cases h
    rfl
  | cons t us ih =>
    obtain ⟨s'', hs'', hus⟩ := Option.bind_eq_some_iff.1 h
    have hlength : silence - (t :: us).length = silence - 1 - us.length := by
      simp only [List.length_cons]
      omega
    rw [List.cons_append, readAll_cons, push, hs'', hlength, ← ih hus]
    rfl

/-- A segment and the token refused behind it: reading starts over. -/
theorem readAll_refused {us : Tokens} {e : Located Token} (hus : Viable us)
    (he : ¬ Viable (us ++ [e])) (silence : Nat) (vs : Tokens) :
    (Reader.mk .empty silence).readAll (us ++ [e] ++ vs) =
      (restart.readAll vs).addNotices
        (if silence ≤ us.length then [.unexpected e] else []) := by
  obtain ⟨s, hs⟩ := viable_iff_pushAll.1 hus
  have hnone : s.push e = none := by
    cases hs' : s.push e with
    | none => rfl
    | some s' =>
      refine absurd (viable_iff_pushAll.2 ⟨s', ?_⟩) he
      rw [State.pushAll_append, hs, Option.bind_some, State.pushAll, hs']
      rfl
  rw [List.append_assoc, readAll_append hs, List.singleton_append, readAll_cons, push, hnone]
  simp [note, Nat.sub_eq_zero_iff_le]

/-- The last segment, if it is a program. -/
theorem readAll_program {us : Tokens} {p : Located Program} (h : DerivesProgram us p)
    (silence : Nat) : (Reader.mk .empty silence).readAll us = ⟨[], .ok (some p)⟩ := by
  have hread := readAll_append h.accepts silence []
  rw [List.append_nil] at hread
  rw [hread]
  rfl

/-- The last segment, if it is only the front of a program. -/
theorem readAll_front {us : Tokens} (hus : Viable us) (h : ¬ ∃ p, DerivesProgram us p)
    (silence : Nat) :
    (Reader.mk .empty silence).readAll us =
      ⟨if silence ≤ us.length then [.unexpectedEnd] else [], .ok none⟩ := by
  obtain ⟨s, hs⟩ := viable_iff_pushAll.1 hus
  have hnone : s.program? = none := by
    cases hp : s.program? with
    | none => rfl
    | some p =>
      rw [State.program?_eq_some_iff] at hp
      exact absurd ⟨p, accepts_iff_derives.1 (hs.trans (congrArg some hp))⟩ h
  have hread := readAll_append hs silence []
  rw [List.append_nil] at hread
  rw [hread, readAll_nil, finish, hnone]
  simp [note, Nat.sub_eq_zero_iff_le]

/-- Segments are read one after the other. -/
theorem readAll_segments {d : Segments} {ts : Tokens} (h : d.Cuts ts) (silence : Nat) :
    (Reader.mk .empty silence).readAll ts =
      ((Reader.mk .empty (if d.failed.isEmpty then silence else 3)).readAll d.last).addNotices
        (Segments.errorsFrom silence d.failed) := by
  obtain ⟨failed, last⟩ := d
  induction failed generalizing ts silence with
  | nil =>
    have hlast : last = ts := h.tokens_eq
    rw [hlast]
    rfl
  | cons f failed ih =>
    obtain ⟨vs, hts, hviable, hrefused, htail⟩ := h.tail
    have hrest := ih 3 htail
    rw [ite_self] at hrest
    rw [hts, readAll_refused hviable hrefused, restart, quietTokens, hrest, Segments.errorsFrom]
    simp [Reading.addNotices]

end Reader

namespace Segments

theorem Cuts.readTokens_of_program {d : Segments} {ts : Tokens} (h : d.Cuts ts)
    {p : Located Program} (hp : DerivesProgram d.last p) :
    readTokens ts = ⟨d.errors, .ok (some p)⟩ := by
  rw [readTokens_eq_readAll, Reader.start, Reader.readAll_segments h, Reader.readAll_program hp,
    errors_eq]
  simp [Reading.addNotices]

theorem Cuts.readTokens_of_front {d : Segments} {ts : Tokens} (h : d.Cuts ts)
    (hnone : ¬ ∃ p, DerivesProgram d.last p) :
    readTokens ts = ⟨d.errors ++ d.endNotice, .ok none⟩ := by
  rw [readTokens_eq_readAll, Reader.start, Reader.readAll_segments h,
    Reader.readAll_front h.last_viable hnone, errors_eq, endNotice]
  by_cases hempty : d.failed.isEmpty
  · simp [Reading.addNotices, hempty]
  · simp [Reading.addNotices, hempty]

/-- What is no program leaves a notice: of the end of the text, or of the first refused token. -/
theorem errors_append_endNotice_ne_nil (d : Segments) : d.errors ++ d.endNotice ≠ [] := by
  obtain ⟨failed, last⟩ := d
  cases failed with
  | nil => simp [endNotice]
  | cons f failed => simp [errors]

end Segments

end Parsing

/-- The law of recovery. A row of tokens has segments in exactly one way. The program that is found
is that of the last segment, if it is one. Noted are the errors of the segments and, if no program
is found, the end of the text as far as it is not silent. So there is a program or a notice, and a
program that is found without a notice is the whole row. -/
theorem readTokens_segments (ts : List (Located Token)) :
    (∃! d : Segments, d.Cuts ts) ∧
    (∀ d : Segments, d.Cuts ts →
      (∀ p, DerivesProgram d.last p → readTokens ts = ⟨d.errors, .ok (some p)⟩) ∧
      ((¬ ∃ p, DerivesProgram d.last p) →
        readTokens ts = ⟨d.errors ++ d.endNotice, .ok none⟩)) ∧
    ((readTokens ts).program = .ok none → (readTokens ts).notices ≠ []) ∧
    ∀ p, readTokens ts = ⟨[], .ok (some p)⟩ → DerivesProgram ts p := by
  obtain ⟨d, hd⟩ := Segments.exists_cuts ts
  refine ⟨⟨d, hd, fun _ h => h.unique hd⟩, ?_, ?_, ?_⟩
  · intro d hd
    exact ⟨fun p hp => hd.readTokens_of_program hp, fun hnone => hd.readTokens_of_front hnone⟩
  · intro hnone
    by_cases hp : ∃ p, DerivesProgram d.last p
    · obtain ⟨p, hp⟩ := hp
      rw [hd.readTokens_of_program hp] at hnone
      cases hnone
    · rw [hd.readTokens_of_front hp]
      exact d.errors_append_endNotice_ne_nil
  · intro p hp
    exact accepts_iff_derives.1 (Reader.readAll_eq_iff.1 hp)

-- Of two semicolons in front of a program the second falls silent; the program is found.
example :
    readTokens [⟨⟨1, 1⟩, .mark .semi⟩, ⟨⟨1, 2⟩, .mark .semi⟩, ⟨⟨2, 1⟩, .keyword .program⟩,
      ⟨⟨2, 9⟩, .ident "x"⟩, ⟨⟨3, 1⟩, .keyword .begin⟩, ⟨⟨3, 7⟩, .keyword .end⟩,
      ⟨⟨3, 10⟩, .mark .dot⟩] =
    ⟨[.unexpected ⟨⟨1, 1⟩, .mark .semi⟩], .ok (some ⟨⟨2, 1⟩, "x", ⟨[], [], []⟩, []⟩)⟩ := rfl

end SnlFront
