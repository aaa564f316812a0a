import SnlFront.Proofs.Source.Verdict

/-!
# Notices in the order of the text

Reading a text takes notice of illegal characters and of tokens that continue no program. The first
are noted when they are met, the others when they are pushed, and nothing is looked at twice or kept
back. So what is noted is a part of what could be noted at the lexemes of the text, in their order,
and only the end of the text may be noted behind it.

## Main definitions

* `Notice.pos?`: where in the text a notice points to.
* `Notice.at?`: the notice that a lexeme may give rise to.

## Main statements

* `Parsing.Reader.push_sublist`, `Parsing.Reader.finish_sublist`: what one step may note.
* `Reading.notices_sublist`: what a whole reading may note.
* `readProgram_notices_in_order`: notices are complete, and in the order of the text.
-/

namespace SnlFront

open Parsing

namespace Notice

/-- Where in the text a notice points to. -/
def pos? : Notice → Option Position
  | .illegal c => some c.pos
  | .unexpected t => some t.pos
  | .unexpectedEnd => none

/-- The notice that a lexeme may give rise to, by what it stands for. -/
def at? (x : Located Meaning) : Option Notice :=
  match x.value with
  | .layout | .overlong _ => none
  | .illegal c => some (.illegal ⟨x.pos, c⟩)
  | .token t => some (.unexpected ⟨x.pos, t⟩)

end Notice

/-! ## Steps -/

namespace Parsing.Reader

theorem note_sublist (r : Reader) (n : Notice) : (r.note n).Sublist [n] := by
  rw [note]
  split
  · exact .refl _
  · exact List.nil_sublist _

/-- A token is noted at most once, and nothing else is noted when it is read. -/
theorem push_sublist (r : Reader) (t : Located Token) : (r.push t).2.Sublist [.unexpected t] := by
  rw [push]
  split
  · exact List.nil_sublist _
  · exact r.note_sublist _

/-- At the end at most one thing is noted. -/
theorem finish_sublist (r : Reader) : r.finish.2.Sublist [.unexpectedEnd] := by
  rw [finish]
  split
  · exact List.nil_sublist _
  · exact r.note_sublist _

end Parsing.Reader

/-! ## Whole readings -/

/-- What is noted is noted in the order of the lexemes, and the end of the text last. -/
theorem Reading.notices_sublist (r : Reader) (xs : List (Located Meaning)) :
    (Reading.ofMeanings r xs).notices.Sublist (xs.filterMap Notice.at? ++ [.unexpectedEnd]) := by
  induction xs generalizing r with
  | nil => exact r.finish_sublist
  | cons x xs ih =>
    obtain ⟨p, meaning⟩ := x
    cases meaning with
    | layout => exact ih r
    | illegal c => exact (ih r).cons_cons _
    | overlong digits => exact List.nil_sublist _
    | token t => exact (r.push_sublist ⟨p, t⟩).append (ih (r.push ⟨p, t⟩).1)

theorem Notice.positions_sublist (xs : List (Located Meaning)) :
    ((xs.filterMap Notice.at?).filterMap Notice.pos?).Sublist (xs.map Located.pos) := by
  induction xs with
  | nil => exact .slnil
  | cons x xs ih =>
    obtain ⟨p, meaning⟩ := x
    cases meaning with
    | layout | overlong => exact ih.cons p
    | illegal | token => exact ih.cons_cons p

theorem Notice.unexpectedEnd_notMem (xs : List (Located Meaning)) :
    .unexpectedEnd ∉ xs.filterMap Notice.at? := by
  intro hmem
  obtain ⟨⟨p, meaning⟩, -, hat⟩ := List.mem_filterMap.1 hmem
  cases meaning <;> cases hat

/-- A text without a number that is too long is read to its end. The illegal characters that are
noted are those of its listing, in the same order. All notices point to later and later positions,
but for the end of the text, which is noted at most once, and last. -/
theorem readProgram_notices_in_order (text : String) (h : (listTokens text none).broken = none) :
    (∃ program, (readProgram text).program = .ok program) ∧
    (readProgram text).notices.filter (fun notice => !notice.isSyntax) =
      (listTokens text none).notices ∧
    ∃ entries ending, (readProgram text).notices = entries ++ ending ∧
      .unexpectedEnd ∉ entries ∧
      (entries.filterMap Notice.pos?).Pairwise Position.Before ∧
      (ending = [] ∨ ending = [.unexpectedEnd]) := by
  refine ⟨readProgram_ends h, Reading.illegal_of_listing (meanings text.toList) .start h, ?_⟩
  obtain ⟨entries, ending, hnotices, hentries, hending⟩ :=
    List.sublist_append_iff.1 (Reading.notices_sublist .start (meanings text.toList))
  refine ⟨entries, ending, hnotices, ?_, ?_, ?_⟩
  · exact fun hmem => Notice.unexpectedEnd_notMem _ (hentries.subset hmem)
  · have hpositions := (hentries.filterMap Notice.pos?).trans (Notice.positions_sublist _)
    exact (List.pairwise_map.2 (meanings_pairwise text.toList)).sublist hpositions
  · exact List.sublist_singleton.1 hending

/-- Illegal characters in front of a refused mark and behind it, and a program without its end. -/
def mixedText : String := "?;@\nprogram t$ begin"

theorem mixedText_notices_in_order :
    (listTokens mixedText none).broken = none ∧
    (readProgram mixedText).notices =
      [.illegal ⟨⟨1, 1⟩, '?'⟩, .unexpected ⟨⟨1, 2⟩, .mark .semi⟩, .illegal ⟨⟨1, 3⟩, '@'⟩,
        .illegal ⟨⟨2, 10⟩, '$'⟩, .unexpectedEnd] ∧
    (readProgram mixedText).notices.filter (fun notice => !notice.isSyntax) =
      (listTokens mixedText none).notices ∧
    ∃ entries ending, (readProgram mixedText).notices = entries ++ ending ∧
      .unexpectedEnd ∉ entries ∧
      (entries.filterMap Notice.pos?).Pairwise Position.Before ∧
      (ending = [] ∨ ending = [.unexpectedEnd]) := by
  have h : (listTokens mixedText none).broken = none := by with_unfolding_all rfl
  exact ⟨h, by with_unfolding_all rfl, (readProgram_notices_in_order mixedText h).2⟩

end SnlFront
