import Mathlib.Data.List.Nodup
import SnlFront.Proofs.Grammar.Anchors
import SnlFront.Proofs.Grammar.Segments
import SnlFront.Proofs.Ty.Readability

/-!
# The tokens of a text

The tokens of a text stand one behind the other, so no two of them have the same position, and those
that are identifiers are words of letters and digits. The program that a text is read as is derived
from some of its tokens, also if others were refused before them.

## Main definitions

* `Position.Before`: one position comes before another.

## Main statements

* `listTokens_pairwise`: each token stands before those that follow it.
* `isIdentifier_of_mem_listTokens`: identifiers are words.
* `readProgram_anchored`: the program of a text is anchored in its tokens.
-/

namespace SnlFront

open Parsing

/-! ## Positions -/

namespace Position

/-- One position comes before another, in an earlier line or in the same line. -/
def Before (p q : Position) : Prop := p.line < q.line ∨ p.line = q.line ∧ p.column < q.column

theorem Before.trans {p q r : Position} (hpq : p.Before q) (hqr : q.Before r) : p.Before r := by
  simp only [Before] at *
  omega

theorem Before.ne {p q : Position} (h : p.Before q) : p ≠ q := by
  rintro rfl
  simp [Before] at h

theorem before_step (p : Position) (c : Char) : p.Before (p.step c) := by
  unfold step
  split
  · exact .inl (Int.lt_add_one_of_le le_rfl)
  · exact .inr ⟨rfl, Int.lt_add_one_of_le le_rfl⟩

theorem before_advance (p : Position) {cs : List Char} (h : cs ≠ []) :
    p.Before (p.advance cs) := by
  induction cs generalizing p with
  | nil => exact absurd rfl h
  | cons c cs ih =>
    cases cs with
    | nil => exact p.before_step c
    | cons d cs => exact (p.before_step c).trans (ih _ (List.cons_ne_nil _ _))

end Position

/-! ## Lexemes -/

theorem chars_ne_nil_of_mem_lexemes {cs : List Char} {x : Lexeme} (h : x ∈ lexemes cs) :
    x.chars ≠ [] := by
  fun_induction lexemes cs with
  | case1 => cases h
  | case2 c cs next ih =>
    rcases List.mem_cons.1 h with rfl | h
    · exact Lexeme.chars_first_ne_nil c cs
    · exact ih h

/-- A word at the front of a text begins with a letter. -/
theorem Lexeme.isIdentifier_of_first {c : Char} {cs letters : List Char}
    (h : (first c cs).1 = .word letters) : isIdentifier (String.ofList letters) = true := by
  unfold first at h
  repeat' split at h
  all_goals cases h
  -- Of all kinds of lexemes only one is a word.
  next hletter =>
    have hothers : (cs.takeWhile inWord).all Char.isAlphanum = true := List.all_takeWhile
    simp [isIdentifier, hletter, hothers]

theorem isIdentifier_of_mem_lexemes {cs letters : List Char} (h : .word letters ∈ lexemes cs) :
    isIdentifier (String.ofList letters) = true := by
  fun_induction lexemes cs with
  | case1 => cases h
  | case2 c cs next ih =>
    rcases List.mem_cons.1 h with hfirst | h
    · exact Lexeme.isIdentifier_of_first hfirst.symm
    · exact ih h

/-- Only words stand for identifiers. -/
theorem Lexeme.eq_word_of_meaning {x : Lexeme} {name : String}
    (h : x.meaning = .token (.ident name)) :
    ∃ letters, x = .word letters ∧ String.ofList letters = name := by
  cases x with
  | word letters =>
    have hword : Token.ofWord (String.ofList letters) = .ident name := by
      simpa [Lexeme.meaning] using h
    unfold Token.ofWord at hword
    split at hword
    · cases hword
    · exact ⟨letters, rfl, by simpa using hword⟩
  | digits figures =>
    rw [Lexeme.meaning] at h
    split at h <;> cases h
  | blank | newlines | comment | mark | illegal => cases h

theorem eq_or_before_of_mem_locate {p : Position} {xs : List Lexeme} {x : Located Lexeme}
    (hxs : ∀ y ∈ xs, y.chars ≠ []) (h : x ∈ locate p xs) : x.pos = p ∨ p.Before x.pos := by
  induction xs generalizing p with
  | nil => cases h
  | cons y xs ih =>
    rcases List.mem_cons.1 h with rfl | h
    · exact .inl rfl
    · have hnext := p.before_advance (hxs y List.mem_cons_self)
      rcases ih (fun z hz => hxs z (List.mem_cons_of_mem _ hz)) h with hpos | hpos
      · exact .inr (hpos ▸ hnext)
      · exact .inr (hnext.trans hpos)

/-- Each lexeme stands before those that follow it. -/
theorem locate_pairwise (p : Position) {xs : List Lexeme} (hxs : ∀ y ∈ xs, y.chars ≠ []) :
    (locate p xs).Pairwise fun x y => x.pos.Before y.pos := by
  induction xs generalizing p with
  | nil => exact .nil
  | cons x xs ih =>
    have hothers := fun y hy => hxs y (List.mem_cons_of_mem _ hy)
    refine List.pairwise_cons.2 ⟨fun y hy => ?_, ih _ hothers⟩
    have hnext := p.before_advance (hxs x List.mem_cons_self)
    rcases eq_or_before_of_mem_locate hothers hy with hpos | hpos
    · exact hpos ▸ hnext
    · exact hnext.trans hpos

theorem value_mem_of_mem_locate {p : Position} {xs : List Lexeme} {x : Located Lexeme}
    (h : x ∈ locate p xs) : x.value ∈ xs := by
  induction xs generalizing p with
  | nil => cases h
  | cons y xs ih =>
    rcases List.mem_cons.1 h with rfl | h
    · exact List.mem_cons_self
    · exact List.mem_cons_of_mem _ (ih h)

/-! ## Tokens -/

/-- The tokens that are listed are found among the meanings, in their order. -/
theorem Listing.tokens_sublist (xs : List (Located Meaning)) :
    ((Listing.ofMeanings none xs).tokens.map (·.map Meaning.token)).Sublist xs := by
  induction xs with
  | nil => exact .slnil
  | cons x xs ih =>
    obtain ⟨p, meaning⟩ := x
    cases meaning with
    | layout => exact ih.cons _
    | illegal c => exact ih.cons _
    | overlong digits => exact List.nil_sublist _
    | token t => exact ih.cons_cons _

variable {text : String}

/-- What is read of a text is read in the order of the positions. -/
theorem meanings_pairwise (cs : List Char) :
    (meanings cs).Pairwise fun x y => x.pos.Before y.pos := by
  have hlexemes : (scan cs).Pairwise fun x y => x.pos.Before y.pos :=
    locate_pairwise _ fun _ => chars_ne_nil_of_mem_lexemes
  exact List.pairwise_map.2 hlexemes

/-- Each token of a text stands before those that follow it. -/
theorem listTokens_pairwise (text : String) :
    (listTokens text none).tokens.Pairwise fun t u => t.pos.Before u.pos := by
  have htokens := (meanings_pairwise text.toList).sublist (Listing.tokens_sublist _)
  rw [List.pairwise_map] at htokens
  exact htokens

/-- No two tokens of a text have the same position. -/
theorem eq_of_pos_eq {t u : Located Token} (ht : t ∈ (listTokens text none).tokens)
    (hu : u ∈ (listTokens text none).tokens) (h : t.pos = u.pos) : t = u := by
  have hnodup : ((listTokens text none).tokens.map Located.pos).Nodup :=
    List.pairwise_map.2 ((listTokens_pairwise text).imp Position.Before.ne)
  exact List.inj_on_of_nodup_map hnodup ht hu h

/-- A token of a text comes from a lexeme. -/
theorem exists_lexeme_of_mem_listTokens {t : Located Token}
    (ht : t ∈ (listTokens text none).tokens) :
    ∃ x ∈ lexemes text.toList, x.meaning = .token t.value := by
  have hmeaning := (Listing.tokens_sublist _).subset (List.mem_map_of_mem ht)
  obtain ⟨x, hx, heq⟩ := List.mem_map.1 hmeaning
  exact ⟨x.value, value_mem_of_mem_locate hx, congrArg Located.value heq⟩

/-- The identifiers of a text are words of letters and digits. -/
theorem isIdentifier_of_mem_listTokens {t : Located Token} {name : String}
    (ht : t ∈ (listTokens text none).tokens) (hname : t.value = .ident name) :
    isIdentifier name = true := by
  obtain ⟨x, hx, hmeaning⟩ := exists_lexeme_of_mem_listTokens ht
  rw [hname] at hmeaning
  obtain ⟨letters, rfl, rfl⟩ := Lexeme.eq_word_of_meaning hmeaning
  exact isIdentifier_of_mem_lexemes hx

/-! ## Programs -/

/-- A text that is read to the end has no number that is too long. -/
theorem Listing.broken_of_program {xs : List (Located Meaning)} {r : Reader}
    {program : Option (Located Program)} (h : (Reading.ofMeanings r xs).program = .ok program) :
    (Listing.ofMeanings none xs).broken = none := by
  induction xs generalizing r with
  | nil => rfl
  | cons x xs ih =>
    obtain ⟨p, meaning⟩ := x
    cases meaning with
    | layout => exact ih (r := r) h
    | illegal c => exact ih (r := r) h
    | overlong digits => cases h
    | token t => exact ih (r := (r.push ⟨p, t⟩).1) h

/-- The program that a row of tokens is read as is derived from its last segment. -/
theorem exists_derivesProgram_of_readTokens {ts : Tokens} {p : Located Program}
    (h : (readTokens ts).program = .ok (some p)) : ∃ us ⊆ ts, DerivesProgram us p := by
  obtain ⟨d, hd⟩ := Segments.exists_cuts ts
  by_cases hlast : ∃ q, DerivesProgram d.last q
  · obtain ⟨q, hq⟩ := hlast
    rw [hd.readTokens_of_program hq] at h
    cases h
    refine ⟨d.last, ?_, hq⟩
    rw [← hd.tokens_eq]
    exact List.subset_append_right _ _
  · rw [hd.readTokens_of_front hlast] at h
    cases h

/-- The program of a text is anchored in the tokens of the text. -/
theorem readProgram_anchored {p : Located Program}
    (h : (readProgram text).program = .ok (some p)) :
    p.value.Anchored (listTokens text none).tokens := by
  have hbroken : (listTokens text none).broken = none := Listing.broken_of_program h
  rw [(readProgram_of_listTokens text hbroken).1] at h
  obtain ⟨us, hus, hderives⟩ := exists_derivesProgram_of_readTokens h
  exact hderives.anchored hus

end SnlFront
