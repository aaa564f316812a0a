import SnlFront.Source
import SnlFront.Proofs.Grammar.Completeness.Declarations
import SnlFront.Proofs.Grammar.Soundness.Declarations

/-!
# Reading follows the grammar

A row of tokens is read without a notice exactly if the grammar derives it, and then its tree is the
tree of the derivation. So no row of tokens has two trees. A source text is read as the row of its
tokens; the illegal characters in it are noted on the way and change nothing else.

## Main definitions

* `Notice.isSyntax`: the notices about tokens, in contrast to those about characters.

## Main statements

* `accepts_iff_derives`: the programs that are accepted are those that are derived.
* `readTokens_iff_derives`: what is read without a notice.
* `readProgram_of_listTokens`: a text is read as the row of its tokens.
-/

namespace SnlFront

open Parsing

namespace Parsing

/-- The programs that are accepted are those that are derived, with the same tree. -/
theorem accepts_iff_derives {ts : Tokens} {p : Located Program} :
    State.empty.Accepts ts p ↔ DerivesProgram ts p :=
  ⟨derivesProgram_of_accepts, DerivesProgram.accepts⟩

/-- A row of tokens has at most one tree. -/
theorem DerivesProgram.unique {ts : Tokens} {p q : Located Program} (hp : DerivesProgram ts p)
    (hq : DerivesProgram ts q) : p = q := by
  have hcomplete := hp.accepts.symm.trans hq.accepts
  simpa using hcomplete

theorem State.program?_eq_some_iff {s : State} {p : Located Program} :
    s.program? = some p ↔ s = .complete p := by
  cases s <;> simp [program?]

end Parsing

/-- Read on with tokens from a state of reading. -/
def Parsing.Reader.readAll (r : Reader) (ts : Tokens) : Reading :=
  .ofMeanings r (ts.map (·.map Meaning.token))

theorem readTokens_eq_readAll (ts : Tokens) : readTokens ts = Reader.start.readAll ts := rfl

namespace Parsing.Reader

theorem readAll_nil (r : Reader) : r.readAll [] = ⟨r.finish.2, .ok r.finish.1⟩ := rfl

theorem readAll_cons (r : Reader) (t : Located Token) (ts : Tokens) :
    r.readAll (t :: ts) = ((r.push t).1.readAll ts).addNotices (r.push t).2 := rfl

/-- Once a token has been refused, a reading that was not silent has a notice. -/
theorem readAll_eq_iff {s : State} {ts : Tokens} {p : Located Program} :
    (Reader.mk s 0).readAll ts = ⟨[], .ok (some p)⟩ ↔ s.Accepts ts p := by
  induction ts generalizing s with
  | nil =>
    rw [readAll_nil, finish]
    split
    · next program hprogram =>
      have hcomplete : s = .complete program := State.program?_eq_some_iff.1 hprogram
      simp [State.Accepts, State.pushAll, hcomplete]
    · next hnone =>
      have hcomplete : s ≠ .complete p := by
        intro heq
        rw [heq] at hnone
        cases hnone
      simp [State.Accepts, State.pushAll, hcomplete]
  | cons t ts ih =>
    rw [readAll_cons, push]
    cases hs : s.push t with
    | none => simp [note, Reading.addNotices, State.Accepts, State.pushAll, hs]
    | some s' =>
      have hstep : s.Accepts (t :: ts) p ↔ s'.Accepts ts p := by
        simp [State.Accepts, State.pushAll, hs]
      rw [hstep, ← ih]
      rfl

end Parsing.Reader

/-- A row of tokens is read without a notice exactly if the grammar derives it, and its tree is that
of the derivation; there is no other tree for it. -/
theorem readTokens_iff_derives (ts : List (Located Token)) :
    (∀ t, readTokens ts = ⟨[], .ok (some t)⟩ ↔ DerivesProgram ts t) ∧
      ∀ t t', DerivesProgram ts t → DerivesProgram ts t' → t = t' := by
  constructor
  · intro t
    rw [readTokens_eq_readAll, ← accepts_iff_derives]
    exact Reader.readAll_eq_iff
  · intro t t' ht ht'
    exact ht.unique ht'

/-! ## Texts -/

/-- Whether a notice is about a token or the end of the text. -/
def Notice.isSyntax : Notice → Bool
  | .illegal _ => false
  | .unexpected _ => true
  | .unexpectedEnd => true

theorem Parsing.Reader.isSyntax_of_push (r : Reader) (t : Located Token) :
    (r.push t).2.filter Notice.isSyntax = (r.push t).2 := by
  rw [push, note]
  split
  · rfl
  · split <;> rfl

theorem Parsing.Reader.isSyntax_of_finish (r : Reader) :
    r.finish.2.filter Notice.isSyntax = r.finish.2 := by
  rw [finish, note]
  split
  · rfl
  · split <;> rfl

/-- Illegal characters take no part in the reading. -/
theorem Reading.ofMeanings_of_listing (xs : List (Located Meaning)) (r : Reader)
    (h : (Listing.ofMeanings none xs).broken = none) :
    (Reading.ofMeanings r xs).program = (r.readAll (Listing.ofMeanings none xs).tokens).program ∧
      (Reading.ofMeanings r xs).notices.filter Notice.isSyntax =
        (r.readAll (Listing.ofMeanings none xs).tokens).notices := by
  induction xs generalizing r with
  | nil => exact ⟨rfl, r.isSyntax_of_finish⟩
  | cons x xs ih =>
    obtain ⟨q, meaning⟩ := x
    cases meaning with
    | layout => exact ih r h
    | illegal c => exact ih r h
    | overlong digits => cases h
    | token t =>
      obtain ⟨hprogram, hnotices⟩ := ih (r.push ⟨q, t⟩).1 h
      refine ⟨hprogram, ?_⟩
      have hstep : (r.push ⟨q, t⟩).2.filter Notice.isSyntax = (r.push ⟨q, t⟩).2 :=
        r.isSyntax_of_push ⟨q, t⟩
      simp only [Reading.ofMeanings, Listing.ofMeanings, Listing.addToken, Reader.readAll_cons,
        Reading.addNotices, List.filter_append, hstep, Option.map_none, hnotices]

/-- A text without a number that is too long is read as the row of its tokens. -/
theorem readProgram_of_listTokens (text : String) (h : (listTokens text none).broken = none) :
    (readProgram text).program = (readTokens (listTokens text none).tokens).program ∧
      (readProgram text).notices.filter Notice.isSyntax =
        (readTokens (listTokens text none).tokens).notices :=
  Reading.ofMeanings_of_listing (meanings text.toList) .start h

end SnlFront
