import SnlFront.Proofs.Correspondence.Checking
import SnlFront.Proofs.Grammar.Relabeling
import SnlFront.Proofs.Source.Reports

/-!
# Layout does not matter

Two texts may have the same tokens and yet look different: blanks, line breaks and comments may be
set in other ways, and illegal characters may stand elsewhere. Then the tokens of the texts stand at
different positions, one by one, and this is all that tells the results apart: the trees, the
refused tokens and the reports.

## Main definitions

* `exchange`: the positions of one row of tokens in place of those of another row.

## Main statements

* `map_move_exchange`: the exchange leads from one row of tokens to the other.
* `readProgram_of_same_tokens`: texts with the same tokens have the same programs, syntax errors and
  reports, at exchanged positions.
-/

namespace SnlFront

open Parsing

/-! ## The exchange of positions -/

/-- The position of a token in the second row, for the position of the token with the same number in
the first row. Other positions stay. -/
def exchange (ts us : Tokens) (p : Position) : Position :=
  (((ts.map Located.pos).zip (us.map Located.pos)).lookup p).getD p

theorem exchange_cons_self (t u : Located Token) (ts us : Tokens) :
    exchange (t :: ts) (u :: us) t.pos = u.pos := by
  simp [exchange]

theorem exchange_cons_of_ne {t : Located Token} {p : Position} (h : p ≠ t.pos) (u : Located Token)
    (ts us : Tokens) : exchange (t :: ts) (u :: us) p = exchange ts us p := by
  have miss : (p == t.pos) = false := by simpa using h
  simp [exchange, List.lookup_cons, miss]

/-- The exchange leads from one row of tokens to the other, if the positions in the first row are
distinct. -/
theorem map_move_exchange {ts us : Tokens} (hpositions : (ts.map Located.pos).Nodup)
    (hvalues : ts.map Located.value = us.map Located.value) :
    ts.map (Located.move (exchange ts us)) = us := by
  induction ts generalizing us with
  | nil =>
    rw [List.map_nil, eq_comm, List.map_eq_nil_iff] at hvalues
    rw [hvalues, List.map_nil]
  | cons t ts ih =>
    cases us with
    | nil => cases hvalues
    | cons u us =>
      obtain ⟨hvalue, hothers⟩ := List.cons.inj hvalues
      obtain ⟨hfirst, hdistinct⟩ := List.nodup_cons.1 hpositions
      -- The other tokens stand elsewhere, so the first entry is not the one they are looked up by.
      have hsame : ts.map (Located.move (exchange (t :: ts) (u :: us))) =
          ts.map (Located.move (exchange ts us)) := by
        refine List.map_congr_left fun other hother => ?_
        have hne : other.pos ≠ t.pos := fun heq => hfirst (heq ▸ List.mem_map_of_mem hother)
        rw [Located.move, Located.move, exchange_cons_of_ne hne]
      rw [List.map_cons, hsame, ih hdistinct hothers, Located.move, exchange_cons_self, hvalue]

/-! ## Texts -/

/-- If names stay as they are, a token is only moved. -/
theorem Token.relabelAt_ofPlaces (f : Position → Position) :
    Token.relabelAt (.ofPlaces f) = Located.move f := by
  funext t
  obtain ⟨p, token⟩ := t
  cases token <;> rfl

/-- A row of tokens is always read to its end. -/
theorem Parsing.Reader.program_readAll (r : Reader) (ts : Tokens) :
    ∃ program, (r.readAll ts).program = .ok program := by
  induction ts generalizing r with
  | nil => exact ⟨r.finish.1, rfl⟩
  | cons t ts ih => exact ih (r.push t).1

/-- Two texts with the same tokens, and without numbers that are too long, differ in the positions
of their tokens. The programs that are read from them differ in the same way, and so do the refused
tokens. The reports about the programs differ in the same way too: there are as many of them, in the
same order, with the same kinds, names and details. -/
theorem readProgram_of_same_tokens {text text' : String}
    (h : (listTokens text none).broken = none) (h' : (listTokens text' none).broken = none)
    (hsame : (listTokens text none).tokens.map Located.value =
      (listTokens text' none).tokens.map Located.value) :
    let f := exchange (listTokens text none).tokens (listTokens text' none).tokens
    (listTokens text none).tokens.map (Located.move f) = (listTokens text' none).tokens ∧
      (readProgram text').notices.filter Notice.isSyntax =
        ((readProgram text).notices.filter Notice.isSyntax).map (Notice.relabel (.ofPlaces f)) ∧
      ∃ program, (readProgram text).program = .ok program ∧
        (readProgram text').program =
          .ok (program.map (Located.relabel (.ofPlaces f) (Program.relabel (.ofPlaces f)))) ∧
        ∀ p, program = some p → ∃ ds, p.value.analyze = .ok ds ∧
          (p.value.relabel (.ofPlaces f)).analyze = .ok (ds.map (Located.move f)) := by
  intro f
  have hdistinct : ((listTokens text none).tokens.map Located.pos).Nodup :=
    List.pairwise_map.2 ((listTokens_pairwise text).imp Position.Before.ne)
  have htokens : (listTokens text none).tokens.map (Located.move f) =
      (listTokens text' none).tokens := map_move_exchange hdistinct hsame
  obtain ⟨hread, hnotices⟩ := readProgram_of_listTokens text h
  obtain ⟨hread', hnotices'⟩ := readProgram_of_listTokens text' h'
  have hrow : readTokens (listTokens text' none).tokens =
      (readTokens (listTokens text none).tokens).relabel (.ofPlaces f) := by
    rw [← htokens, ← Token.relabelAt_ofPlaces, readTokens_relabel]
  obtain ⟨program, hprogram⟩ := Reader.program_readAll .start (listTokens text none).tokens
  rw [← readTokens_eq_readAll] at hprogram
  refine ⟨htokens, ?_, program, hread.trans hprogram, ?_, ?_⟩
  · rw [hnotices', hnotices, hrow, Reading.relabel]
  · rw [hread', hrow, Reading.relabel, hprogram]
    rfl
  · -- A tree that was read has no holes, so that its analysis ends.
    rintro p rfl
    obtain ⟨ds, hds, -⟩ := readProgram_grounded (hread.trans hprogram)
    refine ⟨ds, hds, ?_⟩
    rw [p.value.analyze_relabel fun _ _ hd => Correspondence.eq_move_of_same hd, hds]
    rfl

/-- A program behind a stray mark, in one line. -/
def compact : String := ";program t begin read(x) end."

/-- The same program behind the same mark, in three lines. -/
def spacious : String := "; {note}\nprogram t\n  begin read( x ) end ."

theorem spacious_readProgram :
    ∃ p p', (readProgram compact).program = .ok (some p) ∧
      (readProgram spacious).program = .ok (some p') ∧
      p.value.analyze = .ok [⟨⟨1, 23⟩, .undefinedIdentifier "x"⟩] ∧
      p'.value.analyze = .ok [⟨⟨3, 15⟩, .undefinedIdentifier "x"⟩] := by
  have h : (listTokens compact none).broken = none := by with_unfolding_all rfl
  have h' : (listTokens spacious none).broken = none := by with_unfolding_all rfl
  have hsame : (listTokens compact none).tokens.map Located.value =
      (listTokens spacious none).tokens.map Located.value := by decide +kernel
  have hread : (readProgram compact).program =
      .ok (some ⟨⟨1, 2⟩, "t", ⟨[], [], []⟩, [.input ⟨⟨1, 23⟩, "x"⟩]⟩) := by with_unfolding_all rfl
  have hplace : exchange (listTokens compact none).tokens (listTokens spacious none).tokens
      ⟨1, 23⟩ = ⟨3, 15⟩ := by decide +kernel
  obtain ⟨-, -, program, hprogram, hprogram', hreports⟩ := readProgram_of_same_tokens h h' hsame
  obtain rfl := Except.ok.inj (hread.symm.trans hprogram)
  obtain ⟨ds, hds, hmoved⟩ := hreports _ rfl
  have hreport : ds = [⟨⟨1, 23⟩, .undefinedIdentifier "x"⟩] := (Except.ok.inj hds).symm
  rw [hreport, List.map_singleton, Located.move, hplace] at hmoved
  exact ⟨_, _, hread, hprogram', rfl, hmoved⟩

end SnlFront
