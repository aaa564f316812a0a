import SnlFront.Proofs.Checking.Grounds
import SnlFront.Proofs.Source.Tokens

/-!
# Reports about a text

The program that is read from a text is analysed to the end, also if it was found behind refused
tokens. Every report stands at a token of the text, and at the identifier that it names if it names
one. A report that sets what was expected against what was found never shows the same text for both:
the types are not compatible, so they are not equal, and a signature tells its type.

## Main statements

* `readProgram_grounded`: reports are grounded in the tokens of the text.
* `readProgram_report_at_token`: reports stand at tokens.
* `Contrast.text_ne`: details that do not go together are written differently.
* `signature_tells`: signatures tell types apart, also in reports.
-/

namespace SnlFront

open Parsing

/-- The program of a text is analysed to the end, and all reports are grounded in its tokens. -/
theorem readProgram_grounded {text : String} {p : Located Program}
    (h : (readProgram text).program = .ok (some p)) :
    ∃ ds, p.value.analyze = .ok ds ∧ ∀ d ∈ ds, Grounded (listTokens text none).tokens d :=
  Program.grounded_analyze (readProgram_anchored h)

/-- Reports about the program of a text stand at its tokens. The token that a report with a name
stands at is the identifier of this name. -/
theorem readProgram_report_at_token {text : String} {p : Located Program}
    (h : (readProgram text).program = .ok (some p)) :
    ∃ ds, p.value.analyze = .ok ds ∧ ∀ d ∈ ds,
      (∃ t ∈ (listTokens text none).tokens, t.pos = d.pos) ∧
      ∀ name, d.value.name = some name →
        ∀ t ∈ (listTokens text none).tokens, t.pos = d.pos → t.value = .ident name := by
  obtain ⟨ds, hds, hgrounded⟩ := readProgram_grounded h
  refine ⟨ds, hds, fun d hd => ⟨(hgrounded d hd).place, ?_⟩⟩
  intro name hname t ht hpos
  have hidentifier := (hgrounded d hd).name name hname
  rw [eq_of_pos_eq ht hidentifier hpos]
  rfl

/-- A mark that no program starts with, and a program with a name that stands for nothing. -/
def strayMark : String := ";program t begin\n read(x) end."

theorem strayMark_report_at_token :
    ∃ p, (readProgram strayMark).program = .ok (some p) ∧
      p.value.analyze = .ok [⟨⟨2, 7⟩, .undefinedIdentifier "x"⟩] ∧
      (∃ t ∈ (listTokens strayMark none).tokens, t.pos = ⟨2, 7⟩) ∧
      ∀ t ∈ (listTokens strayMark none).tokens, t.pos = ⟨2, 7⟩ → t.value = .ident "x" := by
  have hread : (readProgram strayMark).program =
      .ok (some ⟨⟨1, 2⟩, "t", ⟨[], [], []⟩, [.input ⟨⟨2, 7⟩, "x"⟩]⟩) := by with_unfolding_all rfl
  obtain ⟨ds, hds, hreports⟩ := readProgram_report_at_token hread
  cases hds
  have hreport := hreports ⟨⟨2, 7⟩, .undefinedIdentifier "x"⟩ List.mem_cons_self
  exact ⟨_, hread, rfl, hreport.1, hreport.2 "x" rfl⟩

/-! ## What was expected and what was found -/

/-- The names that a text spells are identifiers. -/
theorem Ty.Formed.legible {text : String} {τ : Ty}
    (h : τ.Formed (Tokens.Spells (listTokens text none).tokens)) : τ.Legible := by
  refine h.imp fun name hspelled => ?_
  obtain ⟨p, hname⟩ := hspelled
  exact isIdentifier_of_mem_listTokens hname rfl

/-- Details that do not go together are written differently. -/
theorem Contrast.text_ne {text : String} {expected got : Option Diagnostic.Detail}
    (h : Contrast (listTokens text none).tokens expected got) :
    ∃ e g, expected = some e ∧ got = some g ∧ e.text ≠ g.text := by
  cases h with
  | @types τ σ hτ hσ hcompatible =>
    refine ⟨_, _, rfl, rfl, fun hsame => ?_⟩
    have heq : τ = σ := Ty.signature_inj hτ.legible hσ.legible hsame
    rw [heq, Ty.compatible_self] at hcompatible
    cases hcompatible
  | words hwords => exact ⟨_, _, rfl, rfl, hwords⟩

/-- Legible types with the same signature are equal. So in a report about a text what was expected
and what was found are written differently. -/
theorem signature_tells :
    (∀ a b : Ty, a.Legible → b.Legible → a.signature = b.signature → a = b) ∧
    ∀ (text : String) (p : Located Program), (readProgram text).program = .ok (some p) →
      ∃ ds, p.value.analyze = .ok ds ∧ ∀ d ∈ ds,
        d.value.kind ∈ [.assignmentMismatch, .argumentMismatch, .incompatibleType] →
        ∃ expected got, d.value.expected = some expected ∧ d.value.got = some got ∧
          expected.text ≠ got.text := by
  refine ⟨fun a b ha hb => Ty.signature_inj ha hb, fun text p h => ?_⟩
  obtain ⟨ds, hds, hgrounded⟩ := readProgram_grounded h
  refine ⟨ds, hds, fun d hd hkind => ?_⟩
  have hcontrasts : d.value.kind.contrasts = true := by
    generalize d.value.kind = kind at hkind ⊢
    revert kind
    decide
  exact ((hgrounded d hd).contrast hcontrasts).text_ne

/-- A record is assigned to a variable for records whose fields have the types the other way
round. -/
def swapped : String :=
  "program t var record integer a; char b; end r; record char a; integer b; end q; begin r:=q end."

/-- The program of `swapped`. -/
def swappedProgram : Located Program :=
  ⟨⟨1, 1⟩, "t",
    ⟨[],
      [⟨⟨1, 15⟩, ⟨⟨1, 15⟩, .record [⟨⟨⟨1, 22⟩, .integer⟩, [⟨⟨1, 30⟩, "a"⟩]⟩,
          ⟨⟨⟨1, 33⟩, .char⟩, [⟨⟨1, 38⟩, "b"⟩]⟩]⟩, [⟨⟨1, 45⟩, "r"⟩]⟩,
        ⟨⟨1, 48⟩, ⟨⟨1, 48⟩, .record [⟨⟨⟨1, 55⟩, .char⟩, [⟨⟨1, 60⟩, "a"⟩]⟩,
          ⟨⟨⟨1, 63⟩, .integer⟩, [⟨⟨1, 71⟩, "b"⟩]⟩]⟩, [⟨⟨1, 78⟩, "q"⟩]⟩],
      []⟩,
    [.assign (.whole ⟨⟨1, 87⟩, "r"⟩)
      (.last ⟨⟨1, 90⟩, .last ⟨⟨1, 90⟩, .variable (.whole ⟨⟨1, 90⟩, "q"⟩)⟩ none⟩ none)]⟩

theorem swapped_texts_ne :
    let τ : Ty := .record [("a", .integer), ("b", .char)]
    let σ : Ty := .record [("a", .char), ("b", .integer)]
    (τ.Legible ∧ σ.Legible ∧ τ.signature ≠ σ.signature) ∧
      (readProgram swapped).program = .ok (some swappedProgram) ∧
      swappedProgram.value.analyze = .ok [⟨⟨1, 87⟩, .assignmentMismatch τ σ⟩] ∧
      Diagnostic.Detail.text (.type τ) ≠ Diagnostic.Detail.text (.type σ) := by
  intro τ σ
  have hlegible : ∀ α β : Ty, α.Legible → β.Legible →
      (Ty.record [("a", α), ("b", β)]).Legible := by
    intro α β hα hβ
    have hsorted : "a" < "b" := by decide
    have ha : isIdentifier "a" = true := by decide
    have hb : isIdentifier "b" = true := by decide
    exact (Ty.formed_record_iff _).2 ⟨List.pairwise_pair.2 hsorted, by simp [ha, hb, hα, hβ]⟩
  have hτ := hlegible .integer .char Ty.formed_integer Ty.formed_char
  have hσ := hlegible .char .integer Ty.formed_char Ty.formed_integer
  have hread : (readProgram swapped).program = .ok (some swappedProgram) := by
    with_unfolding_all rfl
  obtain ⟨ds, hds, hreports⟩ := signature_tells.2 swapped swappedProgram hread
  cases hds
  obtain ⟨_, _, ⟨⟩, ⟨⟩, htexts⟩ :=
    hreports ⟨⟨1, 87⟩, .assignmentMismatch τ σ⟩ List.mem_cons_self (by decide)
  exact ⟨⟨hτ, hσ, fun h => absurd (signature_tells.1 τ σ hτ hσ h) (by decide)⟩, hread, rfl, htexts⟩

end SnlFront
