import Mathlib.Logic.Equiv.Basic
import SnlFront.Proofs.Checking.Stops
import SnlFront.Proofs.Correspondence.Checking

/-!
# Programs with other names

Names mean nothing by themselves. If every name of a program gets another one, and different names
stay different, the same things are wrong with it at the same places. The diagnostics show the new
names: the one they are about, and the names of fields in the types they show. Records list their
fields by name, so the fields stand in another order there.

## Main definitions

* `Diagnostic.rename`: a diagnostic with other names.

## Main statements

* `Program.analyze_relabel_ofNames`: the diagnostics of a program with other names are the
  diagnostics of the program, with other names.
-/

namespace SnlFront

/-- A detail with other names: types get other field names, words and numbers stay. -/
def Diagnostic.Detail.rename (r : String → String) : Diagnostic.Detail → Diagnostic.Detail
  | .type τ => .type (τ.rename r)
  | .word w => .word w
  | .count n => .count n

/-- A diagnostic of the same kind with other names. -/
def Diagnostic.rename (r : String → String) (d : Diagnostic) : Diagnostic :=
  ⟨d.kind, d.name.map r, d.expected.map (Detail.rename r), d.got.map (Detail.rename r)⟩

variable {r : String → String}

/-- If names are exchanged, corresponding reports are at the same position and differ in names. -/
theorem Correspondence.eq_rename_of_renamed (hr : Function.Injective r)
    {d d' : Located Diagnostic} (h : (renamed hr).Reports d d') :
    d' = d.map (Diagnostic.rename r) := by
  have hdetails : ∀ e e', (renamed hr).Details e e' → e' = e.rename r := by
    intro e e' he
    cases he with
    | ofType h => exact congrArg Diagnostic.Detail.type h.2
    | ofWord | ofCount => rfl
  exact h.eq_of_details hdetails

/-- A program without holes is analyzed to the end, and so is the program with other names. What is
reported there is what is reported for the program, one by one, with other names. -/
theorem Program.analyze_relabel_ofNames (hr : Function.Injective r) (p : Program)
    (hp : p.holeFree = true) :
    ∃ ds, p.analyze = .ok ds ∧
      (p.relabel (.ofNames r)).analyze = .ok (ds.map (Located.map (Diagnostic.rename r))) := by
  obtain ⟨ds, hds⟩ := Program.analyze_ends (Program.not_unfinished hp)
  refine ⟨ds, hds, ?_⟩
  rw [p.analyze_relabel fun _ _ h => Correspondence.eq_rename_of_renamed hr h, hds]
  rfl

/-- A number is assigned to a record with the fields `a` and `b`. -/
def recordAssignment : Program where
  name := "p"
  declarations := ⟨[], [⟨⟨2, 5⟩, ⟨⟨2, 5⟩, .record [⟨⟨⟨2, 12⟩, .integer⟩, [⟨⟨2, 20⟩, "a"⟩]⟩,
    ⟨⟨⟨2, 23⟩, .char⟩, [⟨⟨2, 28⟩, "b"⟩]⟩]⟩, [⟨⟨2, 35⟩, "q"⟩]⟩], []⟩
  body := [.assign (.whole ⟨⟨4, 3⟩, "q"⟩)
    (.last ⟨⟨4, 8⟩, .last ⟨⟨4, 8⟩, .constant 1⟩ none⟩ none)]

theorem recordAssignment_analyze_swap :
    let r : String → String := Equiv.swap "a" "b"
    Function.Injective r ∧ recordAssignment.holeFree = true ∧
      recordAssignment.analyze = .ok [⟨⟨4, 3⟩,
        .assignmentMismatch (.record [("a", .integer), ("b", .char)]) .integer⟩] ∧
      (recordAssignment.relabel (.ofNames r)).analyze = .ok [⟨⟨4, 3⟩,
        .assignmentMismatch (.record [("a", .char), ("b", .integer)]) .integer⟩] := by
  intro r
  have hr : Function.Injective r := (Equiv.swap "a" "b").injective
  have hanalyze : recordAssignment.analyze = .ok [⟨⟨4, 3⟩,
      .assignmentMismatch (.record [("a", .integer), ("b", .char)]) .integer⟩] := by decide
  obtain ⟨ds, hds, hrenamed⟩ := Program.analyze_relabel_ofNames hr recordAssignment rfl
  obtain rfl := Except.ok.inj (hanalyze.symm.trans hds)
  refine ⟨hr, rfl, hanalyze, hrenamed.trans ?_⟩
  decide

end SnlFront
