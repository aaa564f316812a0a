import SnlFront.Compile
import SnlFront.Proofs.Source.Layout

/-!
# The verdict on a text

A run of the compiler may list the tokens of the text and show the tree of the program. A text with
an illegal character is then refused at another checkpoint, but the verdict stays the same: reading
goes on to the end of the text, whatever has been refused before, so that each illegal character is
met again. The verdict is also what the last line of the output says, because nothing else that is
printed can be mistaken for it.

## Main definitions

* `Accepted`: a text that is read without a notice, as a program about which nothing is reported.
* `LastLine`: how an output ends.
* `Verdict`: how a run ends and what it prints.

## Main statements

* `Reading.illegal_of_listing`: reading takes notice of each illegal character.
* `parsePhase_of_silent`, `parsePhase_of_refused`: what comes of a text behind the listing.
* `Diagnostic.endsPlain_line`: no diagnostic can be mistaken for the verdict.
* `verdict_compile`: the verdict on a text.
* `run_verdict`: the verdict of a run.
-/

namespace SnlFront

/-! ## Illegal characters -/

/-- Reading takes notice of each illegal character, whatever the reader has refused before. -/
theorem Reading.illegal_of_listing (xs : List (Located Meaning)) (r : Parsing.Reader)
    (h : (Listing.ofMeanings none xs).broken = none) :
    (Reading.ofMeanings r xs).notices.filter (fun notice => !notice.isSyntax) =
      (Listing.ofMeanings none xs).notices := by
  have hsyntax : ∀ notices : List Notice, notices.filter Notice.isSyntax = notices →
      notices.filter (fun notice => !notice.isSyntax) = [] := by
    intro notices hall
    simpa [List.filter_eq_self, List.filter_eq_nil_iff] using hall
  induction xs generalizing r with
  | nil => exact hsyntax _ r.isSyntax_of_finish
  | cons x xs ih =>
    obtain ⟨q, meaning⟩ := x
    cases meaning with
    | layout => exact ih r h
    | illegal c =>
      have hrest := ih r h
      simp only [Reading.ofMeanings, Listing.ofMeanings, Reading.addNotices, Listing.addNotice,
        List.filter_append, hrest]
      rfl
    | overlong digits => cases h
    | token t =>
      have hrest := ih (r.push ⟨q, t⟩).1 h
      simp only [Reading.ofMeanings, Listing.ofMeanings, Reading.addNotices, Listing.addToken,
        List.filter_append, hsyntax _ (r.isSyntax_of_push ⟨q, t⟩), List.nil_append,
        Option.map_none, hrest]

/-- A text that is read without a notice has no illegal characters. -/
theorem listTokens_notices_eq_nil {text : String} (h : (listTokens text none).broken = none)
    (hsilent : (readProgram text).notices = []) : (listTokens text none).notices = [] := by
  have hillegal : (readProgram text).notices.filter (fun notice => !notice.isSyntax) =
      (listTokens text none).notices := Reading.illegal_of_listing (meanings text.toList) .start h
  rw [hsilent] at hillegal
  exact hillegal.symm

/-- A text without a number that is too long is read to its end. -/
theorem readProgram_ends {text : String} (h : (listTokens text none).broken = none) :
    ∃ program, (readProgram text).program = .ok program := by
  rw [(readProgram_of_listTokens text h).1, readTokens_eq_readAll]
  exact Parsing.Reader.program_readAll .start _

/-! ## Phases -/

/-- The lines of a listing of tokens, if there is to be one. -/
def tokenLines (tokens : Bool) (text : String) : List String :=
  if tokens then (listTokens text none).tokens.map Token.listing else []

/-- The lines that show the tree of a program, if they are to. -/
def treeLines (ast : Bool) (p : Located Program) : List String :=
  if ast then [(Program.locatedToDatum p).render] else []

/-- The lines that tell what there is to report about a program. -/
def verdictLines : List (Located Diagnostic) → List String
  | [] => ["No semantic error!"]
  | ds => ds.map Diagnostic.line

theorem unlines_append (lines others : List String) :
    unlines (lines ++ others) = unlines lines ++ unlines others := by
  simp [unlines]

namespace Backlog

/-- A phase that finds no entries goes on. -/
theorem proceed_of_nil {b : Backlog} (h : b.entries = []) (phase out : String)
    (next : Backlog → Execution) :
    b.proceed phase out next = next (b.openPhase (some phase)) := by
  simp [proceed, checkpoint, openPhase, h]

/-- A phase that finds entries ends the run. -/
theorem proceed_of_ne_nil {b : Backlog} (h : b.entries ≠ []) (phase out : String)
    (next : Backlog → Execution) :
    b.proceed phase out next =
      ⟨out, (b.openPhase (some phase)).crash "error backlog at checkpoint", .status 1⟩ := by
  simp [proceed, checkpoint, openPhase, h]

theorem entries_noteAll_eq_nil {b : Backlog} (h : b.entries = []) (notices : List Notice) :
    (b.noteAll notices).entries = [] ↔ notices = [] := by
  simp [noteAll, h]

end Backlog

section Phases

variable {text : String} {p : Located Program} {ds : List (Located Diagnostic)} {b : Backlog}

/-- The analysis prints its verdict last, and its status says whether there are diagnostics. -/
theorem analysePhase_of_ok (h : p.value.analyze = .ok ds) (out : String) :
    analysePhase p.value out =
      ⟨out ++ unlines (verdictLines ds), "", .status (if ds = [] then 0 else 1)⟩ := by
  rw [analysePhase, h]
  cases ds with
  | nil => rfl
  | cons d ds => rfl

/-- A text that is read without a notice comes to the analysis of its program. -/
theorem parsePhase_of_silent (hb : b.entries = []) (hsilent : (readProgram text).notices = [])
    (hp : (readProgram text).program = .ok (some p)) (hds : p.value.analyze = .ok ds) (ast : Bool)
    (out : String) :
    parsePhase ast text out b =
      ⟨out ++ unlines (treeLines ast p ++ verdictLines ds), "",
        .status (if ds = [] then 0 else 1)⟩ := by
  have hopened : (b.openPhase (some "parsing")).entries = [] := hb
  have hparsed := (Backlog.entries_noteAll_eq_nil hopened []).2 rfl
  have hshown : (((b.openPhase (some "parsing")).noteAll []).openPhase (some "ast")).entries = [] :=
    hparsed
  rw [parsePhase, Backlog.proceed_of_nil hb]
  simp only [hsilent, hp]
  rw [treePhase, Backlog.proceed_of_nil hparsed]
  dsimp only
  rw [Backlog.proceed_of_nil hshown, analysePhase_of_ok hds, unlines_append]
  cases ast with
  | false => simp [treeLines, unlines]
  | true => simp [treeLines, String.append_assoc]

/-- A text that is refused comes neither to its tree nor to the analysis. -/
theorem parsePhase_of_refused (hb : b.entries = [])
    (h : (readProgram text).program = .ok none ∨
      (readProgram text).notices ≠ [] ∧ ∃ p, (readProgram text).program = .ok (some p))
    (ast : Bool) (out : String) : ∃ err, parsePhase ast text out b = ⟨out, err, .status 1⟩ := by
  rw [parsePhase, Backlog.proceed_of_nil hb]
  rcases h with hnone | ⟨hnotices, p, hp⟩
  · simp only [hnone]
    exact ⟨_, rfl⟩
  · have hopened : (b.openPhase (some "parsing")).entries = [] := hb
    have hentries := mt (Backlog.entries_noteAll_eq_nil hopened _).1 hnotices
    simp only [hp]
    rw [treePhase, Backlog.proceed_of_ne_nil hentries]
    exact ⟨_, rfl⟩

/-- Where no illegal character is listed, the program is read with an empty backlog. -/
theorem compile_eq_parsePhase (h : (listTokens text none).broken = none) {tokens : Bool}
    (hlegal : tokens = true → (listTokens text none).notices = []) (ast : Bool) :
    ∃ b : Backlog, b.entries = [] ∧
      compile tokens ast text = parsePhase ast text (unlines (tokenLines tokens text)) b := by
  cases tokens with
  | false => exact ⟨⟨some "args", []⟩, rfl, rfl⟩
  | true =>
    refine ⟨Backlog.noteAll ⟨some "lexing", []⟩ (listTokens text none).notices, ?_, ?_⟩
    · exact (Backlog.entries_noteAll_eq_nil rfl _).2 (hlegal rfl)
    · rw [compile, if_pos rfl, tokenPhase, Backlog.proceed_of_nil rfl]
      simp only [h]
      rfl

/-- Where illegal characters are listed, the run ends before the program is read. -/
theorem compile_of_illegal (h : (listTokens text none).broken = none)
    (hillegal : (listTokens text none).notices ≠ []) (ast : Bool) :
    compile true ast text =
      ⟨unlines (tokenLines true text),
        ((Backlog.noteAll ⟨some "lexing", []⟩ (listTokens text none).notices).openPhase
          (some "parsing")).crash "error backlog at checkpoint", .status 1⟩ := by
  have hentries : (Backlog.noteAll ⟨some "lexing", []⟩ (listTokens text none).notices).entries ≠
      [] := mt (Backlog.entries_noteAll_eq_nil rfl _).1 hillegal
  rw [compile, if_pos rfl, tokenPhase, Backlog.proceed_of_nil rfl]
  simp only [h]
  rw [parsePhase]
  exact Backlog.proceed_of_ne_nil hentries _ _ _

end Phases

/-! ## Lines that cannot be mistaken for the verdict -/

/-- A text ends in a character, and not in an exclamation mark. -/
def endsPlain (text : String) : Bool := text.toList.getLast?.any (· != '!')

theorem endsPlain_append (text : String) {other : String} (h : endsPlain other = true) :
    endsPlain (text ++ other) = true := by
  cases hlast : other.toList.getLast? with
  | none => simp [endsPlain, hlast] at h
  | some c => simpa [endsPlain, List.getLast?_append, hlast] using h

/-- A line without an exclamation mark is not the verdict. -/
theorem endsPlain_of_notMem {text : String} (hne : text.toList ≠ []) (h : '!' ∉ text.toList) :
    endsPlain text = true := by
  rw [endsPlain, List.getLast?_eq_some_getLast hne]
  have hlast : text.toList.getLast hne ≠ '!' := by
    intro heq
    exact h (heq ▸ List.getLast_mem hne)
  simpa using hlast

theorem endsPlain_of_isIdentifier {name : String} (h : isIdentifier name = true) :
    endsPlain name = true := by
  refine endsPlain_of_notMem ?_ (notMem_of_isIdentifier h (by decide))
  intro hnil
  simp [isIdentifier, hnil] at h

theorem endsPlain_toString_int (i : Int) : endsPlain (toString i) = true := by
  refine endsPlain_of_notMem ?_ (notMem_repr_int (by decide) (by decide) i)
  rw [show (toString i).toList = _ from toList_repr_int i]
  split
  · exact Nat.toDigits_ne_nil
  · exact List.cons_ne_nil _ _

theorem Keyword.endsPlain_label (k : Keyword) : endsPlain k.label = true := by cases k <;> decide

theorem Mark.endsPlain_label (m : Mark) : endsPlain m.label = true := by cases m <;> decide

theorem Symbol.endsPlain_kind (symbol : Symbol) : endsPlain symbol.kind = true := by
  cases symbol with
  | «variable» _ => exact (by decide : endsPlain "variable" = true)
  | type _ => exact (by decide : endsPlain "type" = true)
  | procedure _ => exact (by decide : endsPlain "procedure" = true)

theorem Token.endsPlain_listing {text : String} {t : Located Token}
    (ht : t ∈ (listTokens text none).tokens) : endsPlain (Token.listing t) = true := by
  obtain ⟨p, token⟩ := t
  cases token with
  | ident name => exact endsPlain_append _ (endsPlain_of_isIdentifier
      (isIdentifier_of_mem_listTokens ht rfl))
  | number n => exact endsPlain_append _ (endsPlain_toString_int n)
  | keyword k => exact endsPlain_append _ k.endsPlain_label
  | mark m => exact endsPlain_append _ m.endsPlain_label

theorem Datum.endsPlain_render_node (kind : String) (fields : List (String × Datum)) :
    endsPlain (Datum.node kind fields).render = true := by
  obtain ⟨front, hfront⟩ : ∃ front, (Datum.node kind fields).chars 0 = front ++ ['\x7d'] :=
    ⟨_, rfl⟩
  rw [endsPlain, Datum.render, hfront, String.toList_ofList, List.getLast?_append]
  rfl

theorem Ty.endsPlain_signature (τ : Ty) : endsPlain τ.signature = true := by
  cases τ with
  | integer | char | unknown => decide
  | array base lower upper =>
    rw [Ty.signature]
    exact endsPlain_append _ (by decide)
  | record fields =>
    rw [Ty.signature]
    exact endsPlain_append _ (by decide)

namespace Diagnostic

theorem endsPlain_detail {detail : Option Detail}
    (h : ∀ w, detail = some (.word w) → ∃ symbol : Symbol, w = symbol.kind) :
    endsPlain ((detail.map Detail.text).getD absent) = true := by
  match detail with
  | none => decide
  | some (.type τ) => exact τ.endsPlain_signature
  | some (.count n) => exact endsPlain_toString_int n
  | some (.word w) =>
    obtain ⟨symbol, rfl⟩ := h w rfl
    exact symbol.endsPlain_kind

/-- Messages end in a name, in a detail or in a word of their own. -/
theorem endsPlain_message {d : Diagnostic}
    (hname : ∀ name, d.name = some name → isIdentifier name = true)
    (hword : ∀ w, d.got = some (.word w) → ∃ symbol : Symbol, w = symbol.kind) :
    endsPlain d.message = true := by
  have hnames : endsPlain (d.name.getD absent) = true := by
    cases hd : d.name with
    | none => decide
    | some name => exact endsPlain_of_isIdentifier (hname name hd)
  have hgot := endsPlain_detail hword
  unfold message
  cases d.kind with
  | duplicatedIdentifier | undefinedIdentifier | undefinedType | undefinedField =>
    exact endsPlain_append _ hnames
  | notAVariable | invalidArray => exact endsPlain_append _ (by decide)
  | invalidAssignee => exact (by decide : endsPlain "invalid assignee" = true)
  | incompatibleType | unexpectedIndex | fieldOfNonRecord | assignmentMismatch | argumentMismatch
  | argumentCount | invalidOperand | invalidInput | invalidOutput =>
    exact endsPlain_append _ hgot

/-- No diagnostic about the program of a text can be mistaken for the verdict. -/
theorem endsPlain_line {text : String} {d : Located Diagnostic}
    (h : Grounded (listTokens text none).tokens d) : endsPlain (line d) = true := by
  refine endsPlain_append _ (endsPlain_message (fun name hname => ?_) h.word)
  exact isIdentifier_of_mem_listTokens (h.name name hname) rfl

end Diagnostic

/-- The last line of a text. -/
def LastLine (text line : String) : Prop :=
  ∃ before, text = before ++ line ++ "\n" ∧ (before = "" ∨ ∃ front, before = front ++ "\n")

theorem unlines_concat (lines : List String) (line : String) :
    unlines (lines.concat line) = unlines lines ++ line ++ "\n" := by
  rw [List.concat_eq_append, unlines_append, String.append_assoc]
  simp [unlines]

/-- The last of some lines is the last line of what is printed. -/
theorem lastLine_unlines (lines : List String) (line : String) :
    LastLine (unlines (lines ++ [line])) line := by
  rw [← List.concat_eq_append]
  refine ⟨unlines lines, unlines_concat lines line, ?_⟩
  rcases List.eq_nil_or_concat lines with rfl | ⟨front, last, rfl⟩
  · exact .inl rfl
  · exact .inr ⟨unlines front ++ last, unlines_concat front last⟩

theorem not_lastLine_unlines {lines : List String} (h : ∀ line ∈ lines, endsPlain line = true) :
    ¬ LastLine (unlines lines) "No semantic error!" := by
  rintro ⟨before, heq, -⟩
  rcases List.eq_nil_or_concat lines with rfl | ⟨front, last, rfl⟩
  · have hnil := congrArg String.toList heq
    simp [unlines] at hnil
  · rw [unlines_concat, String.append_left_inj] at heq
    have hplain : endsPlain (before ++ "No semantic error!") = true :=
      heq ▸ endsPlain_append _ (h last (by simp))
    simp [endsPlain] at hplain

/-! ## Verdicts -/

/-- A text is accepted if nothing is noted while it is read, a program comes out, and there is
nothing to report about the program. -/
def Accepted (text : String) : Prop :=
  (readProgram text).notices = [] ∧
    ∃ p, (readProgram text).program = .ok (some p) ∧ p.value.analyze = .ok []

/-- How a run ends and what it prints. The status tells whether the text is accepted, and so does
the last line. What is reported about a program stands behind the lines that were asked for, if the
program was read without a notice; otherwise there is nothing behind the listing of the tokens. A
listing with illegal characters is followed by nothing but the notices about them. -/
structure Verdict (tokens ast : Bool) (text : String) (x : Execution) : Prop where
  accepted : x.ending = .status 0 ↔ Accepted text
  refused : ¬ Accepted text → x.ending = .status 1
  lastLine : LastLine x.out "No semantic error!" ↔ Accepted text
  judged : ∀ p, (readProgram text).notices = [] → (readProgram text).program = .ok (some p) →
    ∃ ds, p.value.analyze = .ok ds ∧ x.err = "" ∧
      x.out = unlines (tokenLines tokens text ++ treeLines ast p ++ verdictLines ds)
  unjudged : (readProgram text).notices ≠ [] ∨ (readProgram text).program = .ok none →
    x.out = unlines (tokenLines tokens text)
  illegal : tokens = true → (listTokens text none).notices ≠ [] →
    x = ⟨unlines (tokenLines true text),
      ((Backlog.noteAll ⟨some "lexing", []⟩ (listTokens text none).notices).openPhase
        (some "parsing")).crash "error backlog at checkpoint", .status 1⟩

section Verdict

variable {text : String} {p : Located Program} {ds : List (Located Diagnostic)}

theorem endsPlain_tokenLines (tokens : Bool) (text : String) :
    ∀ line ∈ tokenLines tokens text, endsPlain line = true := by
  cases tokens with
  | false => simp [tokenLines]
  | true =>
    intro line hline
    obtain ⟨t, ht, rfl⟩ := List.mem_map.1 hline
    exact Token.endsPlain_listing ht

/-- A tree ends with a brace. -/
theorem endsPlain_treeLines (ast : Bool) (p : Located Program) :
    ∀ line ∈ treeLines ast p, endsPlain line = true := by
  cases ast with
  | false => simp [treeLines]
  | true =>
    intro line hline
    rw [List.mem_singleton.1 hline]
    exact Datum.endsPlain_render_node _ _

/-- A text with a program that was read without a notice is judged by what is reported. -/
theorem verdict_of_silent (h : (listTokens text none).broken = none)
    (hsilent : (readProgram text).notices = [])
    (hp : (readProgram text).program = .ok (some p)) (tokens ast : Bool) :
    Verdict tokens ast text (compile tokens ast text) := by
  have hlegal := listTokens_notices_eq_nil h hsilent
  obtain ⟨ds, hds, hgrounded⟩ := readProgram_grounded hp
  have hlisted : tokens = true → (listTokens text none).notices = [] := fun _ => hlegal
  obtain ⟨b, hb, hcompile⟩ := compile_eq_parsePhase h hlisted ast
  rw [hcompile, parsePhase_of_silent hb hsilent hp hds, ← unlines_append, ← List.append_assoc]
  have haccepted : Accepted text ↔ ds = [] := by
    simp [Accepted, hsilent, hp, hds]
  constructor
  case accepted =>
    rw [haccepted]
    split <;> simp_all
  case refused =>
    intro hrefused
    rw [if_neg (mt haccepted.2 hrefused)]
  case lastLine =>
    rw [haccepted]
    cases ds with
    | nil => exact iff_of_true (lastLine_unlines _ _) rfl
    | cons d ds =>
      refine iff_of_false (not_lastLine_unlines ?_) (List.cons_ne_nil d ds)
      refine List.forall_mem_append.2 ⟨List.forall_mem_append.2 ⟨endsPlain_tokenLines tokens text,
        endsPlain_treeLines ast p⟩, ?_⟩
      exact List.forall_mem_map.2 fun d hd => Diagnostic.endsPlain_line (hgrounded d hd)
  case judged =>
    intro q _ hq
    cases hp.symm.trans hq
    exact ⟨ds, hds, rfl, rfl⟩
  case unjudged =>
    rintro (hnotices | hnone)
    · exact absurd hsilent hnotices
    · cases hp.symm.trans hnone
  case illegal => exact fun _ hillegal => absurd hlegal hillegal

/-- A text that is refused is not judged, and nothing but its tokens is listed. -/
theorem verdict_of_refused (h : (listTokens text none).broken = none)
    (hrefused : (readProgram text).notices ≠ [] ∨ (readProgram text).program = .ok none)
    (tokens ast : Bool) : Verdict tokens ast text (compile tokens ast text) := by
  have hnot : ¬ Accepted text := by
    rintro ⟨hsilent, p, hp, -⟩
    rcases hrefused with hnotices | hnone
    · exact hnotices hsilent
    · cases hp.symm.trans hnone
  -- Illegal characters that are listed end the run at the first checkpoint.
  have hrun : ∃ err, compile tokens ast text =
      ⟨unlines (tokenLines tokens text), err, .status 1⟩ := by
    by_cases hlegal : tokens = true → (listTokens text none).notices = []
    · obtain ⟨b, hb, hcompile⟩ := compile_eq_parsePhase h hlegal ast
      obtain ⟨program, hprogram⟩ := readProgram_ends h
      rw [hcompile]
      refine parsePhase_of_refused hb ?_ ast _
      cases program with
      | none => exact .inl hprogram
      | some p =>
        refine .inr ⟨?_, p, hprogram⟩
        rcases hrefused with hnotices | hnone
        · exact hnotices
        · cases hprogram.symm.trans hnone
    · obtain ⟨rfl, hillegal⟩ := Classical.not_imp.1 hlegal
      exact ⟨_, compile_of_illegal h hillegal ast⟩
  constructor
  case illegal =>
    rintro rfl hillegal
    exact compile_of_illegal h hillegal ast
  all_goals
    obtain ⟨err, hrun⟩ := hrun
    rw [hrun]
  case accepted => exact iff_of_false (by simp) hnot
  case refused => exact fun _ => rfl
  case lastLine =>
    exact iff_of_false (not_lastLine_unlines (endsPlain_tokenLines tokens text)) hnot
  case judged =>
    intro p hsilent hp
    rcases hrefused with hnotices | hnone
    · exact absurd hsilent hnotices
    · cases hp.symm.trans hnone
  case unjudged => exact fun _ => rfl

/-- What is printed depends on the flags, the verdict on a text does not. -/
theorem verdict_compile (h : (listTokens text none).broken = none) (tokens ast : Bool) :
    Verdict tokens ast text (compile tokens ast text) := by
  obtain ⟨program, hprogram⟩ := readProgram_ends h
  by_cases hsilent : (readProgram text).notices = []
  · cases program with
    | none => exact verdict_of_refused h (.inr hprogram) tokens ast
    | some p => exact verdict_of_silent h hsilent hprogram tokens ast
  · exact verdict_of_refused h (.inl hsilent) tokens ast

theorem Verdict.ending_eq {tokens ast tokens' ast' : Bool} {x y : Execution}
    (hx : Verdict tokens ast text x) (hy : Verdict tokens' ast' text y) : x.ending = y.ending := by
  by_cases h : Accepted text
  · rw [hx.accepted.2 h, hy.accepted.2 h]
  · rw [hx.refused h, hy.refused h]

end Verdict

/-! ## Runs -/

open CommandLine

/-- The file at a path can be read, and has a text. -/
structure HoldsText (read : String → Except ReadFailure (List UInt8)) (path text : String) :
    Prop where
  possible : '\x00' ∉ path.toList
  content : ∃ octets cs, read path = .ok octets ∧ Text.Utf8.decode octets = .ok cs ∧
    text = String.ofList (Text.unifyNewlines cs)

theorem run_eq_compile {arguments : List String} {request : Request}
    (hrequest : Request.ofArguments arguments = .ok request)
    {read : String → Except ReadFailure (List UInt8)} {text : String}
    (hfile : HoldsText read request.input text) (program : String) :
    run program arguments read = compile request.tokens request.ast text := by
  obtain ⟨hpossible, octets, cs, hread, hdecode, rfl⟩ := hfile
  simp [run, prepare, hrequest, execute, hpossible, hread, hdecode]

/-- The verdict of a run on a file whose text has no number that is too long. It is the verdict of
each run on this file, whatever the flags are. -/
theorem run_verdict {arguments : List String} {request : Request}
    (hrequest : Request.ofArguments arguments = .ok request)
    {read : String → Except ReadFailure (List UInt8)} {text : String}
    (hfile : HoldsText read request.input text) (h : (listTokens text none).broken = none)
    (program : String) :
    Verdict request.tokens request.ast text (run program arguments read) ∧
    ∀ others other, Request.ofArguments others = .ok other → other.input = request.input →
      (run program others read).ending = (run program arguments read).ending := by
  have hverdict := verdict_compile h request.tokens request.ast
  rw [run_eq_compile hrequest hfile]
  refine ⟨hverdict, fun others other hother hinput => ?_⟩
  rw [run_eq_compile hother (hinput ▸ hfile)]
  exact (verdict_compile h other.tokens other.ast).ending_eq hverdict

/-- A program. -/
def plainText : String := "program t begin return(0) end."

/-- The same program behind an illegal character. -/
def strayText : String := "?program t begin return(0) end."

/-- Two files with these texts. -/
def twoFiles (path : String) : Except ReadFailure (List UInt8) :=
  let octets (text : String) := text.toList.map fun c => UInt8.ofNat c.toNat
  if path = "plain.snl" then .ok (octets plainText)
  else if path = "stray.snl" then .ok (octets strayText)
  else .error .missing

theorem holdsText_plain : HoldsText twoFiles "plain.snl" plainText :=
  ⟨by decide, _, plainText.toList, rfl, by decide +kernel, by decide +kernel⟩

theorem holdsText_stray : HoldsText twoFiles "stray.snl" strayText :=
  ⟨by decide, _, strayText.toList, rfl, by decide +kernel, by decide +kernel⟩

theorem twoFiles_verdicts :
    (HoldsText twoFiles "plain.snl" plainText ∧ (listTokens plainText none).broken = none ∧
      (run "snlc" ["--tokens", "--ast", "plain.snl"] twoFiles).ending = .status 0 ∧
      LastLine (run "snlc" ["--tokens", "--ast", "plain.snl"] twoFiles).out "No semantic error!") ∧
    HoldsText twoFiles "stray.snl" strayText ∧ (listTokens strayText none).broken = none ∧
      (listTokens strayText none).notices = [.illegal ⟨⟨1, 1⟩, '?'⟩] ∧
      (run "snlc" ["--tokens", "stray.snl"] twoFiles).out =
        unlines (tokenLines true strayText) ∧
      (run "snlc" ["--tokens", "stray.snl"] twoFiles).ending = .status 1 ∧
      (run "snlc" ["stray.snl"] twoFiles).ending = .status 1 := by
  have hplain : (listTokens plainText none).broken = none := by with_unfolding_all rfl
  have hstray : (listTokens strayText none).broken = none := by with_unfolding_all rfl
  have hillegal : (listTokens strayText none).notices = [.illegal ⟨⟨1, 1⟩, '?'⟩] := by
    with_unfolding_all rfl
  have haccepted : Accepted plainText :=
    ⟨by with_unfolding_all rfl,
      ⟨⟨1, 1⟩, "t", ⟨[], [], []⟩,
        [.result (.last ⟨⟨1, 24⟩, .last ⟨⟨1, 24⟩, .constant 0⟩ none⟩ none)]⟩,
      by with_unfolding_all rfl, rfl⟩
  have hboth : Request.ofArguments ["--tokens", "--ast", "plain.snl"] =
    .ok ⟨true, true, "plain.snl"⟩ := by decide +kernel
  have htokens : Request.ofArguments ["--tokens", "stray.snl"] =
    .ok ⟨true, false, "stray.snl"⟩ := by decide +kernel
  have hnone : Request.ofArguments ["stray.snl"] = .ok ⟨false, false, "stray.snl"⟩ := by
    decide +kernel
  have hvalid := (run_verdict hboth holdsText_plain hplain "snlc").1
  obtain ⟨hrefused, hsame⟩ := run_verdict htokens holdsText_stray hstray "snlc"
  have hrun := hrefused.illegal rfl (by simp [hillegal])
  have hstatus := congrArg Execution.ending hrun
  exact ⟨⟨holdsText_plain, hplain, hvalid.accepted.2 haccepted, hvalid.lastLine.2 haccepted⟩,
    holdsText_stray, hstray, hillegal, congrArg Execution.out hrun, hstatus,
    (hsame ["stray.snl"] _ hnone rfl).trans hstatus⟩

end SnlFront
