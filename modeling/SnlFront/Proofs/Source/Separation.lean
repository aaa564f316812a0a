import SnlFront.Proofs.Correspondence.Basic
import SnlFront.Proofs.Grammar.Relabeling
import SnlFront.Proofs.Source.Cutting

/-!
# Texts on both sides of a separator

Layout stands for nothing, whatever follows it: a blank, a line feed and a comment that is closed
only move the position of what follows. A line feed may be drawn into a run of line feeds by its
neighbours, but such a run is layout too. So no lexeme reaches from one side of a separator to the
other, unless an opening brace in front of it is still waiting to be closed.

## Main definitions

* `IsLayout`: text that is made of blanks, line feeds and comments.
* `substance`: what a text stands for, without layout.
* `Position.shift`: a position in a text, if another text is put in front of it.

## Main statements

* `substance_layout`: layout moves what follows it and does nothing else.
* `substance_append`: a text in front of a separator is read as it is on its own.
* `listTokens_append`: the listing of two texts with a separator between them.
-/

namespace SnlFront

/-! ## Layout -/

/-- Text that is made of blanks, line feeds and complete comments. -/
inductive IsLayout : List Char → Prop
  | nil : IsLayout []
  | single {c : Char} {cs : List Char} (hc : c ∈ [' ', '\t', '\r', '\n']) (h : IsLayout cs) :
      IsLayout (c :: cs)
  | comment {body cs : List Char} (hbody : '\x7d' ∉ body) (h : IsLayout cs) :
      IsLayout ('\x7b' :: body ++ ['\x7d'] ++ cs)

theorem isLayout_of_forall {cs : List Char} (h : ∀ c ∈ cs, c ∈ [' ', '\t', '\r', '\n']) :
    IsLayout cs := by
  induction cs with
  | nil => exact .nil
  | cons c cs ih =>
    exact .single (h c List.mem_cons_self) (ih fun d hd => h d (List.mem_cons_of_mem _ hd))

/-- What the lexemes of a text stand for but for layout, if the text starts at some position. -/
def substance (p : Position) (cs : List Char) : List (Located Meaning) :=
  ((locate p (lexemes cs)).map (·.map Lexeme.meaning)).filter (·.value != .layout)

theorem substance_nil (p : Position) : substance p [] = [] := by
  rw [substance, lexemes]
  rfl

theorem substance_cons {x : Lexeme} {rest : List Char} (hx : x.Fits rest)
    (hmeaning : x.meaning ≠ .layout) (p : Position) :
    substance p (x.chars ++ rest) =
      ⟨p, x.meaning⟩ :: substance (p.advance x.chars) rest := by
  rw [substance, lexemes_append hx]
  simp [locate, substance, Located.map, hmeaning]

theorem substance_cons_layout {x : Lexeme} {rest : List Char} (hx : x.Fits rest)
    (hmeaning : x.meaning = .layout) (p : Position) :
    substance p (x.chars ++ rest) = substance (p.advance x.chars) rest := by
  rw [substance, lexemes_append hx]
  simp [locate, substance, Located.map, hmeaning]

/-- A line feed only moves what follows it, also if more line feeds follow. -/
theorem substance_newline (p : Position) (cs : List Char) :
    substance p ('\n' :: cs) = substance (p.step '\n') cs := by
  obtain ⟨n, rest, hrest, rfl⟩ :
      ∃ n rest, Stops (· == '\n') rest ∧ List.replicate n '\n' ++ rest = cs :=
    ⟨(cs.takeWhile (· == '\n')).length, cs.dropWhile (· == '\n'), stops_dropWhile _ _,
      (List.cons.inj (Lexeme.chars_first '\n' cs)).2⟩
  have hrun : ∀ (q : Position) (k : Nat), substance q (List.replicate (k + 1) '\n' ++ rest) =
      substance (q.advance (List.replicate (k + 1) '\n')) rest :=
    fun q k => substance_cons_layout (x := .newlines k) (.newlines hrest) rfl q
  cases n with
  | zero => exact hrun p 0
  | succ n => exact (hrun p (n + 1)).trans (hrun _ n).symm

/-- Layout only moves what follows it. -/
theorem substance_layout {cs : List Char} (h : IsLayout cs) (p : Position) (rest : List Char) :
    substance p (cs ++ rest) = substance (p.advance cs) rest := by
  induction h generalizing p with
  | nil => rfl
  | @single c cs hc _ ih =>
    by_cases hnewline : c = '\n'
    · rw [hnewline, List.cons_append, substance_newline, ih, Position.advance_cons]
    · have hblank : Lexeme.isBlank c = true := by
        simpa [Lexeme.isBlank, hnewline, or_assoc] using hc
      exact (substance_cons_layout (x := .blank c) (.blank hblank) rfl p).trans (ih _)
  | @comment body cs hbody _ ih =>
    rw [List.append_assoc, Position.advance_append, ← ih]
    exact substance_cons_layout (x := .comment body) (.comment hbody) rfl p

/-- The listing of a text is that of its substance. -/
theorem Listing.ofMeanings_filter (xs : List (Located Meaning)) :
    Listing.ofMeanings none (xs.filter (·.value != .layout)) = Listing.ofMeanings none xs := by
  induction xs with
  | nil => rfl
  | cons x xs ih =>
    obtain ⟨p, meaning⟩ := x
    cases meaning with
    | layout => exact ih
    | token t => exact congrArg (addToken _) ih
    | illegal c => exact congrArg (addNotice _) ih
    | overlong digits => rfl

theorem listTokens_eq_substance (text : String) :
    listTokens text none = .ofMeanings none (substance .origin text.toList) :=
  (Listing.ofMeanings_filter _).symm

/-! ## Separators -/

/-- A run of characters ends at layout, unless it may go on with a character that layout starts
with. -/
theorem IsLayout.stops {p : Char → Bool} {cs : List Char} (h : IsLayout cs) (hne : cs ≠ [])
    (hp : Lexeme.layoutStarts.any p = false) (rest : List Char) : Stops p (cs ++ rest) := by
  have hstart : ∀ d ∈ Lexeme.layoutStarts, p d = false := fun d hd =>
    Bool.eq_false_iff.2 (List.any_eq_false.1 hp d hd)
  cases h with
  | nil => exact absurd rfl hne
  | @single c cs hc => exact stops_cons.2 (hstart c (List.mem_append_left ['\x7b'] hc))
  | comment => exact stops_cons.2 (hstart '\x7b' (by decide))

/-- A lexeme that is no layout ends in front of a separator as it ends where the text ends. -/
theorem Lexeme.Fits.append {x : Lexeme} {rest gap : List Char} (h : x.Fits rest)
    (hmeaning : x.meaning ≠ .layout) (hx : x ≠ .illegal '\x7b') (hgap : IsLayout gap)
    (hne : gap ≠ []) (others : List Char) : x.Fits (rest ++ gap ++ others) := by
  have hstops : ∀ p, Lexeme.layoutStarts.any p = false → Stops p rest →
      Stops p (rest ++ gap ++ others) := by
    intro p hp hrest
    cases rest with
    | nil => exact hgap.stops hne hp others
    | cons c rest => exact stops_cons.2 (stops_cons.1 hrest)
  cases h with
  | blank | newlines | comment => exact absurd rfl hmeaning
  | word hc hletters hrest => exact .word hc hletters (hstops _ (by decide) hrest)
  | digits hc hfigures hrest => exact .digits hc hfigures (hstops _ (by decide) hrest)
  | mark hrest => exact .mark fun hdot => hstops _ (by decide) (hrest hdot)
  | colon hrest => exact .colon (hstops _ (by decide) hrest)
  | brace => exact absurd rfl hx
  | stray hc => exact .stray hc

/-- The characters of a lexeme that stands for nothing are layout. -/
theorem Lexeme.Fits.isLayout {x : Lexeme} {rest : List Char} (h : x.Fits rest)
    (hmeaning : x.meaning = .layout) : IsLayout x.chars := by
  cases h with
  | @blank c rest hc =>
    refine isLayout_of_forall fun d hd => ?_
    rw [List.mem_singleton.1 hd]
    simp only [isBlank, Bool.or_eq_true, beq_iff_eq, or_assoc] at hc
    rcases hc with rfl | rfl | rfl <;> decide
  | newlines =>
    refine isLayout_of_forall fun d hd => ?_
    rw [List.eq_of_mem_replicate hd]
    decide
  | @comment body rest hbody =>
    have hcomment : IsLayout ('\x7b' :: body ++ ['\x7d'] ++ []) := .comment hbody .nil
    rwa [List.append_nil] at hcomment
  | word | mark | colon | brace | stray => cases hmeaning
  | digits =>
    rw [Lexeme.meaning] at hmeaning
    split at hmeaning <;> cases hmeaning

/-- A text in front of a separator is read as on its own, and so is the text behind it, unless an
opening brace is still waiting to be closed. -/
theorem substance_append {cs gap : List Char} (hbrace : .illegal '\x7b' ∉ lexemes cs)
    (hgap : IsLayout gap) (hne : gap ≠ []) (p : Position) (rest : List Char) :
    substance p (cs ++ gap ++ rest) =
      substance p cs ++ substance (p.advance (cs ++ gap)) rest := by
  have hcut := cut_lexemes cs
  generalize lexemes cs = xs at hbrace hcut
  induction xs generalizing cs p with
  | nil =>
    obtain rfl : [] = cs := hcut.whole
    rw [List.nil_append, substance_layout hgap, substance_nil, List.nil_append]
  | cons x xs ih =>
    obtain ⟨hx, hxs⟩ := List.ne_and_not_mem_of_not_mem_cons hbrace
    have hfits := hcut.head
    have hrest := ih (p.advance x.chars) hxs hcut.tail
    obtain rfl : x.chars ++ xs.flatMap Lexeme.chars = cs := hcut.whole
    generalize xs.flatMap Lexeme.chars = cs at hfits hrest
    simp only [List.append_assoc, Position.advance_append] at hrest ⊢
    by_cases hmeaning : x.meaning = .layout
    · have hlayout := substance_layout (hfits.isLayout hmeaning) p
      rw [hlayout, hlayout, hrest]
    · have hfits' := hfits.append hmeaning (Ne.symm hx) hgap hne rest
      rw [List.append_assoc] at hfits'
      rw [substance_cons hfits' hmeaning, substance_cons hfits hmeaning, hrest, List.cons_append]

/-! ## Listings -/

/-- A listing that does not break off goes on with what follows. -/
theorem Listing.ofMeanings_append {xs : List (Located Meaning)}
    (h : (Listing.ofMeanings none xs).broken = none) (ys : List (Located Meaning)) :
    Listing.ofMeanings none (xs ++ ys) =
      ⟨(Listing.ofMeanings none xs).tokens ++ (Listing.ofMeanings none ys).tokens,
        (Listing.ofMeanings none xs).notices ++ (Listing.ofMeanings none ys).notices,
        (Listing.ofMeanings none ys).broken⟩ := by
  induction xs with
  | nil => rfl
  | cons x xs ih =>
    obtain ⟨p, meaning⟩ := x
    cases meaning with
    | layout => exact ih h
    | token t => exact congrArg (addToken ⟨p, t⟩) (ih h)
    | illegal c => exact congrArg (addNotice (.illegal ⟨p, c⟩)) (ih h)
    | overlong digits => cases h

/-- The listing of a text that stands elsewhere. -/
theorem Listing.ofMeanings_move (f : Position → Position) (xs : List (Located Meaning)) :
    Listing.ofMeanings none (xs.map (Located.move f)) =
      ⟨(Listing.ofMeanings none xs).tokens.map (Located.move f),
        (Listing.ofMeanings none xs).notices.map (Notice.relabel (.ofPlaces f)),
        (Listing.ofMeanings none xs).broken⟩ := by
  induction xs with
  | nil => rfl
  | cons x xs ih =>
    obtain ⟨p, meaning⟩ := x
    cases meaning with
    | layout => exact ih
    | token t => exact congrArg (addToken ⟨f p, t⟩) ih
    | illegal c => exact congrArg (addNotice (.illegal ⟨f p, c⟩)) ih
    | overlong digits => rfl

namespace Position

/-- A position in a text, if another text is put in front of it. Lines are counted on from those of
the text in front, and the first line goes on where that text ends. -/
def shift (front : List Char) (p : Position) : Position :=
  if 1 < p.line then ⟨p.line + front.count '\n', p.column⟩
  else ⟨1 + front.count '\n', p.column + (front.rtakeWhile (· != '\n')).length⟩

theorem shift_step (front : List Char) {p : Position} (hp : 1 ≤ p.line) (c : Char) :
    shift front (p.step c) = (shift front p).step c := by
  by_cases hc : c = '\n'
  · -- Behind a line feed the line is not the first one any more.
    have hlater : 1 < p.line + 1 := by omega
    by_cases hline : 1 < p.line
    · simp only [shift, step, hc, hline, hlater, if_true, mk.injEq, and_true]
      omega
    · simp only [shift, step, hc, hline, hlater, if_true, if_false, mk.injEq, and_true]
      omega
  · by_cases hline : 1 < p.line
    · simp [shift, step, hc, hline]
    · simp only [shift, step, hc, hline, if_false, mk.injEq, true_and]
      omega

theorem shift_behind (front cs : List Char) : shift front (behind cs) = behind (front ++ cs) := by
  induction cs using List.reverseRecOn with
  | nil => simp [shift, behind]
  | append_singleton cs c ih =>
    have hline : 1 ≤ (behind cs).line := by simp [behind]
    rw [← step_behind, shift_step front hline, ih, step_behind, List.append_assoc]

end Position

/-- What a text stands for, behind another text. -/
theorem substance_behind (front cs : List Char) :
    substance (.behind front) cs =
      (substance .origin cs).map (Located.move (Position.shift front)) := by
  have hlocate : locate (.behind front) (lexemes cs) =
      (locate .origin (lexemes cs)).map (Located.move (Position.shift front)) := by
    rw [← Position.behind_nil, locate_behind, locate_behind, List.map_map]
    simp [Function.comp_def, Located.move, Position.shift_behind]
  rw [substance, substance, hlocate]
  simp only [List.filter_map, List.map_map]
  rfl

/-- Each illegal character is noted, if the listing does not break off. -/
theorem illegal_notMem_lexemes {text : String} {c : Char}
    (h : (listTokens text none).broken = none)
    (hnotices : ∀ p, .illegal ⟨p, c⟩ ∉ (listTokens text none).notices) :
    .illegal c ∉ lexemes text.toList := by
  intro hmem
  have hlisting := Listing.ofMeanings_of_bounded _ (Listing.bounded_of_broken (scan text.toList) h)
  rw [← map_value_locate .origin (lexemes text.toList)] at hmem
  obtain ⟨x, hx, hvalue⟩ := List.mem_map.1 hmem
  refine hnotices x.pos ?_
  rw [listTokens, meanings, hlisting.2.2]
  exact List.mem_filterMap.2 ⟨x, hx, by simp [Lexeme.notice?, hvalue]⟩

/-- Two texts with a separator between them are listed as they are on their own, the second one at
shifted positions. The first text may have no number that is too long, and no brace that is open at
its end. -/
theorem listTokens_append {text gap others : String} (h : (listTokens text none).broken = none)
    (hbrace : ∀ p, .illegal ⟨p, '\x7b'⟩ ∉ (listTokens text none).notices)
    (hgap : IsLayout gap.toList) (hne : gap ≠ "") :
    let f := Position.shift (text ++ gap).toList
    listTokens (text ++ gap ++ others) none =
      ⟨(listTokens text none).tokens ++ (listTokens others none).tokens.map (Located.move f),
        (listTokens text none).notices ++
          (listTokens others none).notices.map (Notice.relabel (.ofPlaces f)),
        (listTokens others none).broken⟩ := by
  intro f
  have hsplit : substance .origin (text ++ gap ++ others).toList =
      substance .origin text.toList ++ (substance .origin others.toList).map (Located.move f) := by
    have hfront : Position.origin.advance (text.toList ++ gap.toList) =
        .behind (text ++ gap).toList := by
      rw [← Position.behind_nil, Position.advance_behind, String.toList_append, List.nil_append]
    rw [String.toList_append, String.toList_append,
      substance_append (illegal_notMem_lexemes h hbrace) hgap (by simpa using hne), hfront,
      substance_behind]
  rw [listTokens_eq_substance] at h
  simp only [listTokens_eq_substance, hsplit, Listing.ofMeanings_append h,
    Listing.ofMeanings_move]

/-- A text with an illegal character in it. -/
def beforeComment : String := "x:@"

/-- A text of two lines. -/
def behindComment : String := "?y\nz"

theorem listTokens_around_comment :
    (listTokens beforeComment none).broken = none ∧
      (∀ p, .illegal ⟨p, '\x7b'⟩ ∉ (listTokens beforeComment none).notices) ∧
      listTokens (beforeComment ++ "\x7b\n \x7d" ++ behindComment) none =
        ⟨[⟨⟨1, 1⟩, .ident "x"⟩, ⟨⟨2, 4⟩, .ident "y"⟩, ⟨⟨3, 1⟩, .ident "z"⟩],
          [.illegal ⟨⟨1, 2⟩, ':'⟩, .illegal ⟨⟨1, 3⟩, '@'⟩, .illegal ⟨⟨2, 3⟩, '?'⟩], none⟩ := by
  have h : (listTokens beforeComment none).broken = none := by with_unfolding_all rfl
  have hnotices : (listTokens beforeComment none).notices =
      [.illegal ⟨⟨1, 2⟩, ':'⟩, .illegal ⟨⟨1, 3⟩, '@'⟩] := by with_unfolding_all rfl
  have hbrace : ∀ p, .illegal ⟨p, '\x7b'⟩ ∉ (listTokens beforeComment none).notices := by
    simp [hnotices]
  have hgap : IsLayout "\x7b\n \x7d".toList := @IsLayout.comment ['\n', ' '] [] (by decide) .nil
  have hwhole := @listTokens_append beforeComment "\x7b\n \x7d" behindComment h hbrace hgap
    (by decide)
  exact ⟨h, hbrace, hwhole.trans (by with_unfolding_all rfl)⟩

end SnlFront
