import Mathlib.Data.List.DropRight
import Mathlib.Data.List.Infix
import Mathlib.Data.List.TakeWhile
import Mathlib.Data.Nat.Digits.Defs
import SnlFront.Proofs.Source.Tokens

/-!
# How a text is cut

The lexemes of a text are described here by rules of their own, one for each kind: which characters
a lexeme has, and how the text may not go on behind it. A text can be cut in exactly one way that
follows these rules, and this is the way in which it is read. The position of a lexeme is told by
the text ahead of it alone: by the number of line feeds, and by the number of characters behind the
last of them.

## Main definitions

* `Lexeme.Fits`: a lexeme follows the rules in front of a text.
* `Cut`: a text as a row of lexemes that follow the rules.
* `Position.behind`: the position behind a text.
* `placed`: the lexemes of a row at their positions.
* `Lexeme.Spells`, `Lexeme.SpellsAt`: the token that a lexeme spells.

## Main statements

* `Lexeme.fits_first`, `Lexeme.first_of_fits`: the lexeme that is read from the front of a text is
  the only one that fits there.
* `cut_iff`: a text can be cut in one way only.
* `locate_origin`: reading finds the right positions.
* `listTokens_of_cut`: what is listed of a text.
-/

namespace SnlFront

/-! ## Rules for lexemes -/

/-- A text that does not go on with a character of some kind. -/
def Stops (p : Char → Bool) (rest : List Char) : Prop := ∀ c ∈ rest.head?, p c = false

theorem stops_nil (p : Char → Bool) : Stops p [] := by simp [Stops]

/-- A run of characters stops in front of a character that is not of its class. -/
theorem stops_cons {p : Char → Bool} {c : Char} {rest : List Char} :
    Stops p (c :: rest) ↔ p c = false := by simp [Stops]

theorem stops_beq {d : Char} {rest : List Char} (h : ∀ others, rest ≠ d :: others) :
    Stops (· == d) rest := by
  cases rest with
  | nil => exact stops_nil _
  | cons c rest =>
    refine stops_cons.2 (beq_eq_false_iff_ne.2 fun heq => h rest ?_)
    rw [heq]

/-- What is left behind the longest run stops it. -/
theorem stops_dropWhile (p : Char → Bool) (cs : List Char) : Stops p (cs.dropWhile p) := by
  intro c hc
  have hhead := List.head?_dropWhile_not p cs
  rw [Option.mem_def.1 hc] at hhead
  exact hhead

theorem takeWhile_of_stops {p : Char → Bool} {rest : List Char} (h : Stops p rest) :
    rest.takeWhile p = [] := by
  cases rest with
  | nil => rfl
  | cons c rest => rw [List.takeWhile_cons, stops_cons.1 h, if_neg (by simp)]

theorem dropWhile_of_stops {p : Char → Bool} {rest : List Char} (h : Stops p rest) :
    rest.dropWhile p = rest := by
  cases rest with
  | nil => rfl
  | cons c rest => rw [List.dropWhile_cons, stops_cons.1 h, if_neg (by simp)]

/-- A run of characters of some kind is taken as a whole, and nothing behind it. -/
theorem takeWhile_append_of_stops {p : Char → Bool} {cs rest : List Char}
    (hcs : ∀ c ∈ cs, p c = true) (hrest : Stops p rest) : (cs ++ rest).takeWhile p = cs := by
  rw [List.takeWhile_append_of_pos hcs, takeWhile_of_stops hrest, List.append_nil]

/-- A run in front of what stops it is dropped as a whole, and nothing else. -/
theorem dropWhile_append_of_stops {p : Char → Bool} {cs rest : List Char}
    (hcs : ∀ c ∈ cs, p c = true) (hrest : Stops p rest) : (cs ++ rest).dropWhile p = rest := by
  rw [List.dropWhile_append_of_pos hcs, dropWhile_of_stops hrest]

namespace Lexeme

/-- A character that no blank, line end, comment, word, number or mark starts with. -/
structure Stray (c : Char) : Prop where
  blank : isBlank c = false
  newline : c ≠ '\n'
  brace : c ≠ '\x7b'
  letter : c.isAlpha = false
  digit : Text.isDigit c = false
  mark : ∀ m : Mark, m.text.toList.head? ≠ some c

/-- A lexeme follows the rules in front of a text. Line feeds, words and numbers go on as long as
they can. A dot is not followed by another one, a colon is illegal only if no equals sign follows
it, and an opening brace only if no closing brace follows it anywhere. -/
inductive Fits : Lexeme → List Char → Prop
  | blank {c : Char} {rest : List Char} (hc : isBlank c = true) : Fits (.blank c) rest
  | newlines {extra : Nat} {rest : List Char} (hrest : Stops (· == '\n') rest) :
      Fits (.newlines extra) rest
  | comment {body rest : List Char} (hbody : '\x7d' ∉ body) : Fits (.comment body) rest
  | word {c : Char} {letters rest : List Char} (hc : c.isAlpha = true)
      (hletters : ∀ d ∈ letters, inWord d = true) (hrest : Stops inWord rest) :
      Fits (.word (c :: letters)) rest
  | digits {c : Char} {figures rest : List Char} (hc : Text.isDigit c = true)
      (hfigures : ∀ d ∈ figures, Text.isDigit d = true) (hrest : Stops Text.isDigit rest) :
      Fits (.digits (c :: figures)) rest
  | mark {m : Mark} {rest : List Char} (hrest : m = .dot → Stops (· == '.') rest) :
      Fits (.mark m) rest
  | colon {rest : List Char} (hrest : Stops (· == '=') rest) : Fits (.illegal ':') rest
  | brace {rest : List Char} (hrest : '\x7d' ∉ rest) : Fits (.illegal '\x7b') rest
  | stray {c : Char} {rest : List Char} (hc : Stray c) : Fits (.illegal c) rest

/-! ## The front lexeme -/

/-- Letters have the codes of ASCII letters. -/
theorem toNat_of_isAlpha {c : Char} (h : c.isAlpha = true) : 65 ≤ c.toNat ∧ c.toNat ≤ 122 := by
  rcases (Bool.or_eq_true _ _).mp h with hupper | hlower
  · obtain ⟨hA, hZ⟩ : 'A'.val ≤ c.val ∧ c.val ≤ 'Z'.val := of_decide_eq_true hupper
    have hfirst : 65 ≤ c.toNat := UInt32.le_iff_toNat_le.1 hA
    have hlast : c.toNat ≤ 90 := UInt32.le_iff_toNat_le.1 hZ
    omega
  · obtain ⟨ha, hz⟩ := (Bool.and_eq_true _ _).mp hlower
    have hfirst : 97 ≤ c.toNat := UInt32.le_iff_toNat_le.1 (of_decide_eq_true ha)
    have hlast : c.toNat ≤ 122 := UInt32.le_iff_toNat_le.1 (of_decide_eq_true hz)
    omega

/-- Letters are no digits, in whatever script the digits are. -/
theorem isAlpha_of_isDigit {c : Char} (h : Text.isDigit c = true) : c.isAlpha = false := by
  obtain ⟨value, hvalue⟩ := Option.isSome_iff_exists.1 h
  obtain ⟨start, hfound, -⟩ := Option.map_eq_some_iff.1 hvalue
  have hinside := List.find?_some hfound
  have hstart : ∀ s ∈ Text.zeroDigits, s = 0x30 ∨ 0x660 ≤ s := by decide
  have hzero := hstart start (List.mem_of_find?_eq_some hfound)
  simp only [Bool.and_eq_true, decide_eq_true_eq] at hinside
  refine Bool.eq_false_iff.2 fun hletter => ?_
  have hcode := toNat_of_isAlpha hletter
  omega

theorem splitBefore_of_notMem {d : Char} {cs : List Char} (h : d ∉ cs) :
    splitBefore (· == d) cs = none := by
  have hdrop : cs.dropWhile (fun c => !(c == d)) = [] := by
    simpa [List.dropWhile_eq_nil_iff] using fun c hc (heq : c = d) => h (heq ▸ hc)
  rw [splitBefore, hdrop]

/-- The first closing brace ends a comment. -/
theorem splitBefore_append {d : Char} {body : List Char} (h : d ∉ body) (rest : List Char) :
    splitBefore (· == d) (body ++ d :: rest) = some (body, rest) := by
  have hstops : Stops (fun c => !(c == d)) (d :: rest) := stops_cons.2 (by simp)
  have hall : ∀ c ∈ body, (!(c == d)) = true := by
    simpa using fun c hc (heq : c = d) => h (heq ▸ hc)
  rw [splitBefore, dropWhile_append_of_stops hall hstops, takeWhile_append_of_stops hall hstops]

theorem notMem_of_splitBefore_eq_none {d : Char} {cs : List Char}
    (h : splitBefore (· == d) cs = none) : d ∉ cs := by
  unfold splitBefore at h
  split at h
  · next hdrop =>
    intro hmem
    simpa using List.dropWhile_eq_nil_iff.1 hdrop d hmem
  · cases h

/-- A comment holds no closing brace. -/
theorem notMem_of_splitBefore {d : Char} {cs body rest : List Char}
    (h : splitBefore (· == d) cs = some (body, rest)) : d ∉ body := by
  unfold splitBefore at h
  split at h
  · cases h
  · cases h
    intro hmem
    simpa using List.mem_takeWhile_imp hmem

theorem first_newline (cs : List Char) :
    first '\n' cs =
      (.newlines (cs.takeWhile (· == '\n')).length, cs.dropWhile (· == '\n')) := rfl

theorem first_brace (cs : List Char) :
    first '\x7b' cs =
      match splitBefore (· == '\x7d') cs with
      | some (body, rest) => (.comment body, rest)
      | none => (.illegal '\x7b', cs) := rfl

/-- A stray character is no mark. -/
theorem ofChar?_of_stray {c : Char} (h : Stray c) : Mark.ofChar? c = none := by
  cases hmark : Mark.ofChar? c with
  | none => rfl
  | some m => exact absurd (by rw [Mark.toList_text_of_ofChar? hmark]; rfl) (h.mark m)

/-- The characters that blanks, line ends and comments start with. -/
def layoutStarts : List Char := [' ', '\t', '\r', '\n', '\x7b']

/-- A character of a kind that no layout starts with. -/
theorem not_layout_of {p : Char → Bool} (hp : layoutStarts.any p = false) {c : Char}
    (hc : p c = true) : isBlank c = false ∧ c ≠ '\n' ∧ c ≠ '\x7b' := by
  have hne : ∀ d ∈ layoutStarts, c ≠ d := by
    rintro d hd rfl
    exact List.any_eq_false.1 hp c hd hc
  simp only [layoutStarts, List.forall_mem_cons] at hne
  simp [isBlank, hne]

/-- A lexeme that fits is the one that is read. -/
theorem first_of_fits {x : Lexeme} {rest : List Char} (h : x.Fits rest) :
    ∃ c cs, x.chars ++ rest = c :: cs ∧ first c cs = (x, rest) := by
  cases h with
  | @blank c rest hc =>
    refine ⟨c, rest, rfl, ?_⟩
    simp [first, hc]
  | @newlines extra rest hrest =>
    have hrun : ∀ d ∈ List.replicate extra '\n', (d == '\n') = true := by simp
    refine ⟨'\n', List.replicate extra '\n' ++ rest, rfl, ?_⟩
    rw [first_newline, takeWhile_append_of_stops hrun hrest, dropWhile_append_of_stops hrun hrest,
      List.length_replicate]
  | @comment body rest hbody =>
    refine ⟨'\x7b', body ++ '\x7d' :: rest, by simp [chars], ?_⟩
    rw [first_brace, splitBefore_append hbody]
  | @word c letters rest hc hletters hrest =>
    obtain ⟨hblank, hnewline, hbrace⟩ := not_layout_of (p := Char.isAlpha) (by decide) hc
    refine ⟨c, letters ++ rest, rfl, ?_⟩
    simp only [first, hblank, hnewline, hbrace, hc, Bool.false_eq_true, if_false, if_true,
      takeWhile_append_of_stops hletters hrest, dropWhile_append_of_stops hletters hrest]
  | @digits c figures rest hc hfigures hrest =>
    obtain ⟨hblank, hnewline, hbrace⟩ := not_layout_of (p := Text.isDigit) (by decide) hc
    refine ⟨c, figures ++ rest, rfl, ?_⟩
    simp only [first, hblank, hnewline, hbrace, isAlpha_of_isDigit hc, hc, Bool.false_eq_true,
      if_false, if_true, takeWhile_append_of_stops hfigures hrest,
      dropWhile_append_of_stops hfigures hrest]
  | @mark m rest hrest =>
    cases m with
    | dot =>
      refine ⟨'.', rest, rfl, ?_⟩
      cases rest with
      | nil => rfl
      | cons d rest =>
        have hd : d ≠ '.' := by simpa using stops_cons.1 (hrest rfl)
        have hdigit : Text.isDigit '.' = false := by decide
        simp [first, isBlank, hdigit, hd, Mark.ofChar?]
    | _ => exact ⟨_, _, rfl, rfl⟩
  | @colon rest hrest =>
    refine ⟨':', rest, rfl, ?_⟩
    cases rest with
    | nil => rfl
    | cons d rest =>
      have hd : d ≠ '=' := by simpa using stops_cons.1 hrest
      have hdigit : Text.isDigit ':' = false := by decide
      simp [first, isBlank, hdigit, hd, Mark.ofChar?]
  | @brace rest hrest =>
    refine ⟨'\x7b', rest, rfl, ?_⟩
    rw [first_brace, splitBefore_of_notMem hrest]
  | @stray c rest hc =>
    have hdot : c ≠ '.' := fun heq => hc.mark .dot (heq ▸ rfl)
    have hcolon : c ≠ ':' := fun heq => hc.mark .assign (heq ▸ rfl)
    refine ⟨c, rest, rfl, ?_⟩
    simp [first, hc.blank, hc.newline, hc.brace, hc.letter, hc.digit, hdot, hcolon,
      ofChar?_of_stray hc]

/-- But for the colon, the first character of a mark is a mark on its own. -/
theorem ofChar?_ne_none_of_head? {m : Mark} {c : Char} (h : m.text.toList.head? = some c)
    (hc : c ≠ ':') : Mark.ofChar? c ≠ none := by
  cases m with
  | assign => exact absurd (Option.some.inj h).symm hc
  | _ =>
    cases h
    decide

/-- The lexeme that is read fits. -/
theorem fits_first (c : Char) (cs : List Char) : (first c cs).1.Fits (first c cs).2 := by
  unfold first
  split
  · next hc => exact .blank hc
  next hblank =>
  split
  · exact .newlines (stops_dropWhile _ _)
  next hnewline =>
  split
  · next hc =>
    subst hc
    split
    · next body rest hsplit =>
      exact .comment (notMem_of_splitBefore hsplit)
    · next hsplit => exact .brace (notMem_of_splitBefore_eq_none hsplit)
  next hbrace =>
  split
  · next hc => exact .word hc (fun d hd => List.mem_takeWhile_imp hd) (stops_dropWhile _ _)
  next hletter =>
  split
  · next hc => exact .digits hc (fun d hd => List.mem_takeWhile_imp hd) (stops_dropWhile _ _)
  next hdigit =>
  split
  · exact .mark (by simp)
  · exact .mark (by simp)
  next hrange hassign =>
  split
  · next m hm =>
    refine .mark fun hdot => stops_beq fun others => hrange others ?_
    have hc : m.text.toList = [c] := Mark.toList_text_of_ofChar? hm
    rw [hdot] at hc
    exact (List.singleton_inj.1 hc).symm
  · next hm =>
    by_cases hc : c = ':'
    · subst hc
      exact .colon (stops_beq fun others => hassign others rfl)
    · exact .stray ⟨by simpa using hblank, hnewline, hbrace, by simpa using hletter,
        by simpa using hdigit, fun m hhead => ofChar?_ne_none_of_head? hhead hc hm⟩

/-- Only one lexeme fits at the front of a text. -/
theorem Fits.unique {x y : Lexeme} {rest rest' : List Char} (hx : x.Fits rest) (hy : y.Fits rest')
    (h : x.chars ++ rest = y.chars ++ rest') : x = y ∧ rest = rest' := by
  obtain ⟨c, cs, hchars, hfirst⟩ := first_of_fits hx
  obtain ⟨d, ds, hchars', hfirst'⟩ := first_of_fits hy
  obtain ⟨rfl, rfl⟩ := List.cons.inj (hchars.symm.trans (h.trans hchars'))
  exact Prod.mk.inj (hfirst.symm.trans hfirst')

/-- Which lexeme a character starts, for the characters where this depends on what follows. -/
structure Lookahead (c : Char) (cs : List Char) (x : Lexeme) : Prop where
  dot : c = '.' → (x = .mark .dot ↔ Stops (· == '.') cs)
  colon : c = ':' → (x = .illegal ':' ↔ Stops (· == '=') cs)
  brace : c = '\x7b' → (x = .illegal '\x7b' ↔ '\x7d' ∉ cs)

/-- The lexeme that fits is chosen by what follows. -/
theorem Fits.lookahead {x : Lexeme} {rest cs : List Char} {c : Char} (h : x.Fits rest)
    (heq : x.chars ++ rest = c :: cs) : Lookahead c cs x := by
  constructor
  · rintro rfl
    constructor
    · rintro rfl
      obtain rfl : rest = cs := (List.cons.inj heq).2
      cases h with
      | mark hrest => exact hrest rfl
    · intro hcs
      exact (h.unique (y := .mark .dot) (.mark fun _ => hcs) heq).1
  · rintro rfl
    constructor
    · rintro rfl
      obtain rfl : rest = cs := (List.cons.inj heq).2
      cases h with
      | colon hrest => exact hrest
      | stray hc => exact absurd rfl (hc.mark .assign)
    · intro hcs
      exact (h.unique (.colon hcs) heq).1
  · rintro rfl
    constructor
    · rintro rfl
      obtain rfl : rest = cs := (List.cons.inj heq).2
      cases h with
      | brace hrest => exact hrest
      | stray hc => exact absurd rfl hc.brace
    · intro hcs
      exact (h.unique (.brace hcs) heq).1

end Lexeme

/-! ## The cut -/

/-- A text as a row of lexemes, each of which fits in front of those that follow it. -/
structure Cut (cs : List Char) (xs : List Lexeme) : Prop where
  whole : xs.flatMap Lexeme.chars = cs
  fits : ∀ front x back, xs = front ++ x :: back → x.Fits (back.flatMap Lexeme.chars)

namespace Cut

theorem nil : Cut [] [] := ⟨rfl, by simp⟩

/-- A lexeme that fits in front of a text may be put in front of its cut. -/
theorem cons {x : Lexeme} {cs : List Char} {xs : List Lexeme} (hx : x.Fits cs) (h : Cut cs xs) :
    Cut (x.chars ++ cs) (x :: xs) where
  whole := by rw [List.flatMap_cons, h.whole]
  fits := by
    intro front y back heq
    cases front with
    | nil =>
      obtain ⟨rfl, rfl⟩ := List.cons.inj heq
      rwa [h.whole]
    | cons z front => exact h.fits front y back (List.cons.inj heq).2

theorem head {x : Lexeme} {cs : List Char} {xs : List Lexeme} (h : Cut cs (x :: xs)) :
    x.Fits (xs.flatMap Lexeme.chars) := h.fits [] x xs rfl

theorem tail {x : Lexeme} {cs : List Char} {xs : List Lexeme} (h : Cut cs (x :: xs)) :
    Cut (xs.flatMap Lexeme.chars) xs where
  whole := rfl
  fits := fun front y back heq => h.fits (x :: front) y back (heq ▸ rfl)

end Cut

/-- Reading a text starts with the lexeme that fits. -/
theorem lexemes_append {x : Lexeme} {rest : List Char} (h : x.Fits rest) :
    lexemes (x.chars ++ rest) = x :: lexemes rest := by
  obtain ⟨c, cs, hchars, hfirst⟩ := Lexeme.first_of_fits h
  rw [hchars, lexemes, hfirst]

/-- Reading cuts a text, and loses none of it. -/
theorem cut_lexemes (cs : List Char) : Cut cs (lexemes cs) := by
  fun_induction lexemes cs with
  | case1 => exact .nil
  | case2 c cs next ih =>
    have hcut : Cut (next.1.chars ++ next.2) (next.1 :: lexemes next.2) :=
      ih.cons (Lexeme.fits_first c cs)
    rwa [Lexeme.chars_first c cs] at hcut

/-- The lexemes of a text are the only row that the text can be cut into. -/
theorem cut_iff {cs : List Char} {xs : List Lexeme} : Cut cs xs ↔ xs = lexemes cs := by
  constructor
  · intro h
    induction xs generalizing cs with
    | nil =>
      rw [← h.whole, List.flatMap_nil, lexemes]
    | cons x xs ih =>
      rw [← h.whole, List.flatMap_cons, lexemes_append h.head, ← ih h.tail]
  · rintro rfl
    exact cut_lexemes cs

/-! ## Positions -/

namespace Position

/-- The position behind a text. Its line is one more than the text has line feeds, and its column
one more than it has characters behind the last of them. -/
def behind (cs : List Char) : Position :=
  ⟨1 + cs.count '\n', 1 + (cs.rtakeWhile (· != '\n')).length⟩

theorem behind_nil : behind [] = origin := rfl

/-- The position behind a text moves on character by character. -/
theorem step_behind (cs : List Char) (c : Char) : (behind cs).step c = behind (cs ++ [c]) := by
  by_cases h : c = '\n'
  · subst h
    simp [behind, step, List.count_append, Int.add_assoc]
  · simp [behind, step, List.count_append, h, Int.add_assoc]

theorem advance_behind (cs ds : List Char) : (behind cs).advance ds = behind (cs ++ ds) := by
  induction ds generalizing cs with
  | nil => rw [advance_nil, List.append_nil]
  | cons d ds ih => rw [advance_cons, step_behind, ih, List.append_assoc, List.singleton_append]

end Position

/-- The lexemes of a row, each at the position behind those ahead of it. -/
def placed (xs : List Lexeme) : List (Located Lexeme) :=
  (xs.inits.zip xs).map fun (ahead, x) => ⟨.behind (ahead.flatMap Lexeme.chars), x⟩

/-- Reading keeps count of the position as it goes; this is the position of each lexeme. -/
theorem locate_behind (front : List Char) (xs : List Lexeme) :
    locate (.behind front) xs =
      (xs.inits.zip xs).map fun (ahead, x) =>
        ⟨.behind (front ++ ahead.flatMap Lexeme.chars), x⟩ := by
  induction xs generalizing front with
  | nil => rfl
  | cons x xs ih =>
    rw [locate, Position.advance_behind, ih, List.inits_cons, List.zip_cons_cons, List.map_cons,
      List.zip_map_left, List.map_map]
    simp [Function.comp_def]

theorem locate_origin (xs : List Lexeme) : locate .origin xs = placed xs := by
  rw [← Position.behind_nil, locate_behind]
  rfl

theorem map_value_locate (p : Position) (xs : List Lexeme) :
    (locate p xs).map Located.value = xs := by
  induction xs generalizing p with
  | nil => rfl
  | cons x xs ih => rw [locate, List.map_cons, ih]

/-! ## Tokens and illegal characters -/

namespace Lexeme

/-- Whether a lexeme stands for a token. -/
def isToken : Lexeme → Bool
  | .word _ | .digits _ | .mark _ => true
  | .blank _ | .newlines _ | .comment _ | .illegal _ => false

/-- The token that a lexeme spells. A word is a keyword exactly if it is written like one, and a
number has the value of its digits to base ten. -/
inductive Spells : Lexeme → Token → Prop
  | keyword (k : Keyword) : Spells (.word k.text.toList) (.keyword k)
  | ident {letters : List Char} (h : ∀ k : Keyword, k.text ≠ String.ofList letters) :
      Spells (.word letters) (.ident (String.ofList letters))
  | number (figures : List Char) :
      Spells (.digits figures)
        (.number (Nat.ofDigits 10 (figures.reverse.map fun c => (Text.digitValue? c).getD 0)))
  | mark (m : Mark) : Spells (.mark m) (.mark m)

/-- The token that a lexeme spells, at the position of the lexeme. -/
def SpellsAt (x : Located Lexeme) (t : Located Token) : Prop :=
  t.pos = x.pos ∧ x.value.Spells t.value

/-- The notice of an illegal character. -/
def notice? (x : Located Lexeme) : Option Notice :=
  match x.value with
  | .illegal c => some (.illegal ⟨x.pos, c⟩)
  | _ => none

end Lexeme

/-- Digits of any script are read to base ten, the first one counting most. -/
theorem Text.decimalValue_eq (cs : List Char) :
    Text.decimalValue cs =
      Nat.ofDigits 10 (cs.reverse.map fun c => (Text.digitValue? c).getD 0) := by
  rw [Text.decimalValue, Nat.ofDigits_eq_foldr, List.foldr_map, List.foldr_reverse]
  simp [Nat.add_comm]

example : Text.decimalValue ['1', '٢', '३'] = 123 := by decide

theorem Keyword.ofText?_eq_none_iff {word : String} :
    Keyword.ofText? word = none ↔ ∀ k : Keyword, k.text ≠ word := by
  simp [Keyword.ofText?, Keyword.mem_all]

theorem Token.spells_ofWord (letters : List Char) :
    Lexeme.Spells (.word letters) (.ofWord (String.ofList letters)) := by
  cases h : Keyword.ofText? (String.ofList letters) with
  | none =>
    rw [Token.ofWord, h]
    exact .ident (Keyword.ofText?_eq_none_iff.1 h)
  | some k =>
    have htext : k.text = String.ofList letters := by simpa using List.find?_some h
    have hletters : letters = k.text.toList := by rw [htext, String.toList_ofList]
    rw [Token.ofWord, h, hletters]
    exact .keyword k

theorem Lexeme.meaning_digits {figures : List Char} (h : figures.length ≤ maxDigits) :
    (Lexeme.digits figures).meaning = .token (.number (Text.decimalValue figures)) := if_pos h

/-- A row of lexemes without a number that is too long. -/
def Bounded (xs : List Lexeme) : Prop :=
  ∀ figures, .digits figures ∈ xs → figures.length ≤ maxDigits

theorem bounded_cons {x : Lexeme} {xs : List Lexeme} :
    Bounded (x :: xs) ↔
      (∀ figures, x = .digits figures → figures.length ≤ maxDigits) ∧ Bounded xs := by
  constructor
  · intro h
    exact ⟨fun figures hx => h figures (hx ▸ List.mem_cons_self),
      fun figures hmem => h figures (List.mem_cons_of_mem _ hmem)⟩
  · rintro ⟨hx, hxs⟩ figures hmem
    rcases List.mem_cons.1 hmem with heq | hmem
    · exact hx figures heq.symm
    · exact hxs figures hmem

/-- Nothing of a text is left out of the listing, up to a number that is too long. -/
theorem Listing.ofMeanings_of_bounded (xs : List (Located Lexeme))
    (h : Bounded (xs.map Located.value)) :
    let listing := Listing.ofMeanings none (xs.map (·.map Lexeme.meaning))
    listing.broken = none ∧
      List.Forall₂ Lexeme.SpellsAt (xs.filter (·.value.isToken)) listing.tokens ∧
      listing.notices = xs.filterMap Lexeme.notice? := by
  induction xs with
  | nil => exact ⟨rfl, .nil, rfl⟩
  | cons x xs ih =>
    obtain ⟨hx, hxs⟩ := bounded_cons.1 h
    obtain ⟨hbroken, htokens, hnotices⟩ := ih hxs
    obtain ⟨p, lexeme⟩ := x
    cases lexeme with
    | blank c => exact ⟨hbroken, htokens, hnotices⟩
    | newlines extra => exact ⟨hbroken, htokens, hnotices⟩
    | comment body => exact ⟨hbroken, htokens, hnotices⟩
    | word letters => exact ⟨hbroken, htokens.cons ⟨rfl, Token.spells_ofWord letters⟩, hnotices⟩
    | digits figures =>
      have hmeaning := Lexeme.meaning_digits (hx figures rfl)
      simp only [List.map_cons, Located.map, hmeaning, Listing.ofMeanings]
      refine ⟨hbroken, .cons ⟨rfl, ?_⟩ htokens, hnotices⟩
      rw [Text.decimalValue_eq]
      exact .number figures
    | mark m => exact ⟨hbroken, htokens.cons ⟨rfl, .mark m⟩, hnotices⟩
    | illegal c => exact ⟨hbroken, htokens, congrArg (_ :: ·) hnotices⟩

theorem Listing.bounded_of_broken (xs : List (Located Lexeme))
    (h : (Listing.ofMeanings none (xs.map (·.map Lexeme.meaning))).broken = none) :
    Bounded (xs.map Located.value) := by
  induction xs with
  | nil => simp [Bounded]
  | cons x xs ih =>
    obtain ⟨p, lexeme⟩ := x
    rw [List.map_cons, bounded_cons]
    cases lexeme with
    | digits figures =>
      by_cases hlength : figures.length ≤ maxDigits
      · have hmeaning := Lexeme.meaning_digits hlength
        simp only [List.map_cons, Located.map, hmeaning, Listing.ofMeanings] at h
        refine ⟨?_, ih h⟩
        rintro _ ⟨⟩
        exact hlength
      · have hmeaning : (Lexeme.digits figures).meaning = .overlong figures.length :=
          if_neg hlength
        simp only [List.map_cons, Located.map, hmeaning, Listing.ofMeanings] at h
        cases h
    | _ => exact ⟨by simp, ih h⟩

/-- A text can be cut into lexemes in exactly one way that follows the rules, and its listing is
told by the cut. It breaks off only at a number that is too long. Otherwise its tokens are those of
the words, numbers and marks, and its notices those of the illegal characters, in order and at their
positions. -/
theorem listTokens_of_cut (text : String) :
    (∃! xs, Cut text.toList xs) ∧
    ∀ xs, Cut text.toList xs →
      (∀ x ∈ xs, x.chars ≠ []) ∧
      (∀ front x back c cs, xs = front ++ x :: back →
        (x :: back).flatMap Lexeme.chars = c :: cs → Lexeme.Lookahead c cs x) ∧
      ((listTokens text none).broken = none ↔ Bounded xs) ∧
      (Bounded xs →
        List.Forall₂ Lexeme.SpellsAt ((placed xs).filter (·.value.isToken))
          (listTokens text none).tokens ∧
        (listTokens text none).notices = (placed xs).filterMap Lexeme.notice?) := by
  refine ⟨⟨lexemes text.toList, cut_lexemes _, fun xs h => cut_iff.1 h⟩, fun xs h => ?_⟩
  obtain rfl := cut_iff.1 h
  have hvalues := map_value_locate .origin (lexemes text.toList)
  have hlisting := Listing.ofMeanings_of_bounded (scan text.toList)
  have hbounded := Listing.bounded_of_broken (scan text.toList)
  rw [scan, hvalues] at hlisting hbounded
  refine ⟨fun x => chars_ne_nil_of_mem_lexemes, ?_, ⟨hbounded, fun hb => (hlisting hb).1⟩,
    fun hb => ?_⟩
  · intro front x back c cs hsplit hchars
    exact (h.fits front x back hsplit).lookahead hchars
  · rw [← locate_origin]
    exact (hlisting hb).2

/-- A comment with a line feed, three dots, a digit of another script, a colon without an equals
sign and a brace that is never closed. -/
def oddText : String := "of1\x7b\n\x7d...٣:\n\x7b"

/-- The lexemes of this text. -/
def oddLexemes : List Lexeme :=
  [.word ['o', 'f', '1'], .comment ['\n'], .mark .range, .mark .dot, .digits ['٣'], .illegal ':',
    .newlines 0, .illegal '\x7b']

theorem oddText_listTokens :
    Cut oddText.toList oddLexemes ∧ Bounded oddLexemes ∧
      (listTokens oddText none).broken = none ∧
      List.Forall₂ Lexeme.SpellsAt
        [⟨⟨1, 1⟩, .word ['o', 'f', '1']⟩, ⟨⟨2, 2⟩, .mark .range⟩, ⟨⟨2, 4⟩, .mark .dot⟩,
          ⟨⟨2, 5⟩, .digits ['٣']⟩] (listTokens oddText none).tokens ∧
      (listTokens oddText none).notices = [.illegal ⟨⟨2, 6⟩, ':'⟩, .illegal ⟨⟨3, 1⟩, '\x7b'⟩] := by
  have hcut : Cut oddText.toList oddLexemes := cut_iff.2 (by decide +kernel)
  have hbounded : Bounded oddLexemes := by
    intro figures hmem
    have hfigures : figures = ['٣'] := by simpa [oddLexemes] using hmem
    rw [hfigures]
    decide
  have hplaced : (placed oddLexemes).filter (·.value.isToken) =
      [⟨⟨1, 1⟩, .word ['o', 'f', '1']⟩, ⟨⟨2, 2⟩, .mark .range⟩, ⟨⟨2, 4⟩, .mark .dot⟩,
        ⟨⟨2, 5⟩, .digits ['٣']⟩] := by with_unfolding_all rfl
  obtain ⟨-, -, hbroken, hlisted⟩ := (listTokens_of_cut oddText).2 oddLexemes hcut
  obtain ⟨htokens, hnotices⟩ := hlisted hbounded
  exact ⟨hcut, hbounded, hbroken.2 hbounded, hplaced ▸ htokens,
    hnotices.trans (by with_unfolding_all rfl)⟩

end SnlFront
