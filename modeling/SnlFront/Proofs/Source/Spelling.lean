import SnlFront.Proofs.Source.Separation

/-!
# Writing tokens

Tokens that are written one after the other are read back, with any layout between them. Two tokens
may also stand right behind each other, unless the first one would go on into the second: a word
goes on with letters and digits, a number with digits, and a dot with another dot. A number may be
followed by a word at once, and so may two dots by a dot.

## Main definitions

* `Token.Writable`: a token that has a spelling of its own.
* `Token.lexeme`: the lexeme that a token is written as.
* `Token.clings`: whether something has to stand between two tokens.
* `Spelled`: tokens and a text in which they are written.

## Main statements

* `Text.decimalValue_toDigits`: a number that is written in digits has its own value.
* `Token.fits_lexeme`: a written token ends where nothing goes on with it.
* `Token.stops_text`: tokens that do not cling to each other are kept apart.
* `listTokens_of_spelled`: tokens are read back.
-/

namespace SnlFront

/-! ## Numbers -/

theorem Text.digitValue?_of_isDigit {c : Char} (h : c.isDigit = true) :
    Text.digitValue? c = some (c.toNat - '0'.toNat) := by
  have hrange : 0x30 ≤ c.toNat ∧ c.toNat < 0x30 + 10 := by
    simp only [Char.isDigit, ge_iff_le, Bool.and_eq_true, decide_eq_true_eq,
      UInt32.le_iff_toNat_le] at h
    have h0 : '0'.val.toNat = 48 := rfl
    have h9 : '9'.val.toNat = 57 := rfl
    simp only [Char.toNat]
    omega
  rw [Text.digitValue?, Text.zeroDigits, List.find?_cons_of_pos (by simpa using hrange)]
  rfl

/-- A number that is written in digits has its own value. -/
theorem Text.decimalValue_toDigits (n : Nat) : Text.decimalValue (Nat.toDigits 10 n) = n := by
  have hdigits : ∀ c ∈ Nat.toDigits 10 n, (Text.digitValue? c).getD 0 = c.toNat - '0'.toNat := by
    intro c hc
    have hdigit := Nat.isDigit_of_mem_toDigits (by decide) (by decide) hc
    rw [Text.digitValue?_of_isDigit hdigit, Option.getD_some]
  calc Text.decimalValue (Nat.toDigits 10 n)
      = Nat.ofDigitChars 10 (Nat.toDigits 10 n) 0 :=
        List.foldl_ext _ _ _ fun value c hc => by rw [hdigits c hc]
    _ = n := Nat.ofDigitChars_ten_toDigits

/-! ## Tokens as lexemes -/

namespace Token

/-- A token that has a spelling of its own: an identifier is a word that is not reserved, and a
number is not too long to be read. -/
def Writable : Token → Prop
  | .ident name => isIdentifier name = true ∧ ∀ k : Keyword, k.text ≠ name
  | .number n => n < 10 ^ maxDigits
  | .keyword _ | .mark _ => True

/-- The lexeme that a token is written as. -/
def lexeme : Token → Lexeme
  | .ident name => .word name.toList
  | .number n => .digits (Nat.toDigits 10 n)
  | .keyword k => .word k.text.toList
  | .mark m => .mark m

theorem chars_lexeme (t : Token) : t.lexeme.chars = t.text.toList := by
  cases t with
  | number n => simp [lexeme, Lexeme.chars, text]
  | ident | keyword | mark => rfl

theorem meaning_lexeme {t : Token} (h : t.Writable) : t.lexeme.meaning = .token t := by
  cases t with
  | ident name =>
    have hnone : Keyword.ofText? name = none := Keyword.ofText?_eq_none_iff.2 h.2
    simp [lexeme, Lexeme.meaning, ofWord, hnone]
  | number n =>
    have hlength : (Nat.toDigits 10 n).length ≤ maxDigits :=
      Nat.toDigits_length 10 n maxDigits (by decide) h
    rw [lexeme, Lexeme.meaning_digits hlength, Text.decimalValue_toDigits]
  | keyword k =>
    have hsome : Keyword.ofText? k.text = some k := by cases k <;> rfl
    simp [lexeme, Lexeme.meaning, ofWord, hsome]
  | mark m => rfl

/-! ## Where a token ends -/

/-- Whether a token is a word, reserved or not. -/
def isWord : Token → Bool
  | .ident _ | .keyword _ => true
  | .number _ | .mark _ => false

/-- Whether a token is a number. -/
def isNumber : Token → Bool
  | .number _ => true
  | .ident _ | .keyword _ | .mark _ => false

/-- Whether something has to stand between two tokens. -/
def clings (t u : Token) : Bool :=
  t.isWord && (u.isWord || u.isNumber) || t.isNumber && u.isNumber ||
    t == .mark .dot && (u == .mark .dot || u == .mark .range)

/-- The characters that a token goes on with. -/
def goesOn : Token → Char → Bool
  | .ident _ | .keyword _ => Lexeme.inWord
  | .number _ => Text.isDigit
  | .mark .dot => (· == '.')
  | .mark _ => fun _ => false

/-- The letters of a word. -/
theorem exists_letters {t : Token} (h : t.Writable) (ht : t.isWord = true) :
    ∃ c letters, t.text.toList = c :: letters ∧ c.isAlpha = true ∧
      ∀ d ∈ letters, Lexeme.inWord d = true := by
  have hidentifier : isIdentifier t.text = true := by
    cases t with
    | ident name => exact h.1
    | keyword k => cases k <;> rfl
    | number | mark => cases ht
  unfold isIdentifier at hidentifier
  split at hidentifier
  · cases hidentifier
  · next c letters htext =>
    rw [Bool.and_eq_true, List.all_eq_true] at hidentifier
    exact ⟨c, letters, htext, hidentifier⟩

/-- The digits of a number. -/
theorem exists_figures (n : Nat) :
    ∃ c figures, Nat.toDigits 10 n = c :: figures ∧ ∀ d ∈ c :: figures, d.isDigit = true := by
  obtain ⟨c, figures, htext⟩ := List.exists_cons_of_ne_nil (Nat.toDigits_ne_nil (n := n) (b := 10))
  refine ⟨c, figures, htext, fun d hd => ?_⟩
  rw [← htext] at hd
  exact Nat.isDigit_of_mem_toDigits (by decide) (by decide) hd

theorem isDigit_of_isDigit {c : Char} (h : c.isDigit = true) : Text.isDigit c = true := by
  rw [Text.isDigit, Text.digitValue?_of_isDigit h, Option.isSome_some]

/-- A written token ends where the text does not go on with it. -/
theorem fits_lexeme {t : Token} (h : t.Writable) {rest : List Char} (hrest : Stops t.goesOn rest) :
    t.lexeme.Fits rest := by
  have hword : ∀ word : t.isWord = true, Stops Lexeme.inWord rest →
      Lexeme.Fits (.word t.text.toList) rest := by
    intro word hstops
    obtain ⟨c, letters, htext, hc, hletters⟩ := exists_letters h word
    rw [htext]
    exact .word hc hletters hstops
  cases t with
  | ident name => exact hword rfl hrest
  | keyword k => exact hword rfl hrest
  | number n =>
    obtain ⟨c, figures, hdigits, hall⟩ := exists_figures n
    have hfigures := fun d hd => isDigit_of_isDigit (hall d hd)
    rw [List.forall_mem_cons] at hfigures
    rw [lexeme, hdigits]
    exact .digits hfigures.1 hfigures.2 hrest
  | mark m =>
    refine .mark fun hdot => ?_
    rwa [hdot] at hrest

/-- A mark goes on with nothing, but for two dots. -/
theorem goesOn_mark {m : Mark} {c : Char} (h : m = .dot → c ≠ '.') : (mark m).goesOn c = false := by
  cases m with
  | dot => exact beq_eq_false_iff_ne.2 (h rfl)
  | _ => rfl

/-- No token goes on with layout. -/
theorem goesOn_layout (t : Token) : Lexeme.layoutStarts.any t.goesOn = false := by
  have hword : Lexeme.layoutStarts.any Lexeme.inWord = false := by decide
  have hnumber : Lexeme.layoutStarts.any Text.isDigit = false := by decide
  cases t with
  | ident | keyword => exact hword
  | number => exact hnumber
  | mark m => cases m <;> rfl

/-- No token but a word goes on with a letter. -/
theorem goesOn_letter {t : Token} (ht : t.isWord = false) {c : Char} (hc : c.isAlpha = true) :
    t.goesOn c = false := by
  cases t with
  | ident | keyword => cases ht
  | number n =>
    refine Bool.eq_false_iff.2 fun hdigit => ?_
    rw [Lexeme.isAlpha_of_isDigit hdigit] at hc
    cases hc
  | mark m =>
    refine goesOn_mark fun _ => ?_
    rintro rfl
    cases hc

/-- Only a dot goes on with a mark, and only with one that starts with a dot. -/
theorem goesOn_head {t : Token} {m : Mark} (h : t.clings (.mark m) = false) {c : Char}
    (hc : m.text.toList.head? = some c) : t.goesOn c = false := by
  have hplain : Lexeme.inWord c = false ∧ Text.isDigit c = false ∧
      (c = '.' → m = .dot ∨ m = .range) := by
    cases m <;>
    · cases hc
      decide
  obtain ⟨hword, hnumber, hdots⟩ := hplain
  cases t with
  | ident | keyword => exact hword
  | number => exact hnumber
  | mark n =>
    refine goesOn_mark fun hn heq => ?_
    subst hn
    rcases hdots heq with rfl | rfl
    · cases h
    · cases h

/-- Tokens that do not cling to each other are kept apart. -/
theorem stops_text {t u : Token} (h : t.clings u = false) (hu : u.Writable) (rest : List Char) :
    Stops t.goesOn (u.text.toList ++ rest) := by
  have hword : u.isWord = true → Stops t.goesOn (u.text.toList ++ rest) := by
    intro word
    have ht : t.isWord = false := by
      simp only [clings, word, Bool.true_or, Bool.and_true, Bool.or_eq_false_iff] at h
      exact h.1.1
    obtain ⟨c, letters, htext, hc, -⟩ := exists_letters hu word
    rw [htext]
    exact stops_cons.2 (goesOn_letter ht hc)
  cases u with
  | ident name => exact hword rfl
  | keyword k => exact hword rfl
  | number n =>
    obtain ⟨c, figures, hdigits, hall⟩ := exists_figures n
    have htext : (number n).text.toList = c :: figures := by
      rw [← hdigits, ← chars_lexeme]
      rfl
    rw [htext]
    cases t with
    | ident | keyword | number => cases h
    | mark m =>
      have hc := hall c List.mem_cons_self
      refine stops_cons.2 (goesOn_mark fun _ => ?_)
      rintro rfl
      cases hc
  | mark m =>
    obtain ⟨c, cs, htext⟩ := List.exists_cons_of_ne_nil m.toList_text_ne_nil
    have hhead : m.text.toList.head? = some c := by rw [htext, List.head?_cons]
    rw [text, htext]
    exact stops_cons.2 (goesOn_head h hhead)

end Token

/-! ## Texts -/

/-- Tokens and a text in which they are written one after the other. Between neighbours there is
layout, which may be missing unless they cling to each other. -/
inductive Spelled : List Token → List Char → Prop
  | nil : Spelled [] []
  | single {t : Token} (ht : t.Writable) : Spelled [t] t.text.toList
  | cons {t u : Token} {ts : List Token} {gap rest : List Char} (ht : t.Writable)
      (hgap : IsLayout gap) (hclings : t.clings u = true → gap ≠ [])
      (h : Spelled (u :: ts) rest) : Spelled (t :: u :: ts) (t.text.toList ++ gap ++ rest)

/-- A text in which tokens are written starts with the first of them. -/
theorem Spelled.head {t : Token} {ts : List Token} {cs : List Char} (h : Spelled (t :: ts) cs) :
    t.Writable ∧ ∃ rest, cs = t.text.toList ++ rest := by
  cases h with
  | single ht => exact ⟨ht, [], (List.append_nil _).symm⟩
  | cons ht => exact ⟨ht, _, List.append_assoc _ _ _⟩

/-- What a written token stands for, in front of a text that does not go on with it. -/
theorem substance_text {t : Token} (ht : t.Writable) {rest : List Char}
    (hrest : Stops t.goesOn rest) (p : Position) :
    substance p (t.text.toList ++ rest) =
      ⟨p, .token t⟩ :: substance (p.advance t.text.toList) rest := by
  have hmeaning := Token.meaning_lexeme ht
  rw [← Token.chars_lexeme, substance_cons (Token.fits_lexeme ht hrest) (by simp [hmeaning]),
    hmeaning]

/-- What written tokens stand for. -/
theorem Spelled.substance_eq {ts : List Token} {cs : List Char} (h : Spelled ts cs) (p : Position) :
    (substance p cs).map Located.value = ts.map Meaning.token := by
  induction h generalizing p with
  | nil =>
    rw [substance_nil]
    rfl
  | @single t ht =>
    have hread := substance_text ht (stops_nil _) p
    rw [List.append_nil, substance_nil] at hread
    rw [hread]
    rfl
  | @cons t u ts gap rest ht hgap hclings h ih =>
    have hstops : Stops t.goesOn (gap ++ rest) := by
      by_cases hempty : gap = []
      · -- Then the tokens are neighbours and do not cling to each other.
        have hfree : t.clings u = false := Bool.eq_false_iff.2 fun hc => hclings hc hempty
        obtain ⟨hu, others, hothers⟩ := h.head
        rw [hempty, List.nil_append, hothers]
        exact Token.stops_text hfree hu others
      · exact hgap.stops hempty t.goesOn_layout rest
    rw [List.append_assoc, substance_text ht hstops, List.map_cons, substance_layout hgap, ih]
    rfl

/-- A text that stands for tokens and nothing else is listed as these tokens. -/
theorem Listing.ofMeanings_of_tokens {xs : List (Located Meaning)} {ts : List Token}
    (h : xs.map Located.value = ts.map Meaning.token) :
    (Listing.ofMeanings none xs).tokens.map Located.value = ts ∧
      (Listing.ofMeanings none xs).notices = [] ∧ (Listing.ofMeanings none xs).broken = none := by
  induction xs generalizing ts with
  | nil =>
    rw [List.map_nil, eq_comm, List.map_eq_nil_iff] at h
    rw [h]
    exact ⟨rfl, rfl, rfl⟩
  | cons x xs ih =>
    cases ts with
    | nil => cases h
    | cons t ts =>
      obtain ⟨hx, hxs⟩ := List.cons.inj h
      obtain ⟨htokens, hnotices, hbroken⟩ := ih hxs
      obtain ⟨p, meaning⟩ := x
      obtain rfl : meaning = .token t := hx
      exact ⟨congrArg (t :: ·) htokens, hnotices, hbroken⟩

/-- Tokens that are written in a text are read back from it, and nothing is noted. -/
theorem listTokens_of_spelled {ts : List Token} {text : String} (h : Spelled ts text.toList) :
    (listTokens text none).tokens.map Located.value = ts ∧
      (listTokens text none).notices = [] ∧ (listTokens text none).broken = none := by
  rw [listTokens_eq_substance]
  exact Listing.ofMeanings_of_tokens (h.substance_eq .origin)

/-- Tokens that are written as close as they may be. -/
def closeTokens : List Token :=
  [.keyword .var, .ident "a1", .number 12, .ident "b", .mark .range, .mark .dot, .mark .assign,
    .mark .equal]

/-- A text in which these tokens are written. -/
def closeText : String := "var\ta1\x7b.\x7d12b...:=="

theorem listTokens_closeText :
    Spelled closeTokens closeText.toList ∧
      (listTokens closeText none).tokens.map Located.value = closeTokens ∧
      (listTokens closeText none).notices = [] ∧ (listTokens closeText none).broken = none := by
  have htext : closeText.toList = "var".toList ++ ['\t'] ++ ("a1".toList ++ ['\x7b', '.', '\x7d'] ++
      ("12".toList ++ [] ++ ("b".toList ++ [] ++ ("..".toList ++ [] ++ (".".toList ++ [] ++
        (":=".toList ++ [] ++ "=".toList)))))) := by decide
  have hblank : IsLayout ['\t'] := .single (by decide) .nil
  have hcomment : IsLayout ['\x7b', '.', '\x7d'] := @IsLayout.comment ['.'] [] (by decide) .nil
  have hnumber : (Token.number 12).Writable :=
    Nat.lt_of_lt_of_le (by decide : 12 < 10 ^ 2) (Nat.pow_le_pow_right (by decide) (by decide))
  have hident : ∀ name, isIdentifier name = true → Keyword.ofText? name = none →
      (Token.ident name).Writable :=
    fun name hname hnone => ⟨hname, Keyword.ofText?_eq_none_iff.1 hnone⟩
  have hspelled : Spelled closeTokens closeText.toList := by
    rw [htext]
    refine .cons trivial hblank (by decide) (.cons (hident "a1" (by decide) (by decide)) hcomment
      (by decide) (.cons hnumber .nil (by decide) (.cons (hident "b" (by decide) (by decide)) .nil
        (by decide) (.cons trivial .nil (by decide) (.cons trivial .nil (by decide)
          (.cons trivial .nil (by decide) (.single trivial)))))))
  exact ⟨hspelled, listTokens_of_spelled hspelled⟩

end SnlFront
