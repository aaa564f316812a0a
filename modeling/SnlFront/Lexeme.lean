import SnlFront.Text.DecimalDigit
import SnlFront.Token

/-!
# Lexemes

A source text is cut into lexemes, the shortest pieces with a meaning of their own: blanks, runs of
line feeds, comments, words, runs of digits, marks, and single characters that nothing else
explains. The cut is total, so that the texts of the lexemes of a source, one after the other, are
the source again; the illegal characters are lexemes like the others.

## Main definitions

* `Lexeme.first`: the lexeme at the front of a text and what follows it.
* `lexemes`: all lexemes of a text.
* `locate`: the position of each lexeme.
* `Lexeme.meaning`: what a lexeme stands for: nothing, a token, or a fault.

## Main statements

* `Lexeme.chars_first`: no character is lost or read twice.
-/

namespace SnlFront

/-- A piece of source text. -/
inductive Lexeme
  /-- A space, a tab or a carriage return. -/
  | blank (c : Char)
  /-- A run of line feeds, one more than `extra`. -/
  | newlines (extra : Nat)
  /-- The text between an opening brace and the first closing brace after it. -/
  | comment (body : List Char)
  /-- A letter followed by letters and digits, as many as there are. -/
  | word (letters : List Char)
  /-- Decimal digits, as many as there are. -/
  | digits (figures : List Char)
  | mark (mark : Mark)
  /-- A character that starts nothing. -/
  | illegal (c : Char)
deriving DecidableEq, Repr

namespace Lexeme

/-- The characters of a lexeme. -/
def chars : Lexeme → List Char
  | .blank c => [c]
  | .newlines extra => List.replicate (extra + 1) '\n'
  | .comment body => '\x7b' :: body ++ ['\x7d']
  | .word letters => letters
  | .digits figures => figures
  | .mark m => m.text.toList
  | .illegal c => [c]

/-- Whether a character is passed over between lexemes. -/
def isBlank (c : Char) : Bool := c == ' ' || c == '\t' || c == '\r'

/-- Whether a character may follow the first letter of a word. -/
def inWord (c : Char) : Bool := c.isAlphanum

/-- Read what stands before the first character that satisfies `p`, if there is one, and what
follows that character. -/
def splitBefore (p : Char → Bool) (cs : List Char) : Option (List Char × List Char) :=
  match cs.dropWhile fun c => !p c with
  | [] => none
  | _ :: rest => some (cs.takeWhile fun c => !p c, rest)

/-- The lexeme at the front of the nonempty text `c :: cs`, and the text after it. An opening brace
that is never closed starts no comment, and a colon without an equals sign is no mark. -/
def first (c : Char) (cs : List Char) : Lexeme × List Char :=
  if isBlank c then (.blank c, cs)
  else if c = '\n' then (.newlines (cs.takeWhile (· == '\n')).length, cs.dropWhile (· == '\n'))
  else if c = '\x7b' then
    match splitBefore (· == '\x7d') cs with
    | some (body, rest) => (.comment body, rest)
    | none => (.illegal c, cs)
  else if c.isAlpha then (.word (c :: cs.takeWhile inWord), cs.dropWhile inWord)
  else if Text.isDigit c then
    (.digits (c :: cs.takeWhile Text.isDigit), cs.dropWhile Text.isDigit)
  else
    match c, cs with
    | '.', '.' :: rest => (.mark .range, rest)
    | ':', '=' :: rest => (.mark .assign, rest)
    | _, _ =>
      match Mark.ofChar? c with
      | some m => (.mark m, cs)
      | none => (.illegal c, cs)

theorem append_of_splitBefore {p : Char → Bool} {cs body rest : List Char}
    (h : splitBefore p cs = some (body, rest)) : ∃ c, p c = true ∧ cs = body ++ c :: rest := by
  unfold splitBefore at h
  split at h
  · cases h
  · next c rest' hdrop =>
    simp only [Option.some.injEq, Prod.mk.injEq] at h
    obtain ⟨rfl, rfl⟩ := h
    refine ⟨c, ?_, ?_⟩
    · have := List.head?_dropWhile_not (fun c => !p c) cs
      simpa [hdrop] using this
    · rw [← hdrop, List.takeWhile_append_dropWhile]

private theorem eq_replicate_takeWhile (c : Char) (cs : List Char) :
    List.replicate (cs.takeWhile (· == c)).length c = cs.takeWhile (· == c) := by
  rw [eq_comm, List.eq_replicate_iff]
  refine ⟨rfl, fun d hd => ?_⟩
  simpa using List.all_eq_true.1 (List.all_takeWhile (p := (· == c)) (l := cs)) d hd

/-- The front lexeme and the text after it make up the whole text. -/
theorem chars_first (c : Char) (cs : List Char) :
    (first c cs).1.chars ++ (first c cs).2 = c :: cs := by
  unfold first
  split
  · rfl
  split
  · next h =>
    subst h
    simp only [chars, List.replicate_succ, List.cons_append, eq_replicate_takeWhile,
      List.takeWhile_append_dropWhile]
  split
  · next h =>
    split
    · next body rest hsplit =>
      obtain ⟨d, hd, hcs⟩ := append_of_splitBefore hsplit
      have hd : d = '\x7d' := by simpa using hd
      simp [chars, h, hcs, hd]
    · rfl
  split
  · simp [chars, List.takeWhile_append_dropWhile]
  split
  · simp [chars, List.takeWhile_append_dropWhile]
  split
  · rfl
  · rfl
  · split
    · next m hm => simp [chars, Mark.toList_text_of_ofChar? hm]
    · rfl

/-- The front lexeme has at least one character. -/
theorem chars_first_ne_nil (c : Char) (cs : List Char) : (first c cs).1.chars ≠ [] := by
  unfold first
  repeat' split
  all_goals simp only [chars, List.replicate_succ, Mark.toList_text_ne_nil, ne_eq, reduceCtorEq,
    not_false_eq_true, List.cons_append]

/-- Reading a lexeme makes the text shorter. -/
theorem length_first_lt (c : Char) (cs : List Char) :
    (first c cs).2.length < (c :: cs).length := by
  have whole := congrArg List.length (chars_first c cs)
  have some_read := List.length_pos_iff.2 (chars_first_ne_nil c cs)
  rw [List.length_append] at whole
  omega

end Lexeme

/-- The lexemes of a text, in order. -/
def lexemes : List Char → List Lexeme
  | [] => []
  | c :: cs =>
    let next := Lexeme.first c cs
    next.1 :: lexemes next.2
termination_by cs => cs.length
decreasing_by exact Lexeme.length_first_lt c cs

/-- Give each lexeme the position of its first character. -/
def locate (p : Position) : List Lexeme → List (Located Lexeme)
  | [] => []
  | x :: xs => ⟨p, x⟩ :: locate (p.advance x.chars) xs

/-- The located lexemes of a source text. -/
def scan (cs : List Char) : List (Located Lexeme) := locate .origin (lexemes cs)

/-- The longest number that is read, counted in digits with leading zeros. -/
def maxDigits : Nat := 4300

/-- What a lexeme stands for. -/
inductive Meaning
  /-- Layout: it separates tokens and stands for nothing. -/
  | layout
  | token (t : Token)
  | illegal (c : Char)
  /-- A number with more digits than are read. -/
  | overlong (digits : Nat)
deriving DecidableEq, Repr

/-- What a lexeme stands for. -/
def Lexeme.meaning : Lexeme → Meaning
  | .blank _ | .newlines _ | .comment _ => .layout
  | .word letters => .token (.ofWord (String.ofList letters))
  | .digits figures =>
    if figures.length ≤ maxDigits then .token (.number (Text.decimalValue figures))
    else .overlong figures.length
  | .mark m => .token (.mark m)
  | .illegal c => .illegal c

end SnlFront
