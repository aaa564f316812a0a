import SnlFront.Datum
import SnlFront.Proofs.Text.Escapes
import SnlFront.Proofs.Ty.Readability

/-!
# The text of a datum tells the datum

The first character of a text tells what kind of datum it shows. Names and texts end at their
closing quote, numbers where a comma or a line end follows, and the parts of a list or a node where
no comma follows. So the text of a datum can be read in one way only.

## Main definitions

* `Datum.Form`, `Datum.form`: the kinds of data that the first character tells apart.

## Main statements

* `Datum.chars_append_inj`: the text of a datum ends where it ends, whatever follows it.
* `Datum.render_inj`: data with the same text are equal.
-/

namespace SnlFront.Datum

/-! ## The first character -/

/-- The kinds of data that can be told from the first character. -/
inductive Form
  | null
  | flag (value : Bool)
  | number
  | text
  | list
  | node

/-- The kind of a datum. -/
def form : Datum → Form
  | .null => .null
  | .flag value => .flag value
  | .int _ => .number
  | .text _ => .text
  | .list _ => .list
  | .node _ _ => .node

/-- The kind of datum whose text begins with a character. -/
def Form.ofChar (c : Char) : Form :=
  if c = 'n' then .null
  else if c = 't' then .flag true
  else if c = 'f' then .flag false
  else if c = '"' then .text
  else if c = '[' then .list
  else if c = '\x7b' then .node
  else .number

/-- No character of a number starts anything else. -/
theorem Form.ofChar_of_mem_int {i : Int} {c : Char} (h : c ∈ (toString i).toList) :
    ofChar c = .number := by
  have hplain : ∀ d ∈ ['n', 't', 'f', '"', '[', '\x7b'], d.isDigit = false ∧ d ≠ '-' := by
    simp [Char.isDigit]
  have hne : ∀ d ∈ ['n', 't', 'f', '"', '[', '\x7b'], c ≠ d := by
    rintro d hd rfl
    exact notMem_repr_int (hplain c hd).1 (hplain c hd).2 i h
  simp only [List.forall_mem_cons] at hne
  simp [ofChar, hne]

theorem toList_int_ne_nil (i : Int) : (toString i).toList ≠ [] := by
  change i.repr.toList ≠ []
  rw [toList_repr_int]
  split
  · exact Nat.toDigits_ne_nil
  · exact List.cons_ne_nil _ _

/-- The first character of a text tells the kind of the datum. -/
theorem exists_chars_eq_cons (depth : Nat) (d : Datum) :
    ∃ c rest, d.chars depth = c :: rest ∧ Form.ofChar c = d.form := by
  cases d with
  | null => exact ⟨_, _, by rw [chars]; rfl, rfl⟩
  | flag value => cases value <;> exact ⟨_, _, by rw [chars]; rfl, rfl⟩
  | int value =>
    obtain ⟨c, rest, htext⟩ := List.exists_cons_of_ne_nil (toList_int_ne_nil value)
    rw [chars]
    exact ⟨c, rest, htext, Form.ofChar_of_mem_int (htext ▸ List.mem_cons_self)⟩
  | text value => exact ⟨_, _, by rw [chars]; rfl, rfl⟩
  | list items =>
    cases items with
    | nil => exact ⟨'[', [']'], by rw [chars], rfl⟩
    | cons item items => exact ⟨_, _, by rw [chars]; rfl, rfl⟩
  | node kind fields => exact ⟨_, _, by rw [chars]; rfl, rfl⟩

/-- Two data that start with the same text are of the same kind. -/
theorem form_eq_of_chars {depth : Nat} {d e : Datum} {r r' : List Char}
    (h : d.chars depth ++ r = e.chars depth ++ r') : d.form = e.form := by
  obtain ⟨c, rest, hd, hc⟩ := exists_chars_eq_cons depth d
  obtain ⟨c', rest', he, hc'⟩ := exists_chars_eq_cons depth e
  rw [hd, he] at h
  rw [← hc, ← hc', (List.cons.inj h).1]

/-! ## Parts -/

/-- The characters that may stand behind a datum. -/
def separators : List Char := [',', '\n']

/-- A text that goes on as it may behind a datum. -/
def Separated (rest : List Char) : Prop := ∃ c ∈ separators, ∃ more, rest = c :: more

theorem separated_newline (rest : List Char) : Separated ('\n' :: rest) :=
  ⟨'\n', by decide, rest, rfl⟩

theorem separated_moreItems {rest : List Char} (h : Separated rest) (depth : Nat)
    (items : List Datum) : Separated (moreItems depth items ++ rest) := by
  cases items with
  | nil => simpa [moreItems] using h
  | cons item items => exact ⟨',', by decide, _, by rw [moreItems]; rfl⟩

theorem separated_moreFields {rest : List Char} (h : Separated rest) (depth : Nat)
    (fields : List (String × Datum)) : Separated (moreFields depth fields ++ rest) := by
  cases fields with
  | nil => simpa [moreFields] using h
  | cons field fields => exact ⟨',', by decide, _, by rw [moreFields]; rfl⟩

/-- A number ends where its digits end, since no digit may stand behind a datum. -/
theorem int_append_inj {i j : Int} {r r' : List Char} (hr : Separated r) (hr' : Separated r')
    (h : (toString i).toList ++ r = (toString j).toList ++ r') : i = j ∧ r = r' := by
  obtain ⟨c, hc, more, rfl⟩ := hr
  obtain ⟨c', hc', more', rfl⟩ := hr'
  have hplain : ∀ d ∈ separators, d.isDigit = false ∧ d ≠ '-' := by
    simp [separators, Char.isDigit]
  obtain ⟨htext, rfl, rfl⟩ := eq_of_append_cons
    (notMem_repr_int (hplain c' hc').1 (hplain c' hc').2 i)
    (notMem_repr_int (hplain c hc).1 (hplain c hc).2 j) h
  exact ⟨repr_int_inj htext, rfl⟩

/-- A text ends where it ends, whatever follows it. -/
theorem text_append_inj {s t : String} {r r' : List Char}
    (h : Text.escaped s.toList ++ r = Text.escaped t.toList ++ r') : s = t ∧ r = r' := by
  obtain ⟨htext, hrest⟩ := Text.escaped_append_inj h
  exact ⟨String.toList_injective htext, hrest⟩

theorem fieldName_append_inj {name other : String} {r r' : List Char}
    (h : fieldName name ++ r = fieldName other ++ r') : name = other ∧ r = r' := by
  rw [fieldName, fieldName, List.append_assoc, List.append_assoc] at h
  obtain ⟨hname, hrest⟩ := text_append_inj h
  exact ⟨hname, by simpa using hrest⟩

/-! ## Data -/

mutual

/-- The text of a datum tells the datum and where it ends. -/
theorem chars_append_inj (depth : Nat) {r r' : List Char} (hr : Separated r)
    (hr' : Separated r') :
    (d e : Datum) → d.chars depth ++ r = e.chars depth ++ r' → d = e ∧ r = r'
  | .null, e, h => by
    have hform := form_eq_of_chars h
    cases e <;> cases hform
    simpa using h
  | .flag value, e, h => by
    have hform := form_eq_of_chars h
    cases e <;> cases hform
    simpa using h
  | .int value, e, h => by
    have hform := form_eq_of_chars h
    cases e <;> cases hform
    next other =>
      rw [chars, chars] at h
      obtain ⟨rfl, hrest⟩ := int_append_inj hr hr' h
      exact ⟨rfl, hrest⟩
  | .text value, e, h => by
    have hform := form_eq_of_chars h
    cases e <;> cases hform
    next other =>
      rw [chars, chars] at h
      obtain ⟨rfl, hrest⟩ := text_append_inj h
      exact ⟨rfl, hrest⟩
  | .list [], e, h => by
    have hform := form_eq_of_chars h
    cases e <;> cases hform
    next others =>
      cases others with
      | nil => simpa using h
      | cons other others => simp [chars, newline] at h
  | .list (item :: items), e, h => by
    have hform := form_eq_of_chars h
    cases e <;> cases hform
    next others =>
      cases others with
      | nil => simp [chars, newline] at h
      | cons other others =>
        rw [chars, chars] at h
        simp only [List.cons_append, List.append_assoc, List.cons.injEq, true_and,
          List.append_cancel_left_eq] at h
        obtain ⟨rfl, htail⟩ := chars_append_inj (depth + 1)
          (separated_moreItems (separated_newline _) _ items)
          (separated_moreItems (separated_newline _) _ others) item other h
        obtain ⟨rfl, hend⟩ := moreItems_append_inj (depth + 1) items others htail
        exact ⟨rfl, by simpa using hend⟩
  | .node kind fields, e, h => by
    have hform := form_eq_of_chars h
    cases e <;> cases hform
    next kind' fields' =>
      rw [chars, chars] at h
      simp only [List.cons_append, List.append_assoc, List.cons.injEq, true_and,
        List.append_cancel_left_eq] at h
      obtain ⟨rfl, htail⟩ := text_append_inj h
      obtain ⟨rfl, hend⟩ := moreFields_append_inj (depth + 1) fields fields' htail
      exact ⟨rfl, by simpa using hend⟩

/-- The items behind the first are told by their text; the closing bracket stands on a line of its
own. -/
theorem moreItems_append_inj (depth : Nat) {r r' : List Char} :
    (items others : List Datum) →
      moreItems depth items ++ '\n' :: r = moreItems depth others ++ '\n' :: r' →
      items = others ∧ r = r'
  | [], [], h => by simpa [moreItems] using h
  | [], _ :: _, h => by simp [moreItems] at h
  | _ :: _, [], h => by simp [moreItems] at h
  | item :: items, other :: others, h => by
    rw [moreItems, moreItems] at h
    simp only [List.cons_append, List.append_assoc, List.cons.injEq, true_and,
      List.append_cancel_left_eq] at h
    obtain ⟨rfl, htail⟩ := chars_append_inj depth
      (separated_moreItems (separated_newline _) _ items)
      (separated_moreItems (separated_newline _) _ others) item other h
    obtain ⟨rfl, hrest⟩ := moreItems_append_inj depth items others htail
    exact ⟨rfl, hrest⟩

/-- The fields of a node are told by their text. -/
theorem moreFields_append_inj (depth : Nat) {r r' : List Char} :
    (fields others : List (String × Datum)) →
      moreFields depth fields ++ '\n' :: r = moreFields depth others ++ '\n' :: r' →
      fields = others ∧ r = r'
  | [], [], h => by simpa [moreFields] using h
  | [], (_, _) :: _, h => by simp [moreFields] at h
  | (_, _) :: _, [], h => by simp [moreFields] at h
  | (name, value) :: fields, (name', value') :: others, h => by
    rw [moreFields, moreFields] at h
    simp only [List.cons_append, List.append_assoc, List.cons.injEq, true_and,
      List.append_cancel_left_eq] at h
    obtain ⟨rfl, hvalue⟩ := fieldName_append_inj h
    obtain ⟨rfl, htail⟩ := chars_append_inj depth
      (separated_moreFields (separated_newline _) _ fields)
      (separated_moreFields (separated_newline _) _ others) value value' hvalue
    obtain ⟨rfl, hrest⟩ := moreFields_append_inj depth fields others htail
    exact ⟨rfl, hrest⟩

end

/-- Data with the same text are equal. -/
theorem render_inj {d e : Datum} (h : d.render = e.render) : d = e := by
  have hchars : d.chars 0 = e.chars 0 := String.ofList_injective h
  have hend := separated_newline []
  exact (chars_append_inj 0 hend hend d e (by rw [hchars])).1

end SnlFront.Datum
