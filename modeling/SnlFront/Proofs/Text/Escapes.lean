import Mathlib.Algebra.Group.Nat.Defs
import SnlFront.Text.Escaped

/-!
# Escaped text can be read back

Every character is escaped in one of four ways: it stands for itself, or behind a backslash stands a
letter, a code unit, or a pair of code units. The first two characters tell the way, and a unit
always has four digits, so an escape ends where it ends, whatever follows it. A pair cannot be taken
for a single unit, because no character has a code point among the surrogates.

## Main definitions

* `Text.letters`: the characters that are escaped by a letter.
* `Text.Escape`: the four ways of escaping.

## Main statements

* `Text.hexDigits_inj`: padded hexadecimal digits tell the number.
* `Text.Escape.append_inj`: an escape tells its character and its end.
* `Text.escaped_append_inj`: so does a text between quotes.
-/

namespace SnlFront.Text

/-! ## Code units -/

theorem digitChar_inj {m n : Nat} (hm : m < 16) (hn : n < 16)
    (h : Nat.digitChar m = Nat.digitChar n) : m = n := by
  have hall : ∀ a < 16, ∀ b < 16, Nat.digitChar a = Nat.digitChar b → a = b := by decide
  exact hall m hm n hn h

/-- Padded digits are as many as the width says, if the number fits. -/
theorem length_hexDigits {width n : Nat} (hwidth : 0 < width) (hn : n < 16 ^ width) :
    (hexDigits width n).length = width := by
  have hfits : (Nat.toDigits 16 n).length ≤ width :=
    (Nat.length_toDigits_le_iff (by decide) hwidth).2 hn
  simp only [hexDigits, List.length_append, List.length_replicate]
  omega

/-- The last digit is the remainder, and the digits ahead of it are those of the quotient. -/
theorem hexDigits_succ (width n : Nat) :
    hexDigits (width + 2) n = hexDigits (width + 1) (n / 16) ++ [Nat.digitChar (n % 16)] := by
  by_cases hn : n < 16
  · have hquotient : n / 16 = 0 := by omega
    have hremainder : n % 16 = n := by omega
    rw [hquotient, hremainder]
    simp only [hexDigits, Nat.toDigits_of_lt_base hn, Nat.toDigits_zero, List.length_singleton,
      Nat.add_sub_cancel]
    exact congrArg (· ++ [Nat.digitChar n]) List.replicate_succ'
  · simp [hexDigits, Nat.toDigits_of_base_le (b := 16) (n := n) (by decide) (by omega)]

theorem hexDigits_inj {width m n : Nat} (hm : m < 16 ^ (width + 1)) (hn : n < 16 ^ (width + 1))
    (h : hexDigits (width + 1) m = hexDigits (width + 1) n) : m = n := by
  induction width generalizing m n with
  | zero =>
    have hm : m < 16 := by omega
    have hn : n < 16 := by omega
    simp only [hexDigits, Nat.toDigits_of_lt_base hm, Nat.toDigits_of_lt_base hn] at h
    exact digitChar_inj hm hn (by simpa using h)
  | succ width ih =>
    rw [hexDigits_succ, hexDigits_succ] at h
    obtain ⟨hquotient, hremainder⟩ := List.append_inj' h rfl
    rw [Nat.pow_succ] at hm hn
    have hq := ih (by omega) (by omega) hquotient
    have hr := digitChar_inj (Nat.mod_lt m (by decide)) (Nat.mod_lt n (by decide))
      (List.singleton_inj.1 hremainder)
    omega

/-- A unit has four digits, so it ends where it ends. -/
theorem escapeUnit_append_inj {m n : Nat} (hm : m < 0x10000) (hn : n < 0x10000)
    {r r' : List Char} (h : escapeUnit m ++ r = escapeUnit n ++ r') : m = n ∧ r = r' := by
  simp only [escapeUnit, List.cons_append, List.cons.injEq, true_and] at h
  have hlength : (hexDigits 4 m).length = (hexDigits 4 n).length := by
    rw [length_hexDigits (by decide) hm, length_hexDigits (by decide) hn]
  obtain ⟨hdigits, hrest⟩ := List.append_inj h hlength
  exact ⟨hexDigits_inj hm hn hdigits, hrest⟩

/-! ## Characters -/

/-- The characters that are escaped by a letter, with their letters. -/
def letters : List (Char × Char) :=
  [('"', '"'), ('\\', '\\'), ('\n', 'n'), ('\r', 'r'), ('\t', 't'), ('\x08', 'b'), ('\x0c', 'f')]

theorem letters_inj {c d l : Char} (hc : (c, l) ∈ letters) (hd : (d, l) ∈ letters) : c = d := by
  have hall : ∀ x ∈ letters, ∀ y ∈ letters, x.2 = y.2 → x.1 = y.1 := by decide
  exact hall _ hc _ hd rfl

theorem ne_of_mem_letters {c l : Char} (h : (c, l) ∈ letters) : l ≠ 'u' := by
  have hall : ∀ x ∈ letters, x.2 ≠ 'u' := by decide
  exact hall _ h

/-- The ways in which a character is escaped. -/
inductive Escape : Char → List Char → Prop
  | plain {c : Char} (hquote : c ≠ '"') (hslash : c ≠ '\\') : Escape c [c]
  | letter {c l : Char} (h : (c, l) ∈ letters) : Escape c ['\\', l]
  | unit {c : Char} (h : c.toNat < 0x10000) : Escape c (escapeUnit c.toNat)
  | pair {c : Char} {high low : Nat} (h : 0x10000 ≤ c.toNat)
      (hhigh : high = 0xd800 + (c.toNat - 0x10000) / 0x400)
      (hlow : low = 0xdc00 + (c.toNat - 0x10000) % 0x400) :
      Escape c (escapeUnit high ++ escapeUnit low)

/-- Every character is escaped in one of the four ways. -/
theorem escape_escapeChar (c : Char) : Escape c (escapeChar c) := by
  by_cases hmark : c = '"' ∨ c = '\\'
  · rw [escapeChar, if_pos hmark]
    rcases hmark with rfl | rfl
    · exact .letter (by decide)
    · exact .letter (by decide)
  rw [escapeChar, if_neg hmark]
  split
  · exact .plain (fun h => hmark (.inl h)) fun h => hmark (.inr h)
  split
  · next h => exact h ▸ .letter (by decide)
  split
  · next h => exact h ▸ .letter (by decide)
  split
  · next h => exact h ▸ .letter (by decide)
  split
  · next h => exact h ▸ .letter (by decide)
  split
  · next h => exact h ▸ .letter (by decide)
  split
  · next h => exact .unit h
  · next h => exact .pair (Nat.le_of_not_lt h) rfl rfl

theorem Escape.append_ne {c : Char} {t : List Char} (h : Escape c t) (r r' : List Char) :
    t ++ r ≠ '"' :: r' := by
  cases h with
  | plain hquote _ => simp [hquote]
  | letter _ => simp
  | unit _ | pair _ _ _ => simp [escapeUnit]

/-- No character has a code point among the surrogates. -/
theorem toNat_lt_or_gt (c : Char) : c.toNat < 0xd800 ∨ 0xdfff < c.toNat ∧ c.toNat < 0x110000 :=
  c.valid

/-- An escape tells its character and where it ends. -/
theorem Escape.append_inj {c d : Char} {t u r r' : List Char} (hc : Escape c t) (hd : Escape d u)
    (h : t ++ r = u ++ r') : c = d ∧ r = r' := by
  have hcode := toNat_lt_or_gt c
  have hcode' := toNat_lt_or_gt d
  cases hc with
  | plain _ hslash =>
    cases hd with
    | plain _ _ => simpa using h
    | letter _ | unit _ | pair _ _ _ => simp [escapeUnit, hslash] at h
  | letter hl =>
    cases hd with
    | plain _ hslash => simp [hslash.symm] at h
    | letter hl' =>
      simp only [List.cons_append, List.nil_append, List.cons.injEq, true_and] at h
      obtain ⟨rfl, rfl⟩ := h
      exact ⟨letters_inj hl hl', rfl⟩
    | unit _ | pair _ _ _ => simp [escapeUnit, ne_of_mem_letters hl] at h
  | unit hunit =>
    cases hd with
    | plain _ hslash => simp [escapeUnit, hslash.symm] at h
    | letter hl => simp [escapeUnit, (ne_of_mem_letters hl).symm] at h
    | unit hunit' =>
      obtain ⟨hsame, hrest⟩ := escapeUnit_append_inj hunit hunit' h
      exact ⟨Char.toNat_inj.1 hsame, hrest⟩
    | pair hpair hhigh _ =>
      rw [List.append_assoc] at h
      have hsame := (escapeUnit_append_inj hunit (by omega) h).1
      omega
  | pair hpair hhigh hlow =>
    cases hd with
    | plain _ hslash => simp [escapeUnit, hslash.symm] at h
    | letter hl => simp [escapeUnit, (ne_of_mem_letters hl).symm] at h
    | unit hunit =>
      rw [List.append_assoc] at h
      have hsame := (escapeUnit_append_inj (by omega) hunit h).1
      omega
    | pair hpair' hhigh' hlow' =>
      rw [List.append_assoc, List.append_assoc] at h
      obtain ⟨hsame, h⟩ := escapeUnit_append_inj (by omega) (by omega) h
      obtain ⟨hsame', hrest⟩ := escapeUnit_append_inj (by omega) (by omega) h
      exact ⟨Char.toNat_inj.1 (by omega), hrest⟩

/-! ## Texts -/

theorem flatMap_escapeChar_inj {cs ds r r' : List Char}
    (h : cs.flatMap escapeChar ++ '"' :: r = ds.flatMap escapeChar ++ '"' :: r') :
    cs = ds ∧ r = r' := by
  induction cs generalizing ds with
  | nil =>
    cases ds with
    | nil => simpa using h
    | cons d ds =>
      rw [List.flatMap_cons, List.append_assoc] at h
      exact absurd h.symm ((escape_escapeChar d).append_ne _ _)
  | cons c cs ih =>
    rw [List.flatMap_cons, List.append_assoc] at h
    cases ds with
    | nil => exact absurd h ((escape_escapeChar c).append_ne _ _)
    | cons d ds =>
      rw [List.flatMap_cons, List.append_assoc] at h
      obtain ⟨rfl, htail⟩ := (escape_escapeChar c).append_inj (escape_escapeChar d) h
      obtain ⟨rfl, hrest⟩ := ih htail
      exact ⟨rfl, hrest⟩

/-- A text between quotes tells what was escaped and where it ends. -/
theorem escaped_append_inj {cs ds r r' : List Char} (h : escaped cs ++ r = escaped ds ++ r') :
    cs = ds ∧ r = r' := by
  simp only [escaped, List.cons_append, List.append_assoc, List.nil_append, List.cons.injEq,
    true_and] at h
  exact flatMap_escapeChar_inj h

end SnlFront.Text
