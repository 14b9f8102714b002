import SicMachine.Text.Blank
import SicMachine.Text.Digits
import SicMachine.Text.Numeral
import Mathlib.Data.List.Basic

/-!
What a numeral stands for. The value of digits is built up from the left, and a
further digit never makes it smaller, so a limit that is checked at each digit
is as good as one that is checked at the end. The digits that are written for a
number have that number as their value, with any number of zeros in front.
-/
namespace SicMachine.Text

variable {base limit value n : Nat} {c : Char} {digits text : List Char}

/-- All characters are digits in the base. -/
def Digits (base : Nat) (text : List Char) : Prop := ∀ c ∈ text, (digitValue? base c).isSome = true

instance (base : Nat) (text : List Char) : Decidable (Digits base text) :=
  List.decidableBAll _ text

/-- The value of digits that follow a value. -/
def valueFrom (base value : Nat) (digits : List Char) : Nat :=
  digits.foldl (fun value c => value * base + (digitValue? base c).getD 0) value

theorem valueFrom_append (base value : Nat) (front back : List Char) :
    valueFrom base value (front ++ back) = valueFrom base (valueFrom base value front) back :=
  List.foldl_append

theorem le_valueFrom (hbase : 0 < base) (value : Nat) (digits : List Char) :
    value ≤ valueFrom base value digits := by
  induction digits generalizing value with
  | nil => exact Nat.le_refl value
  | cons c rest ih =>
    have hfirst : value ≤ value * base + (digitValue? base c).getD 0 :=
      Nat.le_add_right_of_le (Nat.le_mul_of_pos_right value hbase)
    exact Nat.le_trans hfirst (ih _)

theorem digits_cons_iff :
    Digits base (c :: text) ↔ (digitValue? base c).isSome = true ∧ Digits base text :=
  List.forall_mem_cons

/-! ### Reading -/

/-- A digit is a letter or a decimal digit of ASCII. -/
theorem toNat_of_digit (h : (digitValue? base c).isSome = true) : 48 ≤ c.toNat ∧ c.toNat ≤ 122 := by
  by_contra hcode
  have hnone : digitValue? base c = none := by
    simp only [digitValue?]
    rw [if_neg (by omega), if_neg (by omega), if_neg (by omega)]
    rfl
  rw [hnone] at h
  cases h

theorem readDigits_eq_ok_iff (hbase : 0 < base) (hvalue : value < limit) :
    readDigits base limit value text = .ok n ↔
      Digits base text ∧ valueFrom base value text = n ∧ n < limit := by
  induction text generalizing value with
  | nil =>
    simp only [readDigits, Except.ok.injEq, Digits, valueFrom, List.foldl_nil, List.not_mem_nil,
      false_implies, implies_true, true_and]
    constructor
    · rintro rfl
      exact ⟨rfl, hvalue⟩
    · exact And.left
  | cons c rest ih =>
    rw [readDigits, digits_cons_iff]
    cases hdigit : digitValue? base c with
    | none => simp
    | some digit =>
      have hvalueFrom : valueFrom base value (c :: rest) =
          valueFrom base (value * base + digit) rest := by
        rw [valueFrom, List.foldl_cons, hdigit]
        rfl
      rw [hvalueFrom]
      by_cases hfits : value * base + digit < limit
      · simp only [hfits, if_true, ih hfits, Option.isSome_some, true_and]
      · -- What follows only makes the value larger.
        have hlarge := le_valueFrom hbase (value * base + digit) rest
        simp only [hfits, if_false, reduceCtorEq, false_iff, not_and]
        intro _ hn
        omega

theorem readNumeral_of_ne_plus (h : c ≠ '+') :
    readNumeral base limit (c :: text) = readDigits base limit 0 (c :: text) := by
  unfold readNumeral
  split
  · next hsplit => cases hsplit
  · next hsplit =>
    cases hsplit
    exact absurd rfl h
  · next hsplit =>
    cases hsplit
    exact absurd rfl h
  · rfl

/-- The sign is no digit. -/
theorem not_digits_plus (base : Nat) (rest : List Char) : ¬ Digits base ('+' :: rest) := by
  intro hdigits
  have hcode := (toNat_of_digit (digits_cons_iff.1 hdigits).1).1
  revert hcode
  decide

/-- A text has one sequence of digits, behind a sign or without one. -/
theorem digits_unique {more : List Char} (htext : text = digits ∨ text = '+' :: digits)
    (hother : text = more ∨ text = '+' :: more) (hdigits : Digits base digits)
    (hmore : Digits base more) : digits = more := by
  rcases htext with rfl | rfl
  · rcases hother with rfl | rfl
    · rfl
    · exact absurd hdigits (not_digits_plus base more)
  · rcases hother with rfl | hsame
    · exact absurd hmore (not_digits_plus base digits)
    · exact List.tail_eq_of_cons_eq hsame

/-- The numerals of a base: digits, one at least, with or without a plus sign in front. -/
theorem readNumeral_eq_ok_iff (hbase : 0 < base) (hlimit : 0 < limit) :
    readNumeral base limit text = .ok n ↔
      ∃ digits, (text = digits ∨ text = '+' :: digits) ∧ digits ≠ [] ∧ Digits base digits ∧
        valueFrom base 0 digits = n ∧ n < limit := by
  cases text with
  | nil =>
    constructor
    · intro h
      cases h
    · rintro ⟨digits, rfl | hsplit, hne, -⟩
      · exact absurd rfl hne
      · cases hsplit
  | cons c rest =>
    by_cases hc : c = '+'
    · subst hc
      have hread : readNumeral base limit ('+' :: rest) = .ok n ↔
          rest ≠ [] ∧ readDigits base limit 0 rest = .ok n := by
        cases rest <;> simp [readNumeral]
      rw [hread, readDigits_eq_ok_iff hbase hlimit]
      constructor
      · rintro ⟨hne, hdigits⟩
        exact ⟨rest, Or.inr rfl, hne, hdigits⟩
      · rintro ⟨digits, rfl | hsplit, hne, hdigits, hvalue⟩
        · exact absurd hdigits (not_digits_plus base rest)
        · cases hsplit
          exact ⟨hne, hdigits, hvalue⟩
    · rw [readNumeral_of_ne_plus hc, readDigits_eq_ok_iff hbase hlimit]
      constructor
      · intro h
        exact ⟨c :: rest, Or.inl rfl, List.cons_ne_nil _ _, h⟩
      · rintro ⟨digits, rfl | hsplit, -, h⟩
        · exact h
        · cases hsplit
          exact absurd rfl hc

/-! ### Writing -/

section Written

variable {spell : Char → Char}

/-- Digits in any spelling that keeps their values are digits of the number written. -/
theorem digits_toDigits (hbase : 1 < base)
    (hspell : ∀ d < base, digitValue? base (spell (Nat.digitChar d)) = some d) (n : Nat) :
    Digits base ((Nat.toDigits base n).map spell) := by
  intro c hc
  obtain ⟨digit, hdigit, rfl⟩ := List.mem_map.1 hc
  obtain ⟨d, hd, rfl⟩ := exists_digit_of_mem_toDigits hbase hdigit
  rw [hspell d hd]
  rfl

theorem valueFrom_toDigits (hbase : 1 < base)
    (hspell : ∀ d < base, digitValue? base (spell (Nat.digitChar d)) = some d) (n : Nat) :
    valueFrom base 0 ((Nat.toDigits base n).map spell) = n := by
  induction n using Nat.strongRecOn with
  | ind n ih =>
    rw [Nat.toDigits_eq_if hbase]
    split
    · next hn =>
      rw [List.map_singleton, valueFrom, List.foldl_cons, List.foldl_nil, hspell n hn, Nat.zero_mul,
        Nat.zero_add]
      rfl
    · next hn =>
      have hless : n / base < n := Nat.div_lt_self (by omega) hbase
      have hlast : n % base < base := Nat.mod_lt n (by omega)
      rw [List.map_append, valueFrom_append, ih _ hless, List.map_singleton, valueFrom,
        List.foldl_cons, List.foldl_nil, hspell _ hlast]
      exact Nat.div_add_mod' n base

theorem digitValue?_zero (hbase : 0 < base) : digitValue? base '0' = some 0 := by
  have hzero : digitValue? base '0' = (some 0).filter (· < base) := rfl
  rw [hzero, Option.filter_eq_some_iff]
  exact ⟨rfl, decide_eq_true hbase⟩

/-- Zeros in front of digits change nothing. -/
theorem valueFrom_leftpad (hbase : 0 < base) (width : Nat) (digits : List Char) :
    valueFrom base 0 (digits.leftpad width '0') = valueFrom base 0 digits := by
  have hzeros : ∀ count, valueFrom base 0 (List.replicate count '0') = 0 := by
    intro count
    induction count with
    | zero => rfl
    | succ count ih =>
      rw [List.replicate_succ, valueFrom, List.foldl_cons, Nat.zero_mul, Nat.zero_add,
        digitValue?_zero hbase]
      exact ih
  rw [List.leftpad, valueFrom_append, hzeros]

theorem Digits.leftpad (hbase : 0 < base) (h : Digits base digits) (width : Nat) :
    Digits base (digits.leftpad width '0') := by
  intro c hc
  rcases List.mem_append.1 hc with hc | hc
  · rw [List.eq_of_mem_replicate hc, digitValue?_zero hbase]
    rfl
  · exact h c hc

theorem digitValue?_hexDigit :
    ∀ d < 16, digitValue? 16 (Nat.digitChar d).toUpper = some d := by
  decide

theorem digits_hex (width n : Nat) : Digits 16 (hex width n).toList := by
  rw [hex, String.toList_ofList, hexDigits]
  exact (digits_toDigits (by decide) digitValue?_hexDigit n).leftpad (by decide) width

theorem valueFrom_hex (width n : Nat) : valueFrom 16 0 (hex width n).toList = n := by
  rw [hex, String.toList_ofList, hexDigits, valueFrom_leftpad (by decide),
    valueFrom_toDigits (by decide) digitValue?_hexDigit]

theorem hex_ne_nil (width n : Nat) : (hex width n).toList ≠ [] := by
  rw [hex, String.toList_ofList, List.leftpad, hexDigits]
  refine List.append_ne_nil_of_right_ne_nil _ ?_
  rw [Ne, List.map_eq_nil_iff]
  exact Nat.toDigits_ne_nil

/-- Hexadecimal text is read back. -/
theorem readNumeral_hex (width : Nat) (h : n < limit) :
    readNumeral 16 limit (hex width n).toList = .ok n :=
  (readNumeral_eq_ok_iff (by decide) (Nat.zero_lt_of_lt h)).2
    ⟨_, Or.inl rfl, hex_ne_nil width n, digits_hex width n, valueFrom_hex width n, h⟩

end Written

end SicMachine.Text
