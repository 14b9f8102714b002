import SicMachine.Json.Reader
import Mathlib.Data.List.TakeWhile

/-!
Natural numbers among the tokens. A token is read as a natural number below a
limit exactly when it is a row of digits whose number is below that limit:
nothing is rounded, and neither a sign nor a point nor an exponent is let
through.
-/
namespace SicMachine.Json

namespace Quantity

theorem le_ofDigitChars (digits : List Char) (value : Nat) :
    value ≤ Nat.ofDigitChars 10 digits value := by
  induction digits generalizing value with
  | nil => simp
  | cons c rest ih =>
    have hrest := ih (10 * value + (c.toNat - '0'.toNat))
    rw [Nat.ofDigitChars_cons]
    omega

theorem ofDigitChars_digit (c : Char) (rest : List Char) (value : Nat) :
    Nat.ofDigitChars 10 (c :: rest) value = Nat.ofDigitChars 10 rest (value * 10 + digitOf c) := by
  rw [Nat.ofDigitChars_cons, Nat.mul_comm]
  rfl

/-- Digits are absorbed to the last exactly when their number stays below the limit. -/
theorem absorb_eq_nil_iff {limit value number : Nat} {digits : List Char} (hvalue : value < limit) :
    absorb limit value digits = (number, []) ↔
      Nat.ofDigitChars 10 digits value = number ∧ number < limit := by
  induction digits generalizing value with
  | nil =>
    simp only [absorb, Nat.ofDigitChars_nil, Prod.mk.injEq, and_true]
    exact ⟨fun h => ⟨h, h ▸ hvalue⟩, And.left⟩
  | cons c rest ih =>
    rw [absorb, ofDigitChars_digit]
    split
    · next hfits => exact ih hfits
    · next hlarge =>
      -- The number of all digits is at least that of the first of them.
      have hfirst := le_ofDigitChars rest (value * 10 + digitOf c)
      constructor
      · intro h
        cases h
      · rintro ⟨rfl, h⟩
        omega

namespace Parts

/-- A row of digits is a number without a sign, a point and an exponent. -/
theorem ofWritten_digits {written : List Char} (h : ∀ c ∈ written, c.isDigit = true) :
    ofWritten written = ⟨false, written, none, none⟩ := by
  have hsign : (written.head? == some '-') = false := by
    cases written with
    | nil => rfl
    | cons c rest =>
      have hdigit := h c List.mem_cons_self
      refine beq_eq_false_iff_ne.2 fun hminus => ?_
      cases hminus
      cases hdigit
  simp [ofWritten, hsign, List.takeWhile_eq_self_iff.2 h, List.dropWhile_eq_nil_iff.2 h]

theorem digits_of_ofWritten {written : List Char} (hnegative : (ofWritten written).negative = false)
    (hfraction : (ofWritten written).fraction = none)
    (hexponent : (ofWritten written).exponent = none) : ∀ c ∈ written, c.isDigit = true := by
  simp only [ofWritten] at hnegative hfraction hexponent
  simp only [hnegative, Bool.false_eq_true, if_false] at hfraction hexponent
  apply List.dropWhile_eq_nil_iff.1
  -- What stands behind the digits would be a point or the mark of an exponent.
  cases hrest : written.dropWhile Char.isDigit with
  | nil => rfl
  | cons c rest =>
    rw [hrest] at hfraction hexponent
    split at hfraction
    · cases hfraction
    · simp only at hexponent
      split at hexponent <;> simp_all

end Parts

/-- The numbers that are natural numbers: rows of digits, with no more digits than 64 bits hold. -/
theorem ofWritten?_eq_natural_iff {written : List Char} {n : Nat} :
    ofWritten? written = some (.natural n) ↔
      (∀ c ∈ written, c.isDigit = true) ∧ Nat.ofDigitChars 10 written 0 = n ∧
        n < significandLimit := by
  constructor
  · intro h
    unfold ofWritten? at h
    simp only at h
    split at h
    · next hfraction hexponent habsorbed =>
      cases hnegative : (Parts.ofWritten written).negative with
      | true =>
        simp only [hnegative, Bool.not_true, Bool.false_eq_true, if_false] at h
        split at h <;> cases h
      | false =>
        have hdigits := Parts.digits_of_ofWritten hnegative hfraction hexponent
        rw [Parts.ofWritten_digits hdigits] at h habsorbed
        obtain rfl : (absorb significandLimit 0 written).1 = n := by simpa using h
        exact ⟨hdigits, (absorb_eq_nil_iff (by decide)).1 (Prod.ext rfl habsorbed)⟩
    · simp at h
  · rintro ⟨hdigits, hnumber⟩
    have habsorb := (absorb_eq_nil_iff (by decide : 0 < significandLimit)).2 hnumber
    simp [ofWritten?, Parts.ofWritten_digits hdigits, habsorb]

end Quantity

namespace Token

/-- The number that a row of digits stands for. -/
def natural? : Token → Option Nat
  | number written =>
    if written.all Char.isDigit then some (Nat.ofDigitChars 10 written 0) else none
  | _ => none

theorem natural?_eq_some_iff {token : Token} {n : Nat} :
    token.natural? = some n ↔
      ∃ written, token = number written ∧ (∀ c ∈ written, c.isDigit = true) ∧
        Nat.ofDigitChars 10 written 0 = n := by
  cases token with
  | number written => simp [natural?]
  | _ => simp [natural?]

theorem natural?_ofNat (n : Nat) : (ofNat n).natural? = some n := by
  have hdigits : ∀ c ∈ Nat.toDigits 10 n, c.isDigit = true :=
    fun c hc => Nat.isDigit_of_mem_toDigits (by decide) (by decide) hc
  exact natural?_eq_some_iff.2 ⟨_, rfl, hdigits, Nat.ofDigitChars_ten_toDigits⟩

end Token

namespace Reader

theorem natural_eq_ok_iff {limit n : Nat} {expected : String} {token : Token}
    (hlimit : limit ≤ Quantity.significandLimit) :
    natural limit expected token = .ok n ↔ token.natural? = some n ∧ n < limit := by
  rw [Token.natural?_eq_some_iff]
  constructor
  · intro h
    unfold natural at h
    split at h
    · next written =>
      split at h
      · next m hquantity =>
        obtain ⟨hdigits, hnumber, -⟩ := Quantity.ofWritten?_eq_natural_iff.1 hquantity
        split at h <;> cases h
        next hm => exact ⟨⟨written, rfl, hdigits, hnumber⟩, hm⟩
      · cases h
      · cases h
    · cases h
  · rintro ⟨⟨written, rfl, hdigits, hnumber⟩, hn⟩
    have hquantity : Quantity.ofWritten? written = some (.natural n) :=
      Quantity.ofWritten?_eq_natural_iff.2 ⟨hdigits, hnumber, by omega⟩
    rw [natural, hquantity]
    exact if_pos hn

theorem wide_eq_ok_iff {token : Token} {n : Nat} :
    wide token = .ok n ↔ token.natural? = some n ∧ n < wideLimit :=
  natural_eq_ok_iff (by decide)

theorem byte_eq_ok_iff {token : Token} {value : UInt8} :
    byte token = .ok value ↔ token.natural? = some value.toNat := by
  unfold byte
  constructor
  · intro h
    cases hread : natural byteLimit "u8" token with
    | error failure =>
      rw [hread] at h
      cases h
    | ok n =>
      obtain ⟨hnumber, hn⟩ := (natural_eq_ok_iff (by decide)).1 hread
      rw [hread] at h
      cases h
      rw [hnumber, UInt8.toNat_ofNat_of_lt' hn]
  · intro h
    have hread : natural byteLimit "u8" token = .ok value.toNat :=
      (natural_eq_ok_iff (by decide)).2 ⟨h, value.toNat_lt⟩
    rw [hread]
    exact congrArg Except.ok UInt8.ofNat_toNat

end Reader

end SicMachine.Json
