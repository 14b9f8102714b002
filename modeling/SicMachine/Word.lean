/-!
Machine words are natural numbers below `2 ^ 24`. In memory a word takes three
bytes, the most significant first. Every stored value is wrapped to the width
of the place that holds it. Arithmetic takes place in 32 bits; because
`2 ^ 24` divides `2 ^ 32`, nothing of a stored result is lost there.
-/
namespace SicMachine

/-- The bytes of one word. -/
def wordBytes : Nat := 3

/-- Words, and the registers that hold them, stay below this bound. -/
def wordLimit : Nat := 16777216

/-- Bytes stay below this bound. -/
def byteLimit : Nat := 256

/-- The bytes of memory. -/
def memorySize : Nat := 32768

/-- Addresses and word values given from outside are 32-bit numbers. -/
def wideLimit : Nat := 4294967296

/-- The low 24 bits of a value. -/
def wrap (value : Nat) : Nat := value % wordLimit

theorem wrap_lt (value : Nat) : wrap value < wordLimit :=
  Nat.mod_lt _ (by decide)

theorem wrap_of_lt {value : Nat} (h : value < wordLimit) : wrap value = value :=
  Nat.mod_eq_of_lt h

namespace Wide

/-- The sum of two numbers in 32 bits. -/
def sum (left right : Nat) : Nat := (left + right) % wideLimit

/-- The difference of two numbers in 32 bits. -/
def difference (left right : Nat) : Nat := (left + (wideLimit - right % wideLimit)) % wideLimit

/-- The product of two numbers in 32 bits. -/
def product (left right : Nat) : Nat := left * right % wideLimit

end Wide

theorem wrap_mod_wideLimit (value : Nat) : wrap (value % wideLimit) = wrap value :=
  Nat.mod_mod_of_dvd value (by decide : wordLimit ∣ wideLimit)

theorem wrap_sum (left right : Nat) : wrap (Wide.sum left right) = wrap (left + right) :=
  wrap_mod_wideLimit _

theorem wrap_product (left right : Nat) : wrap (Wide.product left right) = wrap (left * right) :=
  wrap_mod_wideLimit _

theorem wrap_difference (left right : Nat) :
    wrap (Wide.difference left right) = (((left : Int) - right) % (wordLimit : Int)).toNat := by
  rw [Wide.difference, wrap_mod_wideLimit]
  simp only [wrap, wordLimit, wideLimit]
  omega

namespace Word

/-- The word with these bytes, the most significant first. -/
def ofBytes (high middle low : UInt8) : Nat :=
  high.toNat * 65536 + middle.toNat * 256 + low.toNat

/-- Bits 23 to 16 of a word. -/
def highByte (word : Nat) : UInt8 := UInt8.ofNat (word / 65536)

/-- Bits 15 to 8 of a word. -/
def middleByte (word : Nat) : UInt8 := UInt8.ofNat (word / 256)

/-- Bits 7 to 0 of a word. -/
def lowByte (word : Nat) : UInt8 := UInt8.ofNat word

/-- A word whose low byte is replaced. -/
def withLowByte (word : Nat) (byte : UInt8) : Nat := word &&& 0xFFFF00 ||| byte.toNat

theorem ofBytes_lt (high middle low : UInt8) : ofBytes high middle low < wordLimit := by
  have := high.toNat_lt
  have := middle.toNat_lt
  have := low.toNat_lt
  simp only [ofBytes, wordLimit]
  omega

/-- Three bytes give back the low 24 bits of the value that they were taken from. -/
theorem ofBytes_bytes (value : Nat) :
    ofBytes (highByte value) (middleByte value) (lowByte value) = wrap value := by
  simp only [ofBytes, highByte, middleByte, lowByte, wrap, wordLimit, UInt8.toNat_ofNat']
  omega

theorem highByte_ofBytes (high middle low : UInt8) :
    highByte (ofBytes high middle low) = high := by
  have := high.toNat_lt
  have := middle.toNat_lt
  have := low.toNat_lt
  apply UInt8.toNat_inj.1
  simp only [highByte, ofBytes, UInt8.toNat_ofNat']
  omega

theorem middleByte_ofBytes (high middle low : UInt8) :
    middleByte (ofBytes high middle low) = middle := by
  have := middle.toNat_lt
  have := low.toNat_lt
  apply UInt8.toNat_inj.1
  simp only [middleByte, ofBytes, UInt8.toNat_ofNat']
  omega

theorem lowByte_ofBytes (high middle low : UInt8) : lowByte (ofBytes high middle low) = low := by
  have := low.toNat_lt
  apply UInt8.toNat_inj.1
  simp only [lowByte, ofBytes, UInt8.toNat_ofNat']
  omega

theorem and_highMask {word : Nat} (h : word < wordLimit) :
    word &&& 0xFFFF00 = (word / byteLimit) <<< 8 := by
  have mask : 0xFFFF00 = (2 ^ 16 - 1) <<< 8 := rfl
  have shifted : word / byteLimit = word / 2 ^ 8 := rfl
  apply Nat.eq_of_testBit_eq
  intro i
  rw [mask, shifted, Nat.testBit_and, Nat.testBit_shiftLeft, Nat.testBit_shiftLeft,
    Nat.testBit_two_pow_sub_one, Nat.testBit_div_two_pow]
  by_cases low : 8 ≤ i
  · rw [Nat.sub_add_cancel low]
    by_cases high : i < 24
    · have inMask : i - 8 < 16 := by omega
      simp [low, inMask]
    · have above : word < 2 ^ i :=
        Nat.lt_of_lt_of_le h (Nat.pow_le_pow_right (Nat.zero_lt_two) (show 24 ≤ i by omega))
      simp [Nat.testBit_lt_two_pow above]
  · simp [low]

/-- Only bits 7 to 0 are replaced. -/
theorem withLowByte_eq {word : Nat} (byte : UInt8) (h : word < wordLimit) :
    withLowByte word byte = word / byteLimit * byteLimit + byte.toNat := by
  have small : byte.toNat < 2 ^ 8 := byte.toNat_lt
  rw [withLowByte, and_highMask h, ← Nat.shiftLeft_add_eq_or_of_lt small, Nat.shiftLeft_eq]
  rfl

end Word

end SicMachine
