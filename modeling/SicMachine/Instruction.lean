import SicMachine.Word
import SicMachine.Text.Digits

/-!
An instruction word has an opcode in bits 23 to 16, the index flag in bit 15
and an address in bits 14 to 0. Words below `2 ^ 24` and instructions
correspond one to one; whether an opcode can be executed is decided later.
-/
namespace SicMachine

/-- Addresses inside instructions stay below this bound. -/
def addressLimit : Nat := 32768

structure Instruction where
  opcode : UInt8
  indexed : Bool
  address : Fin addressLimit
  deriving DecidableEq

/-- A number too wide for an instruction word. -/
structure InvalidWord where
  word : Nat
  deriving DecidableEq, Repr

def InvalidWord.message (error : InvalidWord) : String :=
  "invalid instruction word " ++ Text.marked 0 error.word ++ ": does not fit in 24 bits"

namespace Instruction

/-- The instruction with these fields. Only the low 15 bits of the address are used. -/
def encode (opcode : UInt8) (indexed : Bool) (address : Nat) : Instruction :=
  ⟨opcode, indexed, address % addressLimit, Nat.mod_lt _ (by decide)⟩

def word (i : Instruction) : Nat :=
  i.opcode.toNat * 65536 + (if i.indexed then addressLimit else 0) + i.address.val

/-- The instruction whose fields are the low 24 bits of a word. -/
def ofWord (word : Nat) : Instruction :=
  encode (UInt8.ofNat (word / 65536)) (word / addressLimit % 2 == 1) word

def decode (word : Nat) : Except InvalidWord Instruction :=
  if word < wordLimit then .ok (ofWord word) else .error ⟨word⟩

/-- The index flag as a bit. -/
def indexBit (i : Instruction) : Nat := if i.indexed then 1 else 0

/-- The word and its fields. -/
def text (i : Instruction) : String :=
  Text.hex 6 i.word ++ " (op=" ++ Text.hex 2 i.opcode.toNat ++ " x=" ++ toString i.indexBit ++
    " addr=" ++ Text.hex 4 i.address.val ++ ")"

theorem word_lt (i : Instruction) : i.word < wordLimit := by
  have := i.opcode.toNat_lt
  have := i.address.isLt
  cases hi : i.indexed <;> simp only [word, hi, addressLimit, wordLimit] at * <;> grind

/-- An instruction is what its word decodes to. -/
theorem decode_word (i : Instruction) : decode i.word = .ok i := by
  have hword := i.word_lt
  obtain ⟨opcode, indexed, address, haddress⟩ := i
  have hopcode := opcode.toNat_lt
  simp only [addressLimit] at haddress
  rw [decode, if_pos hword]
  have high : word ⟨opcode, indexed, address, haddress⟩ / 65536 = opcode.toNat := by
    cases indexed <;> simp [word, addressLimit] <;> omega
  have low : word ⟨opcode, indexed, address, haddress⟩ % addressLimit = address := by
    cases indexed <;> simp [word, addressLimit] <;> omega
  have flag : (word ⟨opcode, indexed, address, haddress⟩ / addressLimit % 2 == 1) = indexed := by
    cases indexed <;> simp [word, addressLimit] <;> omega
  simp [ofWord, encode, high, low, flag]

theorem decode_of_lt {word : Nat} (h : word < wordLimit) : decode word = .ok (ofWord word) :=
  if_pos h

theorem opcode_ofWord {word : Nat} (h : word < wordLimit) :
    (ofWord word).opcode.toNat = word / 65536 := by
  simp only [wordLimit] at h
  simp only [ofWord, encode, UInt8.toNat_ofNat']
  omega

theorem indexed_ofWord (word : Nat) :
    (ofWord word).indexed = (word / addressLimit % 2 == 1) := rfl

theorem indexBit_ofWord (word : Nat) : (ofWord word).indexBit = word / addressLimit % 2 := by
  have bit : word / addressLimit % 2 < 2 := Nat.mod_lt _ (by decide)
  rw [indexBit, indexed_ofWord]
  by_cases h : word / addressLimit % 2 = 1
  · simp [h]
  · simp [show word / addressLimit % 2 = 0 by omega]

theorem address_ofWord (word : Nat) : (ofWord word).address.val = word % addressLimit := rfl

theorem word_ofWord {word : Nat} (h : word < wordLimit) : (ofWord word).word = word := by
  have bit := indexBit_ofWord word
  have high := opcode_ofWord h
  rw [Instruction.word, high, address_ofWord]
  simp only [indexBit, addressLimit] at bit ⊢
  split at bit <;> simp_all <;> omega

theorem encode_fields (i : Instruction) : encode i.opcode i.indexed i.address.val = i := by
  obtain ⟨opcode, indexed, address, haddress⟩ := i
  simp [encode, Nat.mod_eq_of_lt haddress]

/-- A word is decoded to the instruction whose word it is. -/
theorem decode_eq_ok_iff {word : Nat} {i : Instruction} : decode word = .ok i ↔ i.word = word := by
  constructor
  · intro h
    by_cases hword : word < wordLimit
    · rw [decode_of_lt hword] at h
      cases h
      exact word_ofWord hword
    · rw [decode, if_neg hword] at h
      cases h
  · rintro rfl
    exact i.decode_word

end Instruction

end SicMachine
