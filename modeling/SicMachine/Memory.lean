import SicMachine.Word
import SicMachine.Text.Digits

/-!
Memory is a sequence of bytes, all zero after power-up. An access is a run of
one or three bytes and fails as a whole when any of them lies outside; nothing
is written then. The view `byte` says what memory holds at each address.
-/
namespace SicMachine

structure Memory where
  bytes : Array UInt8
  deriving DecidableEq

namespace Memory

inductive Error where
  /-- Some byte of an access of this width lies outside memory. -/
  | outOfBounds (address width : Nat)
  /-- A program of `size` bytes does not fit where `available` bytes are left. -/
  | programTooLarge (size available : Nat)
  /-- Saved contents that do not have the size of memory. -/
  | wrongSize (size : Nat)
  deriving DecidableEq, Repr

def Error.message : Error → String
  | .outOfBounds address width =>
    toString width ++ "-byte access at address " ++ Text.marked 4 address ++ " is out of bounds"
  | .programTooLarge size available =>
    "program size " ++ toString size ++ " bytes exceeds available space " ++ toString available ++
      " bytes"
  | .wrongSize size =>
    "memory snapshot holds " ++ toString size ++ " bytes, expected " ++ toString memorySize

/-- Memory after power-up. -/
def zero : Memory := ⟨Array.replicate memorySize 0⟩

/-- Memory with these contents, which must have its size. -/
def ofBytes (bytes : List UInt8) : Except Error Memory :=
  if bytes.length = memorySize then .ok ⟨bytes.toArray⟩ else .error (.wrongSize bytes.length)

/-- The byte at an address; zero outside memory. -/
def byte (memory : Memory) (address : Nat) : UInt8 := memory.bytes.getD address 0

/-- The three bytes from an address as a word. -/
def word (memory : Memory) (address : Nat) : Nat :=
  Word.ofBytes (memory.byte address) (memory.byte (address + 1)) (memory.byte (address + 2))

/-- Memories with the same bytes in three places hold the same word there. -/
theorem word_congr {left right : Memory} {address : Nat}
    (h : ∀ read, address ≤ read → read < address + wordBytes → left.byte read = right.byte read) :
    left.word address = right.word address := by
  simp only [wordBytes] at h
  rw [word, word, h address (by omega) (by omega), h (address + 1) (by omega) (by omega),
    h (address + 2) (by omega) (by omega)]

theorem word_lt (memory : Memory) (address : Nat) : memory.word address < wordLimit :=
  Word.ofBytes_lt ..

/-- An access of `width` bytes lies inside memory. -/
def Fits (address width : Nat) : Prop := address + width ≤ memorySize

instance (address width : Nat) : Decidable (Fits address width) :=
  inferInstanceAs (Decidable (_ ≤ _))

theorem fits_word_iff {address : Nat} : Fits address wordBytes ↔ address ≤ 32765 := by
  simp only [Fits, wordBytes, memorySize]
  omega

theorem fits_byte_iff {address : Nat} : Fits address 1 ↔ address ≤ 32767 := by
  simp only [Fits, memorySize]
  omega

def readByte (memory : Memory) (address : Nat) : Except Error UInt8 :=
  if Fits address 1 then .ok (memory.byte address) else .error (.outOfBounds address 1)

def readWord (memory : Memory) (address : Nat) : Except Error Nat :=
  if Fits address wordBytes then .ok (memory.word address)
  else .error (.outOfBounds address wordBytes)

/-- Puts a byte at an address; outside memory nothing is put. -/
def putByte (memory : Memory) (address : Nat) (value : UInt8) : Memory :=
  ⟨memory.bytes.setIfInBounds address value⟩

/-- Puts the low 24 bits of a value at three addresses. -/
def putWord (memory : Memory) (address value : Nat) : Memory :=
  ((memory.putByte address (Word.highByte value)).putByte (address + 1)
    (Word.middleByte value)).putByte (address + 2) (Word.lowByte value)

/-- Writes the low eight bits of a value. -/
def writeByte (memory : Memory) (address value : Nat) : Except Error Memory :=
  if Fits address 1 then .ok (memory.putByte address (UInt8.ofNat value))
  else .error (.outOfBounds address 1)

/-- Writes the low 24 bits of a value. -/
def writeWord (memory : Memory) (address value : Nat) : Except Error Memory :=
  if Fits address wordBytes then .ok (memory.putWord address value)
  else .error (.outOfBounds address wordBytes)

/-- Puts consecutive words from an address on. -/
def putWords (memory : Memory) (address : Nat) : List Nat → Memory
  | [] => memory
  | value :: rest => (memory.putWord address value).putWords (address + wordBytes) rest

/-- Writes consecutive words, or nothing when they do not fit as a whole. -/
def loadWords (memory : Memory) (start : Nat) (words : List Nat) : Except Error Memory :=
  let size := words.length * wordBytes
  let available := memorySize - start
  if size ≤ available then .ok (memory.putWords start words)
  else .error (.programTooLarge size available)

/-- All bytes back at zero. -/
def clear (memory : Memory) : Memory := ⟨Array.replicate memory.bytes.size 0⟩

/-- Up to `count` consecutive words with their addresses, as far as memory goes. -/
def wordsFrom (memory : Memory) : Nat → Nat → List (Nat × Nat)
  | 0, _ => []
  | count + 1, address =>
    match memory.readWord address with
    | .ok value => (address, value) :: memory.wordsFrom count (address + wordBytes)
    | .error _ => []

/-- Lists consecutive words. Only the low 32 bits of the count are used. -/
def dumpWords (memory : Memory) (start count : Nat) : List (Nat × Nat) :=
  memory.wordsFrom (count % wideLimit) start

theorem readByte_eq_ok_iff {memory : Memory} {address : Nat} {byte : UInt8} :
    memory.readByte address = .ok byte ↔ Fits address 1 ∧ memory.byte address = byte := by
  unfold readByte
  by_cases hfits : Fits address 1 <;> simp [hfits]

theorem readWord_eq_ok_iff {memory : Memory} {address word : Nat} :
    memory.readWord address = .ok word ↔ Fits address wordBytes ∧ memory.word address = word := by
  unfold readWord
  by_cases hfits : Fits address wordBytes <;> simp [hfits]

theorem readWord_of_fits (memory : Memory) {address : Nat} (h : Fits address wordBytes) :
    memory.readWord address = .ok (memory.word address) := if_pos h

theorem readWord_of_not_fits (memory : Memory) {address : Nat} (h : ¬ Fits address wordBytes) :
    memory.readWord address = .error (.outOfBounds address wordBytes) := if_neg h

theorem writeWord_of_fits (memory : Memory) {address : Nat} (h : Fits address wordBytes)
    (value : Nat) : memory.writeWord address value = .ok (memory.putWord address value) := if_pos h

theorem size_zero : zero.bytes.size = memorySize := Array.size_replicate

theorem size_clear (memory : Memory) : memory.clear.bytes.size = memory.bytes.size :=
  Array.size_replicate

theorem size_putByte (memory : Memory) (address : Nat) (value : UInt8) :
    (memory.putByte address value).bytes.size = memory.bytes.size := by
  simp [putByte]

/-- A byte that was put is read back, and no other byte changes. -/
theorem byte_putByte (memory : Memory) (address read : Nat) (value : UInt8)
    (h : address < memory.bytes.size) :
    (memory.putByte address value).byte read =
      if address = read then value else memory.byte read := by
  by_cases hr : address = read
  · subst hr
    simp [putByte, byte, h]
  · simp [putByte, byte, hr]

theorem size_putWord (memory : Memory) (address value : Nat) :
    (memory.putWord address value).bytes.size = memory.bytes.size := by
  simp [putWord, size_putByte]

theorem size_putWords (memory : Memory) (address : Nat) (words : List Nat) :
    (memory.putWords address words).bytes.size = memory.bytes.size := by
  induction words generalizing memory address with
  | nil => rfl
  | cons word rest ih => rw [putWords, ih, size_putWord]

/-- The three bytes of a word that was put are read back, and no other byte changes. -/
theorem byte_putWord (memory : Memory) (address read value : Nat)
    (h : address + 2 < memory.bytes.size) :
    (memory.putWord address value).byte read =
      if address = read then Word.highByte value
      else if address + 1 = read then Word.middleByte value
      else if address + 2 = read then Word.lowByte value
      else memory.byte read := by
  rw [putWord, byte_putByte _ _ _ _ (by simp only [size_putByte]; omega),
    byte_putByte _ _ _ _ (by simp only [size_putByte]; omega), byte_putByte _ _ _ _ (by omega)]
  split
  · rw [if_neg (by omega), if_neg (by omega)]
  · split
    · rw [if_neg (by omega)]
    · rfl

/-- A word that was put is read back as far as a word reaches. -/
theorem word_putWord (memory : Memory) (address value : Nat)
    (h : address + 2 < memory.bytes.size) :
    (memory.putWord address value).word address = wrap value := by
  rw [word, byte_putWord _ _ _ _ h, byte_putWord _ _ _ _ h, byte_putWord _ _ _ _ h]
  simp [Word.ofBytes_bytes]

theorem byte_putByte_of_ne (memory : Memory) {address read : Nat} (value : UInt8)
    (h : address ≠ read) : (memory.putByte address value).byte read = memory.byte read := by
  simp [putByte, byte, h]

/-- A word changes no byte in front of it or behind it. -/
theorem byte_putWord_of_outside (memory : Memory) {address read : Nat} (value : Nat)
    (h : read < address ∨ address + wordBytes ≤ read) :
    (memory.putWord address value).byte read = memory.byte read := by
  simp only [wordBytes] at h
  rw [putWord, byte_putByte_of_ne _ _ (by omega), byte_putByte_of_ne _ _ (by omega),
    byte_putByte_of_ne _ _ (by omega)]

/-- A byte that is put where it stands changes nothing. -/
theorem putByte_byte (memory : Memory) (address : Nat) :
    memory.putByte address (memory.byte address) = memory := by
  obtain ⟨bytes⟩ := memory
  unfold putByte byte Array.setIfInBounds
  split
  · simp
  · rfl

theorem putWord_word (memory : Memory) (address : Nat) :
    memory.putWord address (memory.word address) = memory := by
  rw [putWord, word, Word.highByte_ofBytes, Word.middleByte_ofBytes, Word.lowByte_ofBytes,
    putByte_byte, putByte_byte, putByte_byte]

/-- Consecutive words change no byte in front of the first or behind the last. -/
theorem byte_putWords_of_outside (memory : Memory) {address read : Nat} (words : List Nat)
    (h : read < address ∨ address + words.length * wordBytes ≤ read) :
    (memory.putWords address words).byte read = memory.byte read := by
  induction words generalizing memory address with
  | nil => rfl
  | cons value rest ih =>
    have hrest : read < address + wordBytes ∨
        address + wordBytes + rest.length * wordBytes ≤ read := by
      simp only [List.length_cons, wordBytes] at h ⊢
      omega
    have hfirst : read < address ∨ address + wordBytes ≤ read := by
      simp only [List.length_cons, wordBytes] at h ⊢
      omega
    rw [putWords, ih _ hrest, byte_putWord_of_outside _ _ hfirst]

/-- Each of several words that were put is read back as far as a word reaches. -/
theorem word_putWords (memory : Memory) {address : Nat} {words : List Nat}
    (hfits : address + words.length * wordBytes ≤ memory.bytes.size) {i : Nat}
    (hi : i < words.length) :
    (memory.putWords address words).word (address + i * wordBytes) = wrap words[i] := by
  induction words generalizing memory address i with
  | nil => simp at hi
  | cons value rest ih =>
    simp only [List.length_cons, wordBytes] at hfits
    cases i with
    | zero =>
      -- The words behind the first lie behind its three bytes.
      have hbehind : ∀ read < address + wordBytes,
          ((memory.putWord address value).putWords (address + wordBytes) rest).byte read =
            (memory.putWord address value).byte read :=
        fun read hread => byte_putWords_of_outside _ _ (.inl hread)
      simp only [wordBytes] at hbehind
      rw [putWords, Nat.zero_mul, Nat.add_zero, word, wordBytes, hbehind _ (by omega),
        hbehind _ (by omega), hbehind _ (by omega)]
      exact word_putWord memory address value (by omega)
    | succ i =>
      have hrest : address + wordBytes + rest.length * wordBytes ≤
          (memory.putWord address value).bytes.size := by
        rw [size_putWord]
        simp only [wordBytes]
        omega
      have hplace : address + (i + 1) * wordBytes = address + wordBytes + i * wordBytes := by
        simp only [wordBytes]
        omega
      rw [putWords, hplace, ih _ hrest (Nat.lt_of_succ_lt_succ hi), List.getElem_cons_succ]

theorem loadWords_eq_ok_iff {memory written : Memory} {start : Nat} {words : List Nat} :
    memory.loadWords start words = .ok written ↔
      words.length * wordBytes ≤ memorySize - start ∧ memory.putWords start words = written := by
  unfold loadWords
  by_cases hsize : words.length * wordBytes ≤ memorySize - start <;> simp [hsize]

theorem loadWords_of_fits (memory : Memory) {start : Nat} {words : List Nat}
    (h : start + words.length * wordBytes ≤ memorySize) :
    memory.loadWords start words = .ok (memory.putWords start words) := by
  apply if_pos
  omega

theorem byte_replicate (size address : Nat) : byte ⟨Array.replicate size 0⟩ address = 0 := by
  simp only [byte, Array.getD_eq_getD_getElem?, Array.getElem?_replicate]
  split <;> rfl

theorem byte_clear (memory : Memory) (address : Nat) : memory.clear.byte address = 0 :=
  byte_replicate ..

theorem byte_zero (address : Nat) : zero.byte address = 0 := byte_replicate ..

theorem word_zero (address : Nat) : zero.word address = 0 := by
  simp only [word, byte_zero]
  rfl

/-- The number of bytes that are not zero, beside the size. -/
def recordText (memory : Memory) : String :=
  "Memory \x7b non_zero_bytes: " ++ toString (memory.bytes.countP (· != 0)) ++
    ", total_bytes: " ++ toString memorySize ++ " \x7d"

end Memory

end SicMachine
