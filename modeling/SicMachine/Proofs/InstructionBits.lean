import SicMachine.Instruction

/-!
An instruction and its word determine each other bit by bit. The opcode stands in bits 23 to 16, the
index flag in bit 15 and the address in bits 14 to 0, and above them there is nothing. `Holds` says
this of a word and three fields. Exactly one word holds given fields, and it is the word of the
encoded instruction. So decoding and encoding undo each other, and an address that is too wide
reaches neither the index flag nor the opcode.
-/
namespace SicMachine.Instruction

/-- The bits of a word are those of an opcode, an index flag and the low 15 bits of an address. -/
structure Holds (word : Nat) (opcode : UInt8) (indexed : Bool) (address : Nat) : Prop where
  opcode_bits : ∀ k, word.testBit (k + 16) = opcode.toNat.testBit k
  index_bit : word.testBit 15 = indexed
  address_bits : ∀ k < 15, word.testBit k = address.testBit k

theorem testBit_flag (flag : Bool) (k : Nat) : flag.toNat.testBit k = (flag && k == 0) := by
  cases k with
  | zero => cases flag <;> rfl
  | succ k => cases flag <;> simp [Nat.testBit_add_one]

/-! ### The word of an instruction -/

/-- A word is a row of three numbers, each below the place where the next begins. -/
theorem testBit_word (i : Instruction) (k : Nat) :
    i.word.testBit k =
      if k < 15 then i.address.val.testBit k
      else if k - 15 < 1 then i.indexed.toNat.testBit (k - 15)
      else i.opcode.toNat.testBit (k - 15 - 1) := by
  have hrow : i.word = 2 ^ 15 * (2 ^ 1 * i.opcode.toNat + i.indexed.toNat) + i.address.val := by
    cases hindexed : i.indexed <;> simp [word, hindexed, addressLimit] <;> omega
  rw [hrow, Nat.testBit_two_pow_mul_add _ i.address.isLt,
    Nat.testBit_two_pow_mul_add _ (Bool.toNat_lt _)]

theorem holds_word (i : Instruction) : Holds i.word i.opcode i.indexed i.address.val where
  opcode_bits k := by
    rw [testBit_word, if_neg (by omega), if_neg (by omega)]
    rfl
  index_bit := by
    rw [testBit_word, if_neg (by decide), if_pos (by decide), testBit_flag]
    exact Bool.and_true _
  address_bits k hk := by rw [testBit_word, if_pos hk]

/-- Of the address only the bits that fit are encoded. -/
theorem holds_encode (opcode : UInt8) (indexed : Bool) (address : Nat) :
    Holds (encode opcode indexed address).word opcode indexed address where
  opcode_bits := (holds_word _).opcode_bits
  index_bit := (holds_word _).index_bit
  address_bits k hk := by
    have hlow : (address % 2 ^ 15).testBit k = address.testBit k := by
      rw [Nat.testBit_mod_two_pow, decide_eq_true hk, Bool.true_and]
    exact ((holds_word _).address_bits k hk).trans hlow

/-- Fields that are shifted to their places, cut and joined are held. -/
theorem holds_or (opcode : UInt8) (indexed : Bool) (address : Nat) :
    Holds (opcode.toNat <<< 16 ||| indexed.toNat <<< 15 ||| address &&& 0x7FFF)
      opcode indexed address := by
  have hmask : 0x7FFF = 2 ^ 15 - 1 := rfl
  have hbit : ∀ k,
      (opcode.toNat <<< 16 ||| indexed.toNat <<< 15 ||| address &&& 0x7FFF).testBit k =
        (decide (k ≥ 16) && opcode.toNat.testBit (k - 16) ||
          (decide (k ≥ 15) && (indexed && k - 15 == 0)) ||
          (address.testBit k && decide (k < 15))) := by
    intro k
    rw [hmask, Nat.testBit_or, Nat.testBit_or, Nat.testBit_and, Nat.testBit_shiftLeft,
      Nat.testBit_shiftLeft, testBit_flag, Nat.testBit_two_pow_sub_one]
  constructor
  · intro k
    have habove : ¬ k + 16 < 15 := by omega
    rw [hbit]
    simp [habove]
  · rw [hbit]
    simp
  · intro k hk
    have hbelow : ¬ 15 ≤ k := by omega
    have hbelow' : ¬ 16 ≤ k := by omega
    rw [hbit]
    simp [hk, hbelow, hbelow']

/-! ### Words that hold fields -/

section

variable {word : Nat} {opcode : UInt8} {indexed : Bool} {address : Nat}

/-- The fields leave no bit of the word open. -/
theorem Holds.unique {other : Nat} (h : Holds word opcode indexed address)
    (hother : Holds other opcode indexed address) : word = other := by
  apply Nat.eq_of_testBit_eq
  intro k
  rcases Nat.lt_trichotomy k 15 with hlow | rfl | hhigh
  · rw [h.address_bits k hlow, hother.address_bits k hlow]
  · rw [h.index_bit, hother.index_bit]
  · obtain ⟨above, rfl⟩ := Nat.exists_eq_add_of_le' (show 16 ≤ k from hhigh)
    rw [h.opcode_bits, hother.opcode_bits]

theorem Holds.opcode_eq (h : Holds word opcode indexed address) :
    word >>> 16 = opcode.toNat := by
  apply Nat.eq_of_testBit_eq
  intro k
  rw [Nat.testBit_shiftRight, Nat.add_comm, h.opcode_bits]

theorem Holds.index_eq (h : Holds word opcode indexed address) :
    word >>> 15 &&& 1 = indexed.toNat := by
  rw [Nat.and_one_is_mod, Nat.shiftRight_eq_div_pow, ← Nat.toNat_testBit, h.index_bit]

theorem Holds.flag_eq (h : Holds word opcode indexed address) :
    word &&& 0x8000 = indexed.toNat <<< 15 := by
  have hmask : 0x8000 = 2 ^ 15 := rfl
  apply Nat.eq_of_testBit_eq
  intro k
  rw [hmask, Nat.testBit_and, Nat.testBit_two_pow, Nat.testBit_shiftLeft, testBit_flag]
  by_cases hk : 15 = k
  · subst hk
    simp [h.index_bit]
  · simp [hk]
    omega

theorem Holds.address_eq (h : Holds word opcode indexed address) :
    word &&& 0x7FFF = address % addressLimit := by
  have hmask : 0x7FFF = 2 ^ 15 - 1 := rfl
  have hlimit : addressLimit = 2 ^ 15 := rfl
  rw [hmask, hlimit, Nat.and_two_pow_sub_one_eq_mod]
  apply Nat.eq_of_testBit_eq
  intro k
  rw [Nat.testBit_mod_two_pow, Nat.testBit_mod_two_pow]
  by_cases hk : k < 15
  · rw [h.address_bits k hk]
  · simp [hk]

end

/-- Decoding takes the words of 24 bits and no others. Each field of the instruction is the part of
the word that a shift or a mask takes out, and encoding the fields gives the instruction back. The
other way round, the word of what is encoded is the fields shifted and joined, it holds them bit by
bit, and it is decoded to the same instruction. -/
theorem decoding_inverts_encoding (word : Nat) (opcode : UInt8) (indexed : Bool) (address : Nat) :
    ((∃ i, decode word = .ok i) ↔ word ≤ 0xFFFFFF) ∧
    (∀ i, decode word = .ok i →
      encode i.opcode i.indexed i.address.val = i ∧ i.word = word ∧
        i.opcode.toNat = word >>> 16 ∧ i.indexBit = word >>> 15 &&& 1 ∧
        (i.indexed = true ↔ word &&& 0x8000 ≠ 0) ∧ i.address.val = word &&& 0x7FFF ∧
        (i.indexBit = 1 ↔ i.indexed = true)) ∧
    (encode opcode indexed address).word =
      opcode.toNat <<< 16 ||| indexed.toNat <<< 15 ||| address &&& 0x7FFF ∧
    Holds (encode opcode indexed address).word opcode indexed address ∧
    decode (encode opcode indexed address).word = .ok (encode opcode indexed address) ∧
    (encode opcode indexed address).opcode = opcode ∧
    (encode opcode indexed address).indexed = indexed ∧
    (encode opcode indexed address).address.val = address % 32768 := by
  refine ⟨?_, ?_, ?_, holds_encode opcode indexed address, decode_word _, rfl, rfl, rfl⟩
  · constructor
    · rintro ⟨i, hi⟩
      rw [← decode_eq_ok_iff.1 hi]
      exact Nat.le_of_lt_succ i.word_lt
    · intro hword
      exact ⟨ofWord word, decode_of_lt (Nat.lt_succ_of_le hword)⟩
  · intro i hi
    obtain rfl := decode_eq_ok_iff.1 hi
    have hholds := i.holds_word
    have hbit : i.indexBit = i.indexed.toNat := by
      cases hindexed : i.indexed <;> simp [indexBit, hindexed]
    refine ⟨i.encode_fields, rfl, hholds.opcode_eq.symm, hbit.trans hholds.index_eq.symm, ?_, ?_,
      ?_⟩
    · rw [hholds.flag_eq]
      cases i.indexed <;> decide
    · rw [hholds.address_eq, Nat.mod_eq_of_lt i.address.isLt]
    · rw [hbit]
      cases i.indexed <;> decide
  · exact (holds_encode opcode indexed address).unique (holds_or opcode indexed address)

/-- A store with the index flag is encoded from what it was decoded to. A jump to an address of 16
bits is encoded without the highest of them, and without the index flag. -/
theorem indexed_store_and_wide_jump :
    (∃ i, decode 0x0CA000 = .ok i ∧ encode i.opcode i.indexed i.address.val = i ∧
      i.opcode = 0x0C ∧ i.indexed = true ∧ i.address.val = 0x2000) ∧
    (encode 0x3C false 0x8001).word = 0x3C0001 ∧
    decode (encode 0x3C false 0x8001).word = .ok (encode 0x3C false 1) := by
  obtain ⟨htakes, hdecoded, hword, -, hencoded, -⟩ :=
    decoding_inverts_encoding 0x0CA000 0x3C false 0x8001
  obtain ⟨i, hi⟩ := htakes.2 (by decide)
  obtain ⟨hback, -, hopcode, -, hflag, haddress, -⟩ := hdecoded i hi
  exact ⟨⟨i, hi, hback, UInt8.toNat_inj.1 hopcode, hflag.2 (by decide), haddress⟩, hword, hencoded⟩

end SicMachine.Instruction
