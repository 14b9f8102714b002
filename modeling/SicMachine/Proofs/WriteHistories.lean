import Mathlib.Data.List.Induction
import SicMachine.Proofs.ReachableMachines

/-!
What memory holds, told by its history. A fresh memory is changed by single
bytes, words, loads and clearing, each of which is carried out as a whole or
not at all. Every byte is the one that was put there last. The invariant is
that the history and the memory tell the same byte for every address; a change
keeps it because the bytes that it puts and the bytes that it leaves alone are
known.
-/
namespace SicMachine

namespace Word

/-- The bytes of the low 24 bits of a value, the most significant first. -/
def digits (value : Nat) : List Nat :=
  [value % wordLimit / 65536, value % wordLimit / 256 % 256, value % 256]

theorem exists_digits (value : Nat) {i : Nat} (h : i < wordBytes) :
    ∃ digit, (digits value)[i]? = some digit :=
  ⟨_, List.getElem?_eq_getElem h⟩

end Word

namespace Memory

/-- The operations that change memory. -/
inductive Change where
  | byte (address value : Nat)
  | word (address value : Nat)
  | words (start : Nat) (values : List Nat)
  | clear

namespace Change

def command : Change → Session.Command
  | byte address value => .writeByte address value
  | word address value => .writeWord address value
  | words start values => .loadWords start values
  | clear => .clear

/-- There is room for all bytes of a change. -/
def Inside : Change → Prop
  | byte address _ => address + 1 ≤ memorySize
  | word address _ => address + 3 ≤ memorySize
  | words start values => 3 * values.length ≤ memorySize - start
  | clear => True

instance : DecidablePred Inside
  | byte _ _ => inferInstanceAs (Decidable (_ ≤ _))
  | word _ _ => inferInstanceAs (Decidable (_ ≤ _))
  | words _ _ => inferInstanceAs (Decidable (_ ≤ _))
  | clear => inferInstanceAs (Decidable True)

/-- A change that is carried out puts a byte at an address. Clearing puts zero at every address. -/
inductive Puts : Change → Nat → Nat → Prop
  | byte {address value : Nat} (h : Inside (.byte address value)) :
      Puts (.byte address value) address (value % 256)
  | word {address value i digit : Nat} (h : Inside (.word address value))
      (hdigit : (Word.digits value)[i]? = some digit) :
      Puts (.word address value) (address + i) digit
  | words {start : Nat} {values : List Nat} {k value i digit : Nat}
      (h : Inside (.words start values)) (hvalue : values[k]? = some value)
      (hdigit : (Word.digits value)[i]? = some digit) :
      Puts (.words start values) (start + 3 * k + i) digit
  | clear {address : Nat} : Puts .clear address 0

/-- The memory behind a change for which there is room. -/
def apply (memory : Memory) : Change → Memory
  | byte address value => memory.putByte address (UInt8.ofNat value)
  | word address value => memory.putWord address value
  | words start values => memory.putWords start values
  | clear => memory.clear

variable {change : Change} {memory : Memory}

theorem inside_of_puts {address digit : Nat} (h : change.Puts address digit) : change.Inside := by
  cases h with
  | byte h | word h | words h => exact h
  | clear => exact trivial

theorem perform_of_inside (session : Session) (h : change.Inside) :
    session.perform change.command =
      ({ session with
        machine := session.machine.withMemory (change.apply session.machine.memory) }, .done) := by
  cases change with
  | byte address value =>
    exact Session.work_inMemory_of_ok (Access.performs_writeByte address value) _ (if_pos h)
  | word address value =>
    exact Session.work_inMemory_of_ok (Access.performs_writeWord address value) _ (if_pos h)
  | words start values =>
    have hsize : values.length * wordBytes ≤ memorySize - start := by
      rwa [wordBytes, Nat.mul_comm]
    exact Session.work_inMemory_of_ok (Access.performs_loadWords start values) _ (if_pos hsize)
  | clear => rfl

theorem perform_of_not_inside (session : Session) (h : ¬ change.Inside) :
    ∃ error, session.perform change.command = (session, .failed (.memory error)) := by
  cases change with
  | byte address value =>
    exact ⟨_, Session.work_inMemory_of_error (Access.performs_writeByte address value) _
      (if_neg h)⟩
  | word address value =>
    exact ⟨_, Session.work_inMemory_of_error (Access.performs_writeWord address value) _
      (if_neg h)⟩
  | words start values =>
    have hsize : ¬ values.length * wordBytes ≤ memorySize - start := by
      rwa [wordBytes, Nat.mul_comm]
    exact ⟨_, Session.work_inMemory_of_error (Access.performs_loadWords start values) _
      (if_neg hsize)⟩
  | clear => exact absurd trivial h

/-- A word that is read back tells the bytes in its places. -/
theorem byte_of_word {address value i digit : Nat} (h : memory.word address = wrap value)
    (hdigit : (Word.digits value)[i]? = some digit) :
    (memory.byte (address + i)).toNat = digit := by
  have hmiddle := (memory.byte (address + 1)).toNat_lt
  have hlow := (memory.byte (address + 2)).toNat_lt
  simp only [Memory.word, Word.ofBytes, wrap, wordLimit] at h
  rcases i with _ | _ | _ | i
  · simp only [Word.digits, wordLimit, List.getElem?_cons_zero, Option.some.injEq] at hdigit
    rw [Nat.add_zero]
    omega
  · simp only [Word.digits, wordLimit, List.getElem?_cons_zero, List.getElem?_cons_succ,
      Option.some.injEq] at hdigit
    show (memory.byte (address + 1)).toNat = digit
    omega
  · simp only [Word.digits, List.getElem?_cons_zero, List.getElem?_cons_succ,
      Option.some.injEq] at hdigit
    show (memory.byte (address + 2)).toNat = digit
    omega
  · cases hdigit

theorem byte_apply_of_puts (hmemory : memory.bytes.size = memorySize) {address digit : Nat}
    (h : change.Puts address digit) : ((change.apply memory).byte address).toNat = digit := by
  cases h with
  | @byte _ value h =>
    have hinside : address < memory.bytes.size := by
      rw [hmemory]
      exact h
    rw [apply, byte_putByte memory address address _ hinside, if_pos rfl, UInt8.toNat_ofNat']
  | @word start value i _ h hdigit =>
    have hinside : start + 2 < memory.bytes.size := by
      rw [hmemory]
      exact h
    exact byte_of_word (memory.word_putWord start value hinside) hdigit
  | @words start values k value i _ h hvalue hdigit =>
    obtain ⟨hk, rfl⟩ := List.getElem?_eq_some_iff.1 hvalue
    have hinside : start + values.length * wordBytes ≤ memory.bytes.size := by
      simp only [Inside] at h
      rw [hmemory, wordBytes]
      omega
    have hword := memory.word_putWords hinside hk
    rw [wordBytes, Nat.mul_comm] at hword
    exact byte_of_word hword hdigit
  | clear => rw [apply, byte_clear, UInt8.toNat_zero]

theorem byte_apply_of_not_puts {address : Nat} (hinside : change.Inside)
    (h : ∀ digit, ¬ change.Puts address digit) :
    (change.apply memory).byte address = memory.byte address := by
  cases change with
  | byte start value =>
    have hother : start ≠ address := by
      rintro rfl
      exact h _ (.byte hinside)
    exact memory.byte_putByte_of_ne _ hother
  | word start value =>
    refine memory.byte_putWord_of_outside value ?_
    by_contra hspan
    obtain ⟨i, rfl⟩ := Nat.exists_eq_add_of_le (show start ≤ address by omega)
    obtain ⟨digit, hdigit⟩ := Word.exists_digits value (i := i) (by omega)
    exact h digit (.word hinside hdigit)
  | words start values =>
    refine memory.byte_putWords_of_outside values ?_
    by_contra hspan
    rw [wordBytes] at hspan
    -- The address is byte `i % 3` of word `i / 3`.
    obtain ⟨i, rfl⟩ := Nat.exists_eq_add_of_le (show start ≤ address by omega)
    have hk : i / 3 < values.length := by omega
    obtain ⟨digit, hdigit⟩ :=
      Word.exists_digits values[i / 3] (i := i % 3) (Nat.mod_lt i (by decide))
    have hputs := Puts.words hinside (List.getElem?_eq_getElem hk) hdigit
    rw [Nat.add_assoc, Nat.div_add_mod] at hputs
    exact h digit hputs
  | clear => exact absurd .clear (h 0)

end Change

/-! ### Histories -/

/-- A fresh machine behind these changes. -/
def written (changes : List Change) : Session :=
  changes.foldl (fun session change => (session.perform change.command).1) .initial

/-- The byte that was put at an address last, or zero when none was put there. -/
def LastPut (changes : List Change) (address digit : Nat) : Prop :=
  (∃ before change after, changes = before ++ change :: after ∧ change.Puts address digit ∧
    ∀ later ∈ after, ∀ other, ¬ later.Puts address other) ∨
  digit = 0 ∧ ∀ change ∈ changes, ∀ other, ¬ change.Puts address other

theorem written_concat (changes : List Change) (change : Change) :
    written (changes ++ [change]) = ((written changes).perform change.command).1 := by
  rw [written, List.foldl_append]
  rfl

theorem size_written (changes : List Change) :
    (written changes).machine.memory.bytes.size = memorySize := by
  have hwellFormed : (written changes).machine.WellFormed := by
    induction changes using List.reverseRecOn with
    | nil => exact Machine.wellFormed_zero
    | append_singleton changes change ih =>
      rw [written_concat]
      exact Session.perform_wellFormed ih change.command
  exact hwellFormed.2

theorem byte_written_of_puts {changes : List Change} {change : Change} {address digit : Nat}
    (h : change.Puts address digit) :
    ((written (changes ++ [change])).machine.memory.byte address).toNat = digit := by
  rw [written_concat, Change.perform_of_inside _ (Change.inside_of_puts h)]
  exact Change.byte_apply_of_puts (size_written changes) h

theorem byte_written_of_not_puts {changes : List Change} {change : Change} {address : Nat}
    (h : ∀ digit, ¬ change.Puts address digit) :
    (written (changes ++ [change])).machine.memory.byte address =
      (written changes).machine.memory.byte address := by
  rw [written_concat]
  by_cases hinside : change.Inside
  · rw [Change.perform_of_inside _ hinside]
    exact Change.byte_apply_of_not_puts hinside h
  · obtain ⟨error, hperform⟩ := Change.perform_of_not_inside (written changes) hinside
    rw [hperform]

/-- The last change decides when it puts a byte there. -/
theorem lastPut_concat_iff {changes : List Change} {change : Change} {address digit : Nat} :
    LastPut (changes ++ [change]) address digit ↔
      change.Puts address digit ∨
        (∀ other, ¬ change.Puts address other) ∧ LastPut changes address digit := by
  constructor
  · rintro (⟨before, found, after, hsplit, hputs, hlater⟩ | ⟨hzero, hnone⟩)
    · rcases List.eq_nil_or_concat after with rfl | ⟨between, last, rfl⟩
      · obtain ⟨rfl, hlast⟩ := List.append_inj' hsplit rfl
        cases hlast
        exact Or.inl hputs
      · rw [List.concat_eq_append] at hsplit hlater
        rw [← List.cons_append, ← List.append_assoc] at hsplit
        obtain ⟨rfl, hlast⟩ := List.append_inj' hsplit rfl
        cases hlast
        obtain ⟨hbetween, hlast⟩ := List.forall_mem_append.1 hlater
        exact Or.inr ⟨hlast change List.mem_cons_self,
          Or.inl ⟨before, found, between, rfl, hputs, hbetween⟩⟩
    · obtain ⟨hnone, hlast⟩ := List.forall_mem_append.1 hnone
      exact Or.inr ⟨hlast change List.mem_cons_self, Or.inr ⟨hzero, hnone⟩⟩
  · rintro (hputs | ⟨hlast, hbefore⟩)
    · exact Or.inl ⟨changes, change, [], rfl, hputs, by simp⟩
    · have hlast : ∀ later ∈ [change], ∀ other, ¬ later.Puts address other := by
        simpa using hlast
      rcases hbefore with ⟨before, found, after, rfl, hputs, hlater⟩ | ⟨hzero, hnone⟩
      · refine Or.inl ⟨before, found, after ++ [change], ?_, hputs,
          List.forall_mem_append.2 ⟨hlater, hlast⟩⟩
        rw [List.append_assoc, List.cons_append]
      · exact Or.inr ⟨hzero, List.forall_mem_append.2 ⟨hnone, hlast⟩⟩

/-- The history of a memory tells its bytes. -/
theorem lastPut_iff {changes : List Change} {address digit : Nat} :
    LastPut changes address digit ↔
      ((written changes).machine.memory.byte address).toNat = digit := by
  induction changes using List.reverseRecOn with
  | nil =>
    have hzero : ((written []).machine.memory.byte address).toNat = 0 :=
      congrArg UInt8.toNat (byte_zero address)
    rw [hzero]
    constructor
    · rintro (⟨before, found, after, hsplit, -⟩ | ⟨hdigit, -⟩)
      · simp at hsplit
      · exact hdigit.symm
    · intro hdigit
      exact Or.inr ⟨hdigit.symm, by simp⟩
  | append_singleton changes change ih =>
    rw [lastPut_concat_iff]
    by_cases hputs : ∃ other, change.Puts address other
    · obtain ⟨other, hputs⟩ := hputs
      constructor
      · rintro (h | ⟨hnone, -⟩)
        · exact byte_written_of_puts h
        · exact absurd hputs (hnone other)
      · intro h
        rw [← h, byte_written_of_puts hputs]
        exact Or.inl hputs
    · have hnone : ∀ other, ¬ change.Puts address other := fun other h => hputs ⟨other, h⟩
      rw [byte_written_of_not_puts hnone, ← ih]
      constructor
      · rintro (h | ⟨-, h⟩)
        · exact absurd h (hnone digit)
        · exact h
      · intro h
        exact Or.inr ⟨hnone, h⟩

/-- A change succeeds exactly when there is room for all its bytes, and otherwise changes nothing.
Behind any changes, a byte can be read exactly inside memory and is the one put there last, and a
word consists of three such bytes. -/
theorem last_write_wins (changes : List Change) :
    (∀ change : Change,
      (((written changes).perform change.command).2 = .done ↔ change.Inside) ∧
        (¬ change.Inside → ((written changes).perform change.command).1 = written changes)) ∧
    (∀ address,
      ((∃ byte, (written changes).machine.memory.readByte address = .ok byte) ↔
        address < memorySize) ∧
      ∀ byte, (written changes).machine.memory.readByte address = .ok byte ↔
        address < memorySize ∧ LastPut changes address byte.toNat) ∧
    ∀ address,
      ((∃ word, (written changes).machine.memory.readWord address = .ok word) ↔
        address ≤ 32765) ∧
      ∀ word, (written changes).machine.memory.readWord address = .ok word ↔
        address ≤ 32765 ∧ ∃ high middle low, LastPut changes address high ∧
          LastPut changes (address + 1) middle ∧ LastPut changes (address + 2) low ∧
          word = high * 65536 + middle * 256 + low := by
  refine ⟨fun change => ⟨⟨?_, ?_⟩, ?_⟩, fun address => ⟨?_, fun byte => ?_⟩,
    fun address => ⟨?_, fun word => ?_⟩⟩
  · intro hdone
    by_contra houtside
    obtain ⟨error, hperform⟩ := Change.perform_of_not_inside (written changes) houtside
    rw [hperform] at hdone
    cases hdone
  · intro hinside
    rw [Change.perform_of_inside _ hinside]
  · intro houtside
    obtain ⟨error, hperform⟩ := Change.perform_of_not_inside (written changes) houtside
    rw [hperform]
  · simp only [readByte_eq_ok_iff, exists_and_left, exists_eq', and_true]
    exact Iff.rfl
  · rw [readByte_eq_ok_iff, lastPut_iff, UInt8.toNat_inj]
    exact Iff.rfl
  · simp only [readWord_eq_ok_iff, exists_and_left, exists_eq', and_true]
    exact fits_word_iff
  · simp only [readWord_eq_ok_iff, lastPut_iff, fits_word_iff, exists_and_left, exists_eq_left']
    rw [Memory.word, Word.ofBytes, eq_comm (b := word)]

/-- A byte is put into the middle of a word, and a second word does not fit. -/
def overlapping : List Change := [.word 10 0x1ABCDEF, .byte 11 0x123, .word 0xFFFFFFFF 0]

theorem lastPut_overlapping :
    LastPut overlapping 10 0xAB ∧ LastPut overlapping 11 0x23 ∧ LastPut overlapping 12 0xEF := by
  have hfirst : ∀ {i digit : Nat}, (Word.digits 0x1ABCDEF)[i]? = some digit →
      Change.Puts (.word 10 0x1ABCDEF) (10 + i) digit := .word (by decide)
  have hbyte : Change.Puts (.byte 11 0x123) 11 0x23 := .byte (by decide)
  refine ⟨Or.inl ⟨[], _, _, rfl, hfirst (i := 0) rfl, ?_⟩, Or.inl ⟨[_], _, _, rfl, hbyte, ?_⟩,
    Or.inl ⟨[], _, _, rfl, hfirst (i := 2) rfl, ?_⟩⟩
  all_goals
    intro later hlater other hputs
    simp only [List.mem_cons, List.not_mem_nil, or_false] at hlater
    have hinside := Change.inside_of_puts hputs
  · rcases hlater with rfl | rfl
    · cases hputs
    · exact absurd hinside (by decide)
  · subst hlater
    exact absurd hinside (by decide)
  · rcases hlater with rfl | rfl
    · cases hputs
    · exact absurd hinside (by decide)

theorem overlapping_last_write_wins :
    (written overlapping).machine.memory.readWord 10 = .ok 0xAB23EF ∧
      ((written overlapping).perform (.writeWord 0xFFFFFFFF 0)).1 = written overlapping := by
  obtain ⟨hchange, -, hword⟩ := last_write_wins overlapping
  obtain ⟨hhigh, hmiddle, hlow⟩ := lastPut_overlapping
  constructor
  · exact ((hword 10).2 0xAB23EF).2 ⟨by decide, 0xAB, 0x23, 0xEF, hhigh, hmiddle, hlow, rfl⟩
  · exact (hchange (.word 0xFFFFFFFF 0)).2 (by decide)

end Memory

end SicMachine
