import SicMachine.Proofs.StepCases
import Mathlib.Algebra.Group.Nat.Defs
import Mathlib.Algebra.Group.Int.Defs
import Mathlib.Logic.Function.Basic

/-!
The instructions once more, as equations between numbers. A state of the
reference is one number for each register and one for each byte of memory;
sums, products and addresses are exact, and a remainder is taken only where a
register has to hold the result. Whatever an instruction does not name stays
as it is. A step that succeeds leads to the state that the reference gives.
-/
namespace SicMachine

/-- Registers and bytes of memory as numbers. -/
structure Reference where
  register : Register → Nat
  byte : Nat → Nat

namespace Reference

/-- The word at an address, the most significant byte first. -/
def word (s : Reference) (address : Nat) : Nat :=
  s.byte address * 65536 + s.byte (address + 1) * 256 + s.byte (address + 2)

/-- Changes one register. -/
def assign (s : Reference) (register : Register) (value : Nat) : Reference :=
  { s with register := Function.update s.register register value }

/-- Changes one byte. -/
def storeByte (s : Reference) (address value : Nat) : Reference :=
  { s with byte := Function.update s.byte address (value % 256) }

/-- Changes three bytes. -/
def storeWord (s : Reference) (address value : Nat) : Reference :=
  ((s.storeByte address (value / 65536)).storeByte (address + 1) (value / 256)).storeByte
    (address + 2) value

/-- Sets the status word to the sign between two numbers. -/
def compare (s : Reference) (left right : Nat) : Reference :=
  s.assign .sw (if left < right then 0x3C else if left = right then 0x3D else 0x3E)

def jump (s : Reference) (target : Nat) : Reference := s.assign .pc (target % 2 ^ 24)

/-- Jumps when the status word holds a sign. -/
def jumpIf (s : Reference) (sign target : Nat) : Reference :=
  if s.register .sw = sign then s.jump target else s

/-- The state after an instruction with the effective address `ea`, when PC has been moved on. The
instructions for devices have none. -/
def execute (s : Reference) (ea : Nat) : Mnemonic → Option Reference
  | .lda => some (s.assign .a (s.word ea))
  | .ldx => some (s.assign .x (s.word ea))
  | .ldl => some (s.assign .l (s.word ea))
  | .sta => some (s.storeWord ea (s.register .a))
  | .stx => some (s.storeWord ea (s.register .x))
  | .stl => some (s.storeWord ea (s.register .l))
  | .stsw => some (s.storeWord ea (s.register .sw))
  | .ldch => some (s.assign .a (s.register .a - s.register .a % 256 + s.byte ea))
  | .stch => some (s.storeByte ea (s.register .a))
  | .add => some (s.assign .a ((s.register .a + s.word ea) % 2 ^ 24))
  | .sub => some (s.assign .a (((s.register .a : Int) - s.word ea) % 2 ^ 24).toNat)
  | .mul => some (s.assign .a (s.register .a * s.word ea % 2 ^ 24))
  | .div => some (s.assign .a (s.register .a / s.word ea))
  | .and => some (s.assign .a (s.register .a &&& s.word ea))
  | .or => some (s.assign .a (s.register .a ||| s.word ea))
  | .comp => some (s.compare (s.register .a) (s.word ea))
  | .tix =>
    let counted := (s.register .x + 1) % 2 ^ 24
    some ((s.assign .x counted).compare counted (s.word ea))
  | .j => some (s.jump ea)
  | .jeq => some (s.jumpIf 0x3D ea)
  | .jgt => some (s.jumpIf 0x3E ea)
  | .jlt => some (s.jumpIf 0x3C ea)
  | .jsub => some ((s.assign .l (s.register .pc)).jump ea)
  | .rsub => some (s.assign .pc (s.register .l))
  | .rd => none
  | .td => none
  | .wd => none

/-- The state after the instruction at PC. -/
def next (s : Reference) : Option Reference :=
  let pc := s.register .pc
  let w := s.word pc
  let ea := w % 2 ^ 15 + w / 2 ^ 15 % 2 * s.register .x
  (Mnemonic.all.find? fun mnemonic => mnemonic.opcode.toNat == w / 2 ^ 16).bind
    ((s.assign .pc (pc + 3)).execute ea)

/-- The numbers that registers and memory hold. -/
def view (r : Registers) (memory : Memory) : Reference :=
  ⟨r.get, fun address => (memory.byte address).toNat⟩

section View

variable (r : Registers) (memory : Memory)

theorem view_set (register : Register) (value : Nat) :
    view (r.set register value) memory = (view r memory).assign register (wrap value) := by
  have hget : (r.set register value).get = Function.update r.get register (wrap value) := by
    funext read
    rw [Registers.get_set, Function.update_apply]
    by_cases h : register = read
    · rw [if_pos h, if_pos h.symm]
    · rw [if_neg h, if_neg (Ne.symm h)]
  rw [view, hget]
  rfl

theorem view_putByte (address : Nat) (value : Nat) (h : address < memory.bytes.size) :
    view r (memory.putByte address (UInt8.ofNat value)) =
      (view r memory).storeByte address value := by
  have hbyte : (fun read => ((memory.putByte address (UInt8.ofNat value)).byte read).toNat) =
      Function.update (fun read => (memory.byte read).toNat) address (value % 256) := by
    funext read
    rw [Memory.byte_putByte memory address read _ h, Function.update_apply]
    by_cases hread : address = read
    · rw [if_pos hread, if_pos hread.symm, UInt8.toNat_ofNat']
    · rw [if_neg hread, if_neg (Ne.symm hread)]
  rw [view, hbyte]
  rfl

theorem view_putWord (address : Nat) (value : Nat) (h : address + 2 < memory.bytes.size) :
    view r (memory.putWord address value) = (view r memory).storeWord address value := by
  rw [Memory.putWord, Word.highByte, Word.middleByte, Word.lowByte, storeWord,
    view_putByte _ _ _ _ (by simp only [Memory.size_putByte]; omega),
    view_putByte _ _ _ _ (by simp only [Memory.size_putByte]; omega),
    view_putByte _ _ _ _ (by omega)]

theorem compare_view (left right : Nat) :
    view (r.setConditionCode (ConditionCode.compare left right)) memory =
      (view r memory).compare left right := by
  rw [Registers.setConditionCode, view_set, compare]
  unfold ConditionCode.compare
  split
  · rfl
  · split <;> rfl

theorem jumpIf_view (cc : ConditionCode) (address : Nat) :
    (view r memory).jumpIf cc.toWord address =
      view (Effect.jumpIf r cc address).registers memory := by
  have hiff : r.conditionCode? = some cc ↔ (view r memory).register .sw = cc.toWord :=
    ConditionCode.ofWord?_eq_some_iff
  rw [jumpIf, Effect.jumpIf, Effect.onRegisters]
  by_cases hsign : (view r memory).register .sw = cc.toWord
  · rw [if_pos hsign, if_pos (hiff.2 hsign), view_set]
    rfl
  · rw [if_neg hsign, if_neg (fun hcc => hsign (hiff.1 hcc))]

end View

section Effects

variable {r : Registers} {memory : Memory} {address : Nat} {effect : Effect}

theorem view_of_withOperand {use : Nat → Registers}
    (h : Effect.withOperand memory address (fun word => .ok (use word)) = .ok effect) :
    view effect.registers (effect.memoryAfter memory) = view (use (memory.word address)) memory := by
  obtain ⟨-, registers, huse, rfl⟩ := Effect.withOperand_eq_ok_iff.1 h
  cases huse
  rfl

theorem view_of_store_word {value : Nat} (hsize : memory.bytes.size = memorySize)
    (h : Effect.withStore r (.word address value) = .ok effect) :
    view effect.registers (effect.memoryAfter memory) =
      (view r memory).storeWord address value := by
  obtain ⟨hfit, rfl⟩ := Effect.withStore_eq_ok_iff.1 h
  have hend : address + wordBytes ≤ memorySize := hfit
  have hinside : address + 2 < memory.bytes.size := by
    rw [hsize]
    exact hend
  exact view_putWord r memory address value hinside

theorem view_of_store_byte {value : Nat} (hsize : memory.bytes.size = memorySize)
    (h : Effect.withStore r (.byte address value) = .ok effect) :
    view effect.registers (effect.memoryAfter memory) =
      (view r memory).storeByte address value := by
  obtain ⟨hfit, rfl⟩ := Effect.withStore_eq_ok_iff.1 h
  have hinside : address < memory.bytes.size := by
    rw [hsize]
    exact hfit
  exact view_putByte r memory address value hinside

theorem view_of_load_byte (ha : r.a < wordLimit) (origin : Nat)
    (h : Effect.ofMnemonic r memory origin address .ldch = .ok effect) :
    view effect.registers (effect.memoryAfter memory) =
      (view r memory).assign .a (r.a - r.a % 256 + (memory.byte address).toNat) := by
  unfold Effect.ofMnemonic Memory.readByte at h
  by_cases hfit : Memory.Fits address 1
  · simp only [hfit, if_true] at h
    cases h
    have hlow := (memory.byte address).toNat_lt
    have hvalue : wrap (Word.withLowByte r.a (memory.byte address)) =
        r.a - r.a % 256 + (memory.byte address).toNat := by
      rw [Word.withLowByte_eq _ ha]
      simp only [wrap, byteLimit, wordLimit] at *
      omega
    have hregisters := view_set r memory .a (Word.withLowByte r.a (memory.byte address))
    rwa [hvalue] at hregisters
  · simp [hfit] at h

/-- The effect of every mnemonic is what the reference says. The sums and products of the effect
are cut to 32 bits before a register keeps 24 of them; the reference takes one remainder. -/
theorem execute_view (hr : r.InRange) (hsize : memory.bytes.size = memorySize) (origin : Nat)
    (mnemonic : Mnemonic) (h : Effect.ofMnemonic r memory origin address mnemonic = .ok effect) :
    (view r memory).execute address mnemonic =
      some (view effect.registers (effect.memoryAfter memory)) := by
  obtain ⟨ha, -, hl, hpc, -⟩ := hr
  have hword := memory.word_lt address
  cases mnemonic with
  | lda | ldx | ldl =>
    rw [view_of_withOperand h, view_set, wrap_of_lt hword]
    rfl
  | sta | stx | stl | stsw =>
    rw [view_of_store_word hsize h]
    rfl
  | ldch =>
    rw [view_of_load_byte ha origin h]
    rfl
  | stch =>
    rw [view_of_store_byte hsize h]
    rfl
  | add =>
    rw [view_of_withOperand h, view_set, wrap_sum]
    rfl
  | sub =>
    rw [view_of_withOperand h, view_set, wrap_difference]
    rfl
  | mul =>
    rw [view_of_withOperand h, view_set, wrap_product]
    rfl
  | div =>
    obtain ⟨-, registers, huse, rfl⟩ := Effect.withOperand_eq_ok_iff.1 h
    split at huse <;> cases huse
    have hquotient := Nat.lt_of_le_of_lt (Nat.div_le_self r.a (memory.word address)) ha
    rw [Effect.onRegisters, view_set, wrap_of_lt hquotient]
    rfl
  | and =>
    rw [view_of_withOperand h, view_set, wrap_of_lt (Nat.and_lt_two_pow (n := 24) r.a hword)]
    rfl
  | or =>
    rw [view_of_withOperand h, view_set, wrap_of_lt (Nat.or_lt_two_pow (n := 24) ha hword)]
    rfl
  | comp =>
    rw [view_of_withOperand h, compare_view]
    rfl
  | tix =>
    rw [view_of_withOperand h, compare_view, view_set]
    rfl
  | j =>
    cases h
    rw [Effect.onRegisters, view_set]
    rfl
  | jeq =>
    cases h
    exact congrArg some (jumpIf_view r memory .equal address)
  | jgt =>
    cases h
    exact congrArg some (jumpIf_view r memory .greater address)
  | jlt =>
    cases h
    exact congrArg some (jumpIf_view r memory .less address)
  | jsub =>
    cases h
    rw [Effect.onRegisters, view_set, view_set, wrap_of_lt hpc]
    rfl
  | rsub =>
    cases h
    rw [Effect.onRegisters, view_set, wrap_of_lt hl]
    rfl
  | rd | td | wd => cases h

end Effects

end Reference

namespace Machine

open Reference

theorem find_opcode (mnemonic : Mnemonic) (m : Machine)
    (hopcode : mnemonic.opcode.toNat = m.opcode) :
    (Mnemonic.all.find? fun other => other.opcode.toNat == m.fetched / 2 ^ 16) =
      some mnemonic := by
  have hvalue : m.fetched / 2 ^ 16 = mnemonic.opcode.toNat := hopcode.symm
  rw [hvalue]
  cases mnemonic <;> rfl

theorem next_view (m : Machine) (mnemonic : Mnemonic)
    (hopcode : mnemonic.opcode.toNat = m.opcode) :
    (view m.registers m.memory).next =
      ((view m.registers m.memory).assign .pc (m.registers.pc + 3)).execute m.target mnemonic :=
  congrArg
    (fun found : Option Mnemonic =>
      found.bind (((view m.registers m.memory).assign .pc (m.registers.pc + 3)).execute m.target))
    (find_opcode mnemonic m hopcode)

theorem view_advance (m : Machine) (hpc : Memory.Fits m.registers.pc wordBytes) :
    view m.registers.advance m.memory =
      (view m.registers m.memory).assign .pc (m.registers.pc + 3) := by
  have hsmall : m.registers.pc + wordBytes < wordLimit := by
    rw [Memory.fits_word_iff] at hpc
    simp only [wordBytes, wordLimit]
    omega
  rw [Registers.advance, view_set, wrap_of_lt hsmall]
  rfl

/-- A successful step leads to exactly the state that the reference gives, in every register and in
every byte, and returns the instruction whose fields make up the word at PC. -/
theorem step_eq_reference (m next : Machine) (i : Instruction) (hm : m.WellFormed)
    (h : m.step = (next, .ok i)) :
    (view m.registers m.memory).next = some (view next.registers next.memory) ∧
    next.memory.bytes.size = memorySize ∧
    i.word = m.memory.word m.registers.pc ∧
    i.opcode.toNat = i.word / 2 ^ 16 ∧
    i.indexBit = i.word / 2 ^ 15 % 2 ∧
    i.address.val = i.word % 2 ^ 15 := by
  obtain ⟨hrange, hsize⟩ := hm
  have houtcome := step_outcome m hrange
  rw [h] at houtcome
  cases houtcome with
  | executed hpc mnemonic hopcode effect heffect =>
    have hword : (Instruction.ofWord m.fetched).word = m.fetched :=
      Instruction.word_ofWord m.fetched_lt
    refine ⟨?_, (effect.size_memoryAfter m.memory).trans hsize, hword, ?_, ?_, ?_⟩
    · rw [next_view m mnemonic hopcode, ← view_advance m hpc]
      exact execute_view (hrange.set .pc _) hsize m.registers.pc mnemonic heffect
    · rw [hword]
      exact Instruction.opcode_ofWord m.fetched_lt
    · rw [hword]
      exact Instruction.indexBit_ofWord m.fetched
    · rw [hword]
      exact Instruction.address_ofWord m.fetched

/-- STA to the address behind its own opcode. -/
def storingOverItself : Machine := ⟨⟨0xABCDEF, 0, 0, 0, 0⟩, Memory.zero.putWord 0 0x0C0001⟩

theorem fetched_storingOverItself : storingOverItself.fetched = 0x0C0001 :=
  Memory.word_putWord _ _ _ (by rw [Memory.size_zero]; decide)

theorem step_storingOverItself :
    storingOverItself.step =
      (⟨⟨0xABCDEF, 0, 0, 3, 0⟩, storingOverItself.memory.putWord 1 0xABCDEF⟩,
        .ok (Instruction.ofWord 0x0C0001)) := by
  have hopcode : Mnemonic.sta.opcode.toNat = storingOverItself.opcode := by
    rw [opcode, fetched_storingOverItself]
    rfl
  have htarget : storingOverItself.target = 1 := by
    rw [target, fetched_storingOverItself]
    rfl
  have heffect := ofInstruction_fetched storingOverItself (by decide) .sta hopcode
  rw [htarget] at heffect
  rw [← fetched_storingOverItself]
  exact step_of_ok storingOverItself _ ⟨⟨0xABCDEF, 0, 0, 3, 0⟩, some (.word 1 0xABCDEF)⟩
    (fetch_of_fits storingOverItself (by decide)) heffect

theorem storingOverItself_eq_reference :
    storingOverItself.WellFormed ∧
      storingOverItself.step =
        (⟨⟨0xABCDEF, 0, 0, 3, 0⟩, storingOverItself.memory.putWord 1 0xABCDEF⟩,
          .ok (Instruction.ofWord 0x0C0001)) ∧
      (view storingOverItself.registers storingOverItself.memory).next =
        some (view ⟨0xABCDEF, 0, 0, 3, 0⟩ (storingOverItself.memory.putWord 1 0xABCDEF)) := by
  have hsize : storingOverItself.memory.bytes.size = memorySize :=
    (Memory.size_putWord ..).trans Memory.size_zero
  have hm : storingOverItself.WellFormed := ⟨by decide, hsize⟩
  exact ⟨hm, step_storingOverItself,
    (step_eq_reference storingOverItself _ _ hm step_storingOverItself).1⟩

end Machine

end SicMachine
