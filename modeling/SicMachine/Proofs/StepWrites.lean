import SicMachine.Proofs.StepSequences

/-!
What steps write. A step changes no byte but those of the store that it
executes, so a byte keeps its value along a run until a store reaches it. In
the same way every register but PC keeps its value until an instruction sets
it. Whether a step stores, and where, and what it sets, is read off the word at
PC.
-/
namespace SicMachine

/-- The number of bytes that an instruction stores, from the address of its operand on. -/
def Mnemonic.storeWidth : Mnemonic → Nat
  | sta => wordBytes
  | stx => wordBytes
  | stl => wordBytes
  | stsw => wordBytes
  | stch => 1
  | _ => 0

/-- The registers that an instruction sets, beside the advance of PC. -/
def Mnemonic.written : Mnemonic → List Register
  | lda | ldch | add | sub | mul | div | and | or => [.a]
  | ldx => [.x]
  | ldl => [.l]
  | comp => [.sw]
  | tix => [.x, .sw]
  | j | jeq | jgt | jlt | rsub => [.pc]
  | jsub => [.l, .pc]
  | _ => []

namespace Effect

variable {r : Registers} {memory : Memory} {origin address read : Nat} {effect : Effect}
  {mnemonic : Mnemonic} {register : Register}

theorem memoryAfter_of_withOperand {use : Nat → Except Fault Registers}
    (h : withOperand memory address use = .ok effect) : effect.memoryAfter memory = memory := by
  obtain ⟨-, registers, -, rfl⟩ := withOperand_eq_ok_iff.1 h
  rfl

theorem byte_of_store_word {value : Nat} (h : withStore r (.word address value) = .ok effect)
    (hread : read < address ∨ address + wordBytes ≤ read) :
    (effect.memoryAfter memory).byte read = memory.byte read := by
  obtain ⟨-, rfl⟩ := withStore_eq_ok_iff.1 h
  exact memory.byte_putWord_of_outside value hread

theorem byte_of_store_byte {value : Nat} (h : withStore r (.byte address value) = .ok effect)
    (hread : address ≠ read) : (effect.memoryAfter memory).byte read = memory.byte read := by
  obtain ⟨-, rfl⟩ := withStore_eq_ok_iff.1 h
  exact memory.byte_putByte_of_ne _ hread

/-- The effect of an instruction leaves the bytes outside its store alone. -/
theorem byte_memoryAfter (mnemonic : Mnemonic)
    (h : ofMnemonic r memory origin address mnemonic = .ok effect)
    (hread : read < address ∨ address + mnemonic.storeWidth ≤ read) :
    (effect.memoryAfter memory).byte read = memory.byte read := by
  cases mnemonic with
  | sta | stx | stl | stsw => exact byte_of_store_word h hread
  | stch =>
    have hne : address ≠ read := by
      simp only [Mnemonic.storeWidth] at hread
      omega
    exact byte_of_store_byte h hne
  | lda | ldx | ldl | add | sub | mul | div | and | or | comp | tix =>
    rw [memoryAfter_of_withOperand h]
  | ldch =>
    rw [ofMnemonic] at h
    split at h <;> cases h
    rfl
  | j | jeq | jgt | jlt | jsub | rsub =>
    cases h
    rfl
  | rd | td | wd => cases h

theorem get_of_withOperand {use : Nat → Except Fault Registers}
    (huse : ∀ word registers, use word = .ok registers → registers.get register = r.get register)
    (h : withOperand memory address use = .ok effect) :
    effect.registers.get register = r.get register := by
  obtain ⟨-, registers, hregisters, rfl⟩ := withOperand_eq_ok_iff.1 h
  exact huse _ registers hregisters

/-- The effect of an instruction leaves the registers that it does not set alone. -/
theorem get_of_ofMnemonic (h : ofMnemonic r memory origin address mnemonic = .ok effect)
    (hkept : register ∉ mnemonic.written) : effect.registers.get register = r.get register := by
  -- A register that is set is one of those listed, so it is another one than the register asked for.
  have hother : ∀ set ∈ mnemonic.written, ∀ (registers : Registers) (value : Nat),
      (registers.set set value).get register = registers.get register := by
    intro set hset registers value
    rw [Registers.get_set, if_neg]
    rintro rfl
    exact hkept hset
  cases mnemonic with
  | lda | ldx | ldl | add | sub | mul | and | or | comp =>
    refine get_of_withOperand (fun word registers huse => ?_) h
    cases huse
    exact hother _ (.head _) _ _
  | tix =>
    refine get_of_withOperand (fun word registers huse => ?_) h
    cases huse
    exact (hother .sw (.tail _ (.head _)) _ _).trans (hother .x (.head _) _ _)
  | div =>
    refine get_of_withOperand (fun word registers huse => ?_) h
    split at huse <;> cases huse
    exact hother _ (.head _) _ _
  | ldch =>
    rw [ofMnemonic] at h
    split at h <;> cases h
    exact hother _ (.head _) _ _
  | sta | stx | stl | stsw | stch =>
    obtain ⟨-, rfl⟩ := withStore_eq_ok_iff.1 h
    rfl
  | jeq | jgt | jlt =>
    cases h
    unfold jumpIf onRegisters
    split
    · exact hother _ (.head _) _ _
    · rfl
  | j | rsub =>
    cases h
    exact hother _ (.head _) _ _
  | jsub =>
    cases h
    exact (hother .pc (.tail _ (.head _)) _ _).trans (hother .l (.head _) _ _)
  | rd | td | wd => cases h

end Effect

namespace Machine

/-- The instruction at PC has this mnemonic. -/
structure Meets (m : Machine) (mnemonic : Mnemonic) : Prop where
  inside : m.registers.pc ≤ 32765
  opcode : mnemonic.opcode.toNat = m.opcode

/-- The effect of the instruction at PC, when the step succeeds. -/
theorem exists_effect {m : Machine} (hm : m.registers.InRange) {mnemonic : Mnemonic}
    (hmeets : m.Meets mnemonic) (hproceeds : m.Proceeds) :
    ∃ effect, Effect.ofMnemonic m.registers.advance m.memory m.registers.pc m.target mnemonic =
      .ok effect ∧ m.step.1 = ⟨effect.registers, effect.memoryAfter m.memory⟩ := by
  have hpc := Memory.fits_word_iff.2 hmeets.inside
  obtain ⟨i, hi⟩ := hproceeds
  have hinstruction := ofInstruction_fetched m hm mnemonic hmeets.opcode
  cases heffect : Effect.ofMnemonic m.registers.advance m.memory m.registers.pc m.target
      mnemonic with
  | error fault =>
    rw [step_of_error m _ fault (fetch_of_fits m hpc) (hinstruction.trans heffect)] at hi
    cases hi
  | ok effect =>
    rw [step_of_ok m _ effect (fetch_of_fits m hpc) (hinstruction.trans heffect)]
    exact ⟨effect, rfl, rfl⟩

/-- The step succeeds, and its instruction stores to the address among others. -/
structure Writes (m : Machine) (address : Nat) : Prop where
  proceeds : m.Proceeds
  stores : ∃ mnemonic : Mnemonic, mnemonic.opcode.toNat = m.opcode ∧
    m.target ≤ address ∧ address < m.target + mnemonic.storeWidth

theorem byte_step {m : Machine} (hm : m.registers.InRange) {address : Nat}
    (h : ¬ m.Writes address) : m.step.1.memory.byte address = m.memory.byte address := by
  have houtcome := step_outcome m hm
  cases hstep : m.step with
  | mk next result =>
    rw [hstep] at houtcome
    cases houtcome with
    | outside => rfl
    | unknown => rfl
    | obstructed => rfl
    | executed hpc mnemonic hopcode effect heffect =>
      have hproceeds : m.Proceeds := ⟨_, congrArg Prod.snd hstep⟩
      have hread : address < m.target ∨ m.target + mnemonic.storeWidth ≤ address := by
        by_contra hinside
        exact h ⟨hproceeds, mnemonic, hopcode, by omega, by omega⟩
      exact Effect.byte_memoryAfter mnemonic heffect hread

/-- The step succeeds, and its instruction sets the register. -/
structure Sets (m : Machine) (register : Register) : Prop where
  proceeds : m.Proceeds
  meets : ∃ mnemonic : Mnemonic, m.Meets mnemonic ∧ register ∈ mnemonic.written

/-- Every step moves PC, and each other register changes only when it is set. -/
theorem register_step {m : Machine} (hm : m.registers.InRange) {register : Register}
    (hpc : register ≠ .pc) (h : ¬ m.Sets register) :
    m.step.1.registers.get register = m.registers.get register := by
  have hadvance : m.registers.advance.get register = m.registers.get register := by
    rw [Registers.advance, Registers.get_set, if_neg hpc.symm]
  have houtcome := step_outcome m hm
  cases hstep : m.step with
  | mk next result =>
    rw [hstep] at houtcome
    cases houtcome with
    | outside => rfl
    | unknown => exact hadvance
    | obstructed => exact hadvance
    | executed hfits mnemonic hopcode effect heffect =>
      have hmeets : m.Meets mnemonic := ⟨Memory.fits_word_iff.1 hfits, hopcode⟩
      have hkept : register ∉ mnemonic.written := fun hmem =>
        h ⟨⟨_, congrArg Prod.snd hstep⟩, mnemonic, hmeets, hmem⟩
      exact (Effect.get_of_ofMnemonic heffect hkept).trans hadvance

theorem wellFormed_after {m : Machine} (hm : m.WellFormed) (count : Nat) :
    (m.after count).WellFormed := by
  induction count with
  | zero => exact hm
  | succ count ih =>
    rw [after_succ_last]
    exact step_wellFormed _ ih

/-- A register keeps its value along steps that do not set it. -/
theorem register_after {m : Machine} (hm : m.WellFormed) {register : Register}
    (hpc : register ≠ .pc) {i k : Nat} (hik : i ≤ k)
    (h : ∀ j, i ≤ j → j < k → ¬ (m.after j).Sets register) :
    (m.after k).registers.get register = (m.after i).registers.get register := by
  induction hik with
  | refl => rfl
  | @step k hik ih =>
    have hlast := register_step (wellFormed_after hm k).1 hpc (h k hik (Nat.lt_succ_self k))
    rw [after_succ_last, hlast, ih fun j hij hjk => h j hij (Nat.lt_succ_of_lt hjk)]

/-- A byte keeps its value along steps that do not write to it. -/
theorem byte_between {m : Machine} (hm : m.WellFormed) {i k address : Nat} (hik : i ≤ k)
    (h : ∀ j, i ≤ j → j < k → ¬ (m.after j).Writes address) :
    (m.after k).memory.byte address = (m.after i).memory.byte address := by
  induction hik with
  | refl => rfl
  | @step k hik ih =>
    have hlast := byte_step (wellFormed_after hm k).1 (h k hik (Nat.lt_succ_self k))
    rw [after_succ_last, hlast, ih fun j hij hjk => h j hij (Nat.lt_succ_of_lt hjk)]

/-- A byte that no step writes to is the same after all of them. -/
theorem byte_after {m : Machine} (hm : m.WellFormed) {count address : Nat}
    (h : ∀ j < count, ¬ (m.after j).Writes address) :
    (m.after count).memory.byte address = m.memory.byte address :=
  byte_between hm (Nat.zero_le count) fun j _ hj => h j hj

end Machine

end SicMachine
