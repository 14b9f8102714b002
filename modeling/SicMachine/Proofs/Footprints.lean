import SicMachine.Proofs.StepWrites

/-!
Which bytes a run depends on. A step uses the word at PC, what its instruction
loads and what it stores. Machines with the same registers that hold the same
bytes in some places take the same step as long as it stays in these places,
and agree there again behind it. So they go on together, although it depends on
the steps before what a step uses. Bytes elsewhere make no difference and stay
as they are.
-/
namespace SicMachine

/-- The number of bytes that an instruction loads, from the address of its operand on. -/
def Mnemonic.loadWidth : Mnemonic → Nat
  | .lda | .ldx | .ldl => wordBytes
  | .add | .sub | .mul | .div | .and | .or => wordBytes
  | .comp | .tix => wordBytes
  | .ldch => 1
  | _ => 0

namespace Memory

/-- Memories of one size that hold the same bytes in some places. -/
structure AgreeOn (places : Nat → Prop) (left right : Memory) : Prop where
  size : left.bytes.size = right.bytes.size
  byte : ∀ address, places address → left.byte address = right.byte address

variable {places : Nat → Prop} {left right : Memory}

theorem AgreeOn.readByte (h : AgreeOn places left right) {address : Nat}
    (hplaces : Fits address 1 → places address) :
    left.readByte address = right.readByte address := by
  unfold Memory.readByte
  by_cases hfits : Fits address 1
  · rw [if_pos hfits, if_pos hfits, h.byte address (hplaces hfits)]
  · rw [if_neg hfits, if_neg hfits]

theorem AgreeOn.readWord (h : AgreeOn places left right) {address : Nat}
    (hplaces : Fits address wordBytes →
      ∀ read, address ≤ read → read < address + wordBytes → places read) :
    left.readWord address = right.readWord address := by
  unfold Memory.readWord
  by_cases hfits : Fits address wordBytes
  · have hword : left.word address = right.word address :=
      word_congr fun read hfrom hto => h.byte read (hplaces hfits read hfrom hto)
    rw [if_pos hfits, if_pos hfits, hword]
  · rw [if_neg hfits, if_neg hfits]

theorem AgreeOn.putByte (h : AgreeOn places left right) (address : Nat) (value : UInt8) :
    AgreeOn places (left.putByte address value) (right.putByte address value) := by
  refine ⟨by rw [size_putByte, size_putByte, h.size], ?_⟩
  intro read hread
  by_cases hinside : address < left.bytes.size
  · rw [byte_putByte _ _ _ _ hinside, byte_putByte _ _ _ _ (h.size ▸ hinside), h.byte read hread]
  · -- Outside memory nothing is put.
    have houtside := Nat.le_of_not_lt hinside
    rw [Memory.putByte, Memory.putByte, Array.setIfInBounds_eq_of_size_le houtside,
      Array.setIfInBounds_eq_of_size_le (h.size ▸ houtside)]
    exact h.byte read hread

theorem AgreeOn.putWord (h : AgreeOn places left right) (address value : Nat) :
    AgreeOn places (left.putWord address value) (right.putWord address value) :=
  ((h.putByte _ _).putByte _ _).putByte _ _

end Memory

namespace Effect

variable {places : Nat → Prop} {left right : Memory}

/-- An instruction has one effect on memories that agree on what it loads. -/
theorem ofMnemonic_of_agreeOn (h : Memory.AgreeOn places left right) (r : Registers)
    (origin : Nat) {address : Nat} {mnemonic : Mnemonic}
    (hplaces : Memory.Fits address mnemonic.loadWidth →
      ∀ read, address ≤ read → read < address + mnemonic.loadWidth → places read) :
    ofMnemonic r left origin address mnemonic = ofMnemonic r right origin address mnemonic := by
  cases mnemonic with
  | lda | ldx | ldl | add | sub | mul | div | and | or | comp | tix =>
    simp only [ofMnemonic, withOperand, h.readWord hplaces]
  | ldch =>
    have hread := h.readByte fun hfits => hplaces hfits address (Nat.le_refl _) (Nat.lt_succ_self _)
    simp only [ofMnemonic, hread]
  | sta | stx | stl | stsw | stch | j | jeq | jgt | jlt | jsub | rsub | rd | td | wd => rfl

theorem agreeOn_memoryAfter (h : Memory.AgreeOn places left right) (effect : Effect) :
    Memory.AgreeOn places (effect.memoryAfter left) (effect.memoryAfter right) := by
  obtain ⟨registers, store⟩ := effect
  cases store with
  | none => exact h
  | some store =>
    cases store with
    | byte address value => exact h.putByte address _
    | word address value => exact h.putWord address value

end Effect

namespace Machine

/-- The addresses of the bytes that a step fetches, loads or stores. An access that does not lie
inside memory as a whole uses none of them. -/
inductive Uses (m : Machine) (address : Nat) : Prop
  | fetch (hpc : Memory.Fits m.registers.pc wordBytes) (hfrom : m.registers.pc ≤ address)
      (hto : address < m.registers.pc + wordBytes)
  | load (hpc : Memory.Fits m.registers.pc wordBytes) {mnemonic : Mnemonic}
      (hopcode : mnemonic.opcode.toNat = m.opcode)
      (hfits : Memory.Fits m.target mnemonic.loadWidth) (hfrom : m.target ≤ address)
      (hto : address < m.target + mnemonic.loadWidth)
  | store (hwrites : m.Writes address)

/-- The addresses that a number of steps use, whether or not they succeed. -/
def Footprint (m : Machine) (count address : Nat) : Prop := ∃ j < count, (m.after j).Uses address

/-- Machines with the same registers that hold the same bytes in some places. -/
structure AgreeOn (places : Nat → Prop) (m other : Machine) : Prop where
  registers : m.registers = other.registers
  memory : Memory.AgreeOn places m.memory other.memory

variable {places : Nat → Prop} {m other : Machine}

theorem writes_iff {address : Nat} :
    m.Writes address ↔ m.Proceeds ∧ ∃ mnemonic : Mnemonic, mnemonic.opcode.toNat = m.opcode ∧
      m.target ≤ address ∧ address < m.target + mnemonic.storeWidth :=
  ⟨fun h => ⟨h.proceeds, h.stores⟩, fun h => ⟨h.1, h.2⟩⟩

namespace AgreeOn

section

variable (h : AgreeOn places m other) (huses : ∀ address, m.Uses address → places address)
include h huses

theorem fetched (hpc : Memory.Fits m.registers.pc wordBytes) : m.fetched = other.fetched := by
  rw [Machine.fetched, Machine.fetched, ← h.registers]
  exact Memory.word_congr fun read hfrom hto =>
    h.memory.byte read (huses read (.fetch hpc hfrom hto))

theorem opcode (hpc : Memory.Fits m.registers.pc wordBytes) : m.opcode = other.opcode := by
  rw [Machine.opcode, Machine.opcode, h.fetched huses hpc]

theorem target (hpc : Memory.Fits m.registers.pc wordBytes) : m.target = other.target := by
  rw [Machine.target, Machine.target, h.fetched huses hpc, h.registers]

theorem ofMnemonic (hpc : Memory.Fits m.registers.pc wordBytes) {mnemonic : Mnemonic}
    (hopcode : mnemonic.opcode.toNat = m.opcode) :
    Effect.ofMnemonic m.registers.advance m.memory m.registers.pc m.target mnemonic =
      Effect.ofMnemonic other.registers.advance other.memory other.registers.pc other.target
        mnemonic := by
  rw [← h.registers, ← h.target huses hpc]
  exact Effect.ofMnemonic_of_agreeOn h.memory _ _ fun hfits read hfrom hto =>
    huses read (.load hpc hopcode hfits hfrom hto)

/-- The steps of both machines have one effect and one result. -/
theorem exists_effect (hm : m.registers.InRange) :
    ∃ (effect : Effect) (result : Except Fault Instruction),
      m.step = (⟨effect.registers, effect.memoryAfter m.memory⟩, result) ∧
        other.step = (⟨effect.registers, effect.memoryAfter other.memory⟩, result) := by
  have hregisters := h.registers
  have hrange : other.registers.InRange := hregisters ▸ hm
  -- The step of the first machine says which accesses are made; each case is moved to the second
  -- one by what they have in common: registers, the word at PC and the operand.
  have houtcome := step_outcome m hm
  cases hstep : m.step with
  | mk next result =>
    rw [hstep] at houtcome
    cases houtcome with
    | outside hpc =>
      refine ⟨.onRegisters m.registers, _, rfl, ?_⟩
      rw [hregisters] at hpc ⊢
      exact step_of_not_fits other hpc
    | unknown hpc hnone =>
      refine ⟨.onRegisters m.registers.advance, _, rfl, ?_⟩
      rw [h.opcode huses hpc] at hnone ⊢
      rw [hregisters] at hpc ⊢
      exact step_of_no_mnemonic other hpc hnone
    | obstructed hpc mnemonic hopcode fault hfault =>
      refine ⟨.onRegisters m.registers.advance, _, rfl, ?_⟩
      rw [h.ofMnemonic huses hpc hopcode] at hfault
      rw [h.opcode huses hpc] at hopcode
      rw [hregisters] at hpc ⊢
      exact step_of_error other _ fault (fetch_of_fits other hpc)
        ((ofInstruction_fetched other hrange mnemonic hopcode).trans hfault)
    | executed hpc mnemonic hopcode effect heffect =>
      refine ⟨effect, _, rfl, ?_⟩
      rw [h.ofMnemonic huses hpc hopcode] at heffect
      rw [h.opcode huses hpc] at hopcode
      rw [h.fetched huses hpc]
      rw [hregisters] at hpc
      exact step_of_mnemonic other hrange hpc hopcode heffect

/-- Machines that agree on what a step uses return the same from it and agree behind it. -/
theorem step (hm : m.registers.InRange) :
    m.step.2 = other.step.2 ∧ AgreeOn places m.step.1 other.step.1 := by
  obtain ⟨effect, result, hleft, hright⟩ := h.exists_effect huses hm
  rw [hleft, hright]
  exact ⟨rfl, rfl, effect.agreeOn_memoryAfter h.memory⟩

/-- The machines store to the same addresses. -/
theorem writes_iff (hm : m.registers.InRange) {address : Nat} :
    m.Writes address ↔ other.Writes address := by
  have hproceeds : m.Proceeds ↔ other.Proceeds := by
    rw [Proceeds, Proceeds, (h.step huses hm).1]
  rw [Machine.writes_iff, Machine.writes_iff, ← hproceeds]
  refine and_congr_right fun hfirst => ?_
  rw [h.opcode huses hfirst.fits, h.target huses hfirst.fits]

end

/-- Machines that agree on what a run of the first one uses agree all along. -/
theorem after (h : AgreeOn places m other) (hm : m.WellFormed) {count : Nat}
    (huses : ∀ address, m.Footprint count address → places address) {j : Nat} (hj : j ≤ count) :
    AgreeOn places (m.after j) (other.after j) := by
  -- The places are those of the whole run, so the step behind the first `j` stays inside them.
  induction j with
  | zero => exact h
  | succ j ih =>
    have hlast := ih (Nat.le_of_succ_le hj)
    rw [after_succ_last, after_succ_last]
    exact (hlast.step (fun address hlater => huses address ⟨j, hj, hlater⟩)
      (wellFormed_after hm j).1).2

end AgreeOn

/-- Only the footprint of a run matters to it. A machine with the same registers that holds the same
bytes there returns the same instructions and faults and has the same registers behind each step. It
stores the same bytes at the same addresses, and all its other bytes stay as they were. -/
theorem footprint_determines_steps {m other : Machine} {count : Nat} (hm : m.WellFormed)
    (hother : other.WellFormed) (hregisters : m.registers = other.registers)
    (hbytes : ∀ address, m.Footprint count address →
      m.memory.byte address = other.memory.byte address) :
    (∀ j < count, (m.after j).step.2 = (other.after j).step.2) ∧
    (∀ j ≤ count, (m.after j).registers = (other.after j).registers) ∧
    (∀ j < count, ∀ address, ((m.after j).Writes address ↔ (other.after j).Writes address) ∧
      ((m.after j).Writes address →
        (m.after (j + 1)).memory.byte address = (other.after (j + 1)).memory.byte address)) ∧
    ∀ j ≤ count, ∀ address, (∀ i < j, ¬ (m.after i).Writes address) →
      (other.after j).memory.byte address = other.memory.byte address := by
  have hagree : AgreeOn (m.Footprint count) m other :=
    ⟨hregisters, hm.2.trans hother.2.symm, hbytes⟩
  have hafter : ∀ j ≤ count, AgreeOn (m.Footprint count) (m.after j) (other.after j) :=
    fun j hj => hagree.after hm (fun _ => id) hj
  have huses : ∀ j < count, ∀ address, (m.after j).Uses address → m.Footprint count address :=
    fun j hj address hlater => ⟨j, hj, hlater⟩
  have hwrites : ∀ j < count, ∀ address,
      (m.after j).Writes address ↔ (other.after j).Writes address :=
    fun j hj address =>
      (hafter j (Nat.le_of_lt hj)).writes_iff (huses j hj) (wellFormed_after hm j).1
  refine ⟨?_, fun j hj => (hafter j hj).registers, ?_, ?_⟩
  · intro j hj
    exact ((hafter j (Nat.le_of_lt hj)).step (huses j hj) (wellFormed_after hm j).1).1
  · intro j hj address
    refine ⟨hwrites j hj address, ?_⟩
    intro hstores
    exact (hafter (j + 1) hj).memory.byte address (huses j hj address (.store hstores))
  · intro j hj address hkept
    refine byte_after hother fun i hi hstores => ?_
    exact hkept i hi ((hwrites i (Nat.lt_of_lt_of_le hi hj) address).2 hstores)

/-- The word at 0 stores A at 6. -/
def storing : Machine := ⟨⟨5, 0, 0, 0, 0⟩, Memory.zero.putWord 0 0x0C0006⟩

/-- The same machine with another byte at 100. -/
def storingBeside : Machine := ⟨storing.registers, storing.memory.putByte 100 7⟩

theorem size_storing : storing.memory.bytes.size = memorySize :=
  (Memory.size_putWord ..).trans Memory.size_zero

theorem wellFormed_storing : storing.WellFormed := ⟨by decide, size_storing⟩

theorem wellFormed_storingBeside : storingBeside.WellFormed :=
  ⟨by decide, (Memory.size_putByte ..).trans size_storing⟩

theorem fetched_storing : storing.fetched = 0x0C0006 :=
  Memory.word_putWord _ _ _ (by rw [Memory.size_zero]; decide)

theorem target_storing : storing.target = 6 := by
  rw [target, fetched_storing]
  rfl

theorem opcode_storing : Mnemonic.sta.opcode.toNat = storing.opcode := by
  rw [opcode, fetched_storing]
  rfl

theorem step_storing :
    storing.step =
      (⟨⟨5, 0, 0, 3, 0⟩, storing.memory.putWord 6 5⟩, .ok (Instruction.ofWord 0x0C0006)) := by
  have heffect : Effect.ofMnemonic storing.registers.advance storing.memory storing.registers.pc
      storing.target .sta = .ok ⟨⟨5, 0, 0, 3, 0⟩, some (.word 6 5)⟩ := by
    rw [target_storing]
    rfl
  rw [step_of_mnemonic storing (by decide) (by decide) opcode_storing heffect, fetched_storing]
  rfl

theorem writes_storing {address : Nat} (hfrom : 6 ≤ address) (hto : address < 9) :
    storing.Writes address := by
  refine ⟨⟨_, congrArg Prod.snd step_storing⟩, .sta, opcode_storing, ?_, ?_⟩
  · rwa [target_storing]
  · rwa [target_storing]

/-- No instruction loads or stores more than a word. -/
theorem widths_le (mnemonic : Mnemonic) :
    mnemonic.loadWidth ≤ wordBytes ∧ mnemonic.storeWidth ≤ wordBytes := by
  cases mnemonic <;> decide

theorem lt_of_uses_storing {address : Nat} (h : storing.Uses address) : address < 9 := by
  cases h with
  | fetch hpc hfrom hto => exact Nat.lt_of_lt_of_le hto (by decide)
  | @load hpc mnemonic hopcode hfits hfrom hto =>
    obtain ⟨hwidth, -⟩ := widths_le mnemonic
    rw [target_storing] at hto
    simp only [wordBytes] at hwidth
    omega
  | store hwrites =>
    obtain ⟨mnemonic, -, -, hto⟩ := hwrites.stores
    obtain ⟨-, hwidth⟩ := widths_le mnemonic
    rw [target_storing] at hto
    simp only [wordBytes] at hwidth
    omega

theorem storing_footprint_determines_steps :
    storing.WellFormed ∧ storingBeside.WellFormed ∧
      (∀ address, storing.Footprint 1 address →
        storing.memory.byte address = storingBeside.memory.byte address) ∧
      (storing.after 0).Writes 8 ∧ (storingBeside.after 1).memory.byte 8 = 5 ∧
      (storingBeside.after 1).memory.byte 100 = 7 := by
  have hbytes : ∀ address, storing.Footprint 1 address →
      storing.memory.byte address = storingBeside.memory.byte address := by
    rintro address ⟨j, hj, huses⟩
    obtain rfl : j = 0 := by omega
    have hlt := lt_of_uses_storing huses
    exact (Memory.byte_putByte_of_ne _ _ (by omega)).symm
  have hwrites : (storing.after 0).Writes 8 := writes_storing (by decide) (by decide)
  obtain ⟨-, -, hstores, hkept⟩ :=
    footprint_determines_steps wellFormed_storing wellFormed_storingBeside rfl hbytes
  refine ⟨wellFormed_storing, wellFormed_storingBeside, hbytes, hwrites, ?_, ?_⟩
  · rw [← (hstores 0 (by decide) 8).2 hwrites, after_succ_last, after_zero, step_storing]
    exact Memory.byte_putWord _ _ _ _ (by rw [size_storing]; decide)
  · rw [hkept 1 (by decide) 100]
    · exact Memory.byte_putByte _ _ _ _ (by rw [size_storing]; decide)
    · intro i hi hlater
      obtain rfl : i = 0 := by omega
      exact absurd (lt_of_uses_storing (.store hlater)) (by decide)

end Machine

end SicMachine
