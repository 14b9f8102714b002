import SicMachine.Proofs.Effects

/-!
What a step can do. The word at PC is taken apart by exact division, and the
address of its operand is an exact sum. A step fails at the fetch and changes
nothing, or it finds no instruction with that opcode, or it has the effect of
the one mnemonic with that opcode. The obstacles to an effect are listed once,
for all mnemonics.
-/
namespace SicMachine

namespace Mnemonic

/-- The instructions whose operand is a word in memory. -/
def wordOperands : List Mnemonic :=
  [lda, ldx, ldl, sta, stx, stl, stsw, add, sub, mul, div, and, or, comp, tix]

/-- The instructions whose operand is a byte in memory. -/
def byteOperands : List Mnemonic := [ldch, stch]

/-- The instructions that only set registers. -/
def jumps : List Mnemonic := [j, jeq, jgt, jlt, jsub, rsub]

/-- The instructions for devices, which no machine has. -/
def devices : List Mnemonic := [rd, td, wd]

end Mnemonic

namespace Effect

variable {r : Registers} {memory : Memory} {origin address : Nat} {effect : Effect} {fault : Fault}

theorem withOperand_eq_ok_iff {use : Nat → Except Fault Registers} :
    withOperand memory address use = .ok effect ↔
      Memory.Fits address wordBytes ∧
        ∃ registers, use (memory.word address) = .ok registers ∧ onRegisters registers = effect := by
  unfold withOperand Memory.readWord
  by_cases hfit : Memory.Fits address wordBytes
  · cases huse : use (memory.word address) <;> simp [hfit, huse, Except.map]
  · simp [hfit]

theorem withOperand_eq_error_iff {use : Nat → Except Fault Registers} :
    withOperand memory address use = .error fault ↔
      (¬ Memory.Fits address wordBytes ∧ .memory (.outOfBounds address wordBytes) = fault) ∨
        (Memory.Fits address wordBytes ∧ use (memory.word address) = .error fault) := by
  unfold withOperand Memory.readWord
  by_cases hfit : Memory.Fits address wordBytes
  · cases huse : use (memory.word address) <;> simp [hfit, huse, Except.map]
  · simp [hfit]

theorem withStore_eq_ok_iff {store : Store} :
    withStore r store = .ok effect ↔
      Memory.Fits store.address store.width ∧ ⟨r, some store⟩ = effect := by
  unfold withStore Store.checked
  by_cases hfit : Memory.Fits store.address store.width <;> simp [hfit, Except.map]

theorem withStore_word_eq_ok_iff {value : Nat} :
    withStore r (.word address value) = .ok effect ↔
      Memory.Fits address wordBytes ∧ ⟨r, some (.word address value)⟩ = effect :=
  withStore_eq_ok_iff

theorem withStore_eq_error_iff {store : Store} :
    withStore r store = .error fault ↔
      ¬ Memory.Fits store.address store.width ∧
        .memory (.outOfBounds store.address store.width) = fault := by
  unfold withStore Store.checked
  by_cases hfit : Memory.Fits store.address store.width <;> simp [hfit, Except.map]

theorem size_memoryAfter (effect : Effect) (memory : Memory) :
    (effect.memoryAfter memory).bytes.size = memory.bytes.size := by
  obtain ⟨registers, store⟩ := effect
  cases store with
  | none => rfl
  | some store =>
    cases store with
    | byte address value => exact Memory.size_putByte ..
    | word address value => exact Memory.size_putWord ..

/-- What keeps a mnemonic with this operand address from having an effect. -/
inductive Obstacle (memory : Memory) (origin address : Nat) : Mnemonic → Fault → Prop
  | device {mnemonic : Mnemonic} (member : mnemonic ∈ Mnemonic.devices) :
      Obstacle memory origin address mnemonic (.unimplementedOpcode mnemonic.opcode origin)
  | word {mnemonic : Mnemonic} (member : mnemonic ∈ Mnemonic.wordOperands)
      (outside : ¬ Memory.Fits address wordBytes) :
      Obstacle memory origin address mnemonic (.memory (.outOfBounds address wordBytes))
  | byte {mnemonic : Mnemonic} (member : mnemonic ∈ Mnemonic.byteOperands)
      (outside : ¬ Memory.Fits address 1) :
      Obstacle memory origin address mnemonic (.memory (.outOfBounds address 1))
  | division (inside : Memory.Fits address wordBytes) (zero : memory.word address = 0) :
      Obstacle memory origin address .div (.divisionByZero origin)

theorem obstacle_iff {mnemonic : Mnemonic} :
    Obstacle memory origin address mnemonic fault ↔
      (mnemonic ∈ Mnemonic.devices ∧ .unimplementedOpcode mnemonic.opcode origin = fault) ∨
      (mnemonic ∈ Mnemonic.wordOperands ∧ ¬ Memory.Fits address wordBytes ∧
        .memory (.outOfBounds address wordBytes) = fault) ∨
      (mnemonic ∈ Mnemonic.byteOperands ∧ ¬ Memory.Fits address 1 ∧
        .memory (.outOfBounds address 1) = fault) ∨
      (mnemonic = .div ∧ Memory.Fits address wordBytes ∧ memory.word address = 0 ∧
        .divisionByZero origin = fault) := by
  constructor
  · intro h
    cases h with
    | device member => exact Or.inl ⟨member, rfl⟩
    | word member outside => exact Or.inr (Or.inl ⟨member, outside, rfl⟩)
    | byte member outside => exact Or.inr (Or.inr (Or.inl ⟨member, outside, rfl⟩))
    | division inside zero => exact Or.inr (Or.inr (Or.inr ⟨rfl, inside, zero, rfl⟩))
  · rintro (⟨member, rfl⟩ | ⟨member, outside, rfl⟩ | ⟨member, outside, rfl⟩ |
      ⟨rfl, inside, zero, rfl⟩)
    · exact .device member
    · exact .word member outside
    · exact .byte member outside
    · exact .division inside zero

/-- The obstacles are found for each mnemonic, and there are no others. -/
theorem ofMnemonic_eq_error_iff {mnemonic : Mnemonic} :
    ofMnemonic r memory origin address mnemonic = .error fault ↔
      Obstacle memory origin address mnemonic fault := by
  rw [obstacle_iff]
  cases mnemonic with
  | ldch =>
    unfold ofMnemonic Memory.readByte
    by_cases hfit : Memory.Fits address 1 <;>
      simp [hfit, Mnemonic.devices, Mnemonic.wordOperands, Mnemonic.byteOperands]
  | div =>
    simp only [ofMnemonic, withOperand_eq_error_iff]
    by_cases hzero : memory.word address = 0 <;>
      simp [hzero, Mnemonic.devices, Mnemonic.wordOperands, Mnemonic.byteOperands]
  | _ =>
    simp [ofMnemonic, withOperand_eq_error_iff, withStore_eq_error_iff, Store.address, Store.width,
      Mnemonic.devices, Mnemonic.wordOperands, Mnemonic.byteOperands]

theorem withOperand_inRange {use : Nat → Registers} (huse : ∀ word, (use word).InRange)
    (h : withOperand memory address (fun word => .ok (use word)) = .ok effect) :
    effect.registers.InRange := by
  obtain ⟨-, registers, hregisters, rfl⟩ := withOperand_eq_ok_iff.1 h
  cases hregisters
  exact huse _

theorem jumpIf_inRange (hr : r.InRange) (cc : ConditionCode) (address : Nat) :
    (jumpIf r cc address).registers.InRange := by
  unfold jumpIf onRegisters
  split
  · exact hr.set .pc address
  · exact hr

/-- Every mnemonic writes registers through `Registers.set` only, so it keeps them in range. -/
theorem ofMnemonic_inRange (hr : r.InRange) (mnemonic : Mnemonic)
    (h : ofMnemonic r memory origin address mnemonic = .ok effect) :
    effect.registers.InRange := by
  cases mnemonic with
  | lda | ldx | ldl | add | sub | mul | and | or | comp =>
    exact withOperand_inRange (fun _ => hr.set _ _) h
  | tix => exact withOperand_inRange (fun _ => (hr.set _ _).set _ _) h
  | div =>
    obtain ⟨-, registers, huse, rfl⟩ := withOperand_eq_ok_iff.1 h
    split at huse <;> cases huse
    exact hr.set _ _
  | ldch =>
    unfold ofMnemonic Memory.readByte at h
    by_cases hfit : Memory.Fits address 1 <;> simp only [hfit, if_true, if_false] at h
    · cases h
      exact hr.set _ _
    · cases h
  | sta | stx | stl | stsw | stch =>
    obtain ⟨-, rfl⟩ := withStore_eq_ok_iff.1 h
    exact hr
  | j | rsub =>
    cases h
    exact hr.set _ _
  | jsub =>
    cases h
    exact (hr.set _ _).set _ _
  | jeq | jgt | jlt =>
    cases h
    exact jumpIf_inRange hr _ _
  | rd | td | wd => cases h

theorem ofInstruction_of_none {i : Instruction} (h : Mnemonic.ofOpcode? i.opcode = none) :
    ofInstruction r memory origin i = .error (.unimplementedOpcode i.opcode origin) := by
  rw [ofInstruction, h]

theorem ofInstruction_of_some {i : Instruction} {mnemonic : Mnemonic}
    (h : Mnemonic.ofOpcode? i.opcode = some mnemonic) :
    ofInstruction r memory origin i =
      ofMnemonic r memory origin (r.effectiveAddress i.address.val i.indexed) mnemonic := by
  rw [ofInstruction, h]

end Effect

/-- The sum stays far below the largest 32-bit number. -/
theorem effectiveAddress_ofWord (r : Registers) (word : Nat) (hx : r.x < wordLimit) :
    r.effectiveAddress (Instruction.ofWord word).address.val (Instruction.ofWord word).indexed =
      word % addressLimit + word / addressLimit % 2 * r.x := by
  rw [Instruction.indexed_ofWord, Instruction.address_ofWord, Registers.effectiveAddress]
  have hbit : word / addressLimit % 2 = 0 ∨ word / addressLimit % 2 = 1 := by omega
  simp only [wordLimit, addressLimit, wideLimit] at *
  rcases hbit with hbit | hbit
  · simp [hbit]
  · simp [hbit]
    omega

namespace Machine

/-- The word at PC. -/
def fetched (m : Machine) : Nat := m.memory.word m.registers.pc

/-- Bits 23 to 16 of the word at PC. -/
def opcode (m : Machine) : Nat := m.fetched / 65536

/-- The address in the word at PC, with X added when bit 15 is set. The sum is exact. -/
def target (m : Machine) : Nat :=
  m.fetched % addressLimit + m.fetched / addressLimit % 2 * m.registers.x

/-- The machine with PC moved on to the next word. -/
def advanced (m : Machine) : Machine := ⟨m.registers.advance, m.memory⟩

theorem fetched_lt (m : Machine) : m.fetched < wordLimit := m.memory.word_lt _

theorem opcode_lt (m : Machine) : m.opcode < byteLimit :=
  (Nat.div_lt_iff_lt_mul (by decide)).2 m.fetched_lt

theorem toNat_opcode (m : Machine) : (UInt8.ofNat m.opcode).toNat = m.opcode :=
  UInt8.toNat_ofNat_of_lt' m.opcode_lt

theorem opcode_fetched (m : Machine) :
    (Instruction.ofWord m.fetched).opcode = UInt8.ofNat m.opcode := rfl

theorem fetch_of_fits (m : Machine) (hpc : Memory.Fits m.registers.pc wordBytes) :
    m.fetch = .ok (Instruction.ofWord m.fetched) := by
  have hread : m.memory.readWord m.registers.pc = .ok m.fetched := m.memory.readWord_of_fits hpc
  simp only [fetch, hread, Instruction.decode_of_lt m.fetched_lt]
  rfl

theorem fetch_of_not_fits (m : Machine) (hpc : ¬ Memory.Fits m.registers.pc wordBytes) :
    m.fetch = .error (.memory (.outOfBounds m.registers.pc wordBytes)) := by
  rw [fetch, m.memory.readWord_of_not_fits hpc]

theorem effectiveAddress_fetched (m : Machine) (hm : m.registers.InRange) :
    m.registers.advance.effectiveAddress (Instruction.ofWord m.fetched).address.val
      (Instruction.ofWord m.fetched).indexed = m.target :=
  effectiveAddress_ofWord m.registers.advance m.fetched hm.2.1

theorem advance_eq (m : Machine) (hpc : Memory.Fits m.registers.pc wordBytes) :
    m.registers.advance = { m.registers with pc := m.registers.pc + wordBytes } := by
  have hsmall : m.registers.pc + wordBytes < wordLimit := by
    simp only [Memory.Fits, wordBytes, memorySize, wordLimit] at *
    omega
  simp only [Registers.advance, Registers.set, wrap_of_lt hsmall]

/-- A fetch that fails ends the step before anything has been written. -/
theorem step_of_fetch_error {m : Machine} {fault : Fault} (h : m.fetch = .error fault) :
    m.step = (m, .error fault) := by
  show InPlace.on (ofExcept m.fetch >>= _) m = _
  rw [h]
  rfl

/-- Behind the fetch PC is moved on, whatever becomes of the instruction. -/
theorem step_eq_execute (m : Machine) {i : Instruction} (h : m.fetch = .ok i) :
    m.step = InPlace.on (do Processor.execute i m.registers.pc; return i) m.advanced := by
  show InPlace.on (ofExcept m.fetch >>= _) m = _
  rw [h]
  rfl

theorem step_of_not_fits (m : Machine) (hpc : ¬ Memory.Fits m.registers.pc wordBytes) :
    m.step = (m, .error (.memory (.outOfBounds m.registers.pc wordBytes))) :=
  step_of_fetch_error (fetch_of_not_fits m hpc)

theorem step_of_error (m : Machine) (i : Instruction) (fault : Fault) (hfetch : m.fetch = .ok i)
    (h : Effect.ofInstruction m.registers.advance m.memory m.registers.pc i = .error fault) :
    m.step = (m.advanced, .error fault) := by
  have hexecute : (Processor.execute i m.registers.pc).on m.advanced =
      (m.advanced, .error fault) :=
    (Processor.hasEffect_execute i m.registers.pc).on_of_error (congrArg _ h)
  rw [step_eq_execute m hfetch]
  exact InPlace.on_bind_of_error hexecute

theorem step_of_ok (m : Machine) (i : Instruction) (effect : Effect) (hfetch : m.fetch = .ok i)
    (h : Effect.ofInstruction m.registers.advance m.memory m.registers.pc i = .ok effect) :
    m.step = (⟨effect.registers, effect.memoryAfter m.memory⟩, .ok i) := by
  have hexecute : (Processor.execute i m.registers.pc).on m.advanced =
      (effect.applyTo m, .ok ()) :=
    (Processor.hasEffect_execute i m.registers.pc).on_of_ok (congrArg _ h)
  rw [step_eq_execute m hfetch]
  exact InPlace.on_bind_of_ok hexecute

theorem step_of_no_mnemonic (m : Machine) (hpc : Memory.Fits m.registers.pc wordBytes)
    (hnone : ∀ mnemonic : Mnemonic, mnemonic.opcode.toNat ≠ m.opcode) :
    m.step =
      (m.advanced, .error (.unimplementedOpcode (UInt8.ofNat m.opcode) m.registers.pc)) := by
  apply step_of_error m _ _ (fetch_of_fits m hpc)
  apply Effect.ofInstruction_of_none
  apply Option.eq_none_iff_forall_ne_some.2
  intro mnemonic hsome
  apply hnone mnemonic
  rw [Mnemonic.ofOpcode?_eq_some_iff.1 hsome, opcode_fetched, toNat_opcode]

/-- Which instruction has been fetched, when a mnemonic has its opcode. -/
theorem ofInstruction_fetched (m : Machine) (hm : m.registers.InRange) (mnemonic : Mnemonic)
    (hopcode : mnemonic.opcode.toNat = m.opcode) :
    Effect.ofInstruction m.registers.advance m.memory m.registers.pc
        (Instruction.ofWord m.fetched) =
      Effect.ofMnemonic m.registers.advance m.memory m.registers.pc m.target mnemonic := by
  have hfound : Mnemonic.ofOpcode? (Instruction.ofWord m.fetched).opcode = some mnemonic := by
    rw [Mnemonic.ofOpcode?_eq_some_iff, opcode_fetched]
    exact UInt8.toNat_inj.1 (hopcode.trans m.toNat_opcode.symm)
  rw [Effect.ofInstruction_of_some hfound, effectiveAddress_fetched m hm]

/-- A step whose instruction has an effect applies it. -/
theorem step_of_mnemonic (m : Machine) (hm : m.registers.InRange)
    (hpc : Memory.Fits m.registers.pc wordBytes) {mnemonic : Mnemonic}
    (hopcode : mnemonic.opcode.toNat = m.opcode) {effect : Effect}
    (heffect : Effect.ofMnemonic m.registers.advance m.memory m.registers.pc m.target mnemonic =
      .ok effect) :
    m.step = (⟨effect.registers, effect.memoryAfter m.memory⟩,
      .ok (Instruction.ofWord m.fetched)) := by
  have hinstruction := (ofInstruction_fetched m hm mnemonic hopcode).trans heffect
  exact step_of_ok m _ effect (fetch_of_fits m hpc) hinstruction

/-- The four ways in which a step can end. -/
inductive Outcome (m : Machine) : Machine × Except Fault Instruction → Prop
  | outside (hpc : ¬ Memory.Fits m.registers.pc wordBytes) :
      Outcome m (m, .error (.memory (.outOfBounds m.registers.pc wordBytes)))
  | unknown (hpc : Memory.Fits m.registers.pc wordBytes)
      (hnone : ∀ mnemonic : Mnemonic, mnemonic.opcode.toNat ≠ m.opcode) :
      Outcome m (m.advanced, .error (.unimplementedOpcode (UInt8.ofNat m.opcode) m.registers.pc))
  | obstructed (hpc : Memory.Fits m.registers.pc wordBytes) (mnemonic : Mnemonic)
      (hopcode : mnemonic.opcode.toNat = m.opcode) (fault : Fault)
      (hfault : Effect.ofMnemonic m.registers.advance m.memory m.registers.pc m.target mnemonic =
        .error fault) :
      Outcome m (m.advanced, .error fault)
  | executed (hpc : Memory.Fits m.registers.pc wordBytes) (mnemonic : Mnemonic)
      (hopcode : mnemonic.opcode.toNat = m.opcode) (effect : Effect)
      (heffect : Effect.ofMnemonic m.registers.advance m.memory m.registers.pc m.target mnemonic =
        .ok effect) :
      Outcome m (⟨effect.registers, effect.memoryAfter m.memory⟩,
        .ok (Instruction.ofWord m.fetched))

theorem step_outcome (m : Machine) (hm : m.registers.InRange) : Outcome m m.step := by
  by_cases hpc : Memory.Fits m.registers.pc wordBytes
  · by_cases hfound : ∃ mnemonic : Mnemonic, mnemonic.opcode.toNat = m.opcode
    · obtain ⟨mnemonic, hopcode⟩ := hfound
      have hfetched := ofInstruction_fetched m hm mnemonic hopcode
      cases heffect : Effect.ofMnemonic m.registers.advance m.memory m.registers.pc m.target
          mnemonic with
      | ok effect =>
        rw [step_of_ok m _ effect (fetch_of_fits m hpc) (hfetched.trans heffect)]
        exact .executed hpc mnemonic hopcode effect heffect
      | error fault =>
        rw [step_of_error m _ fault (fetch_of_fits m hpc) (hfetched.trans heffect)]
        exact .obstructed hpc mnemonic hopcode fault heffect
    · rw [not_exists] at hfound
      rw [step_of_no_mnemonic m hpc hfound]
      exact .unknown hpc hfound
  · rw [step_of_not_fits m hpc]
    exact .outside hpc

/-- A step keeps the size of memory and the range of the registers, whether or not it fails. -/
theorem step_wellFormed (m : Machine) (hm : m.WellFormed) : m.step.1.WellFormed := by
  obtain ⟨hrange, hsize⟩ := hm
  have houtcome := step_outcome m hrange
  generalize m.step = result at houtcome
  cases houtcome with
  | outside => exact ⟨hrange, hsize⟩
  | unknown => exact ⟨hrange.set .pc _, hsize⟩
  | obstructed => exact ⟨hrange.set .pc _, hsize⟩
  | executed hpc mnemonic hopcode effect heffect =>
    have hadvance : m.registers.advance.InRange := hrange.set .pc _
    exact ⟨Effect.ofMnemonic_inRange hadvance mnemonic heffect,
      (effect.size_memoryAfter m.memory).trans hsize⟩

theorem run_wellFormed (m : Machine) (hm : m.WellFormed) (steps : Nat) :
    (m.run steps).1.WellFormed := by
  induction steps generalizing m with
  | zero => exact hm
  | succ steps ih =>
    have hstep := step_wellFormed m hm
    rw [run]
    split
    · next next i hnext =>
      rw [hnext] at hstep
      exact ih next hstep
    · next next fault hnext =>
      rw [hnext] at hstep
      exact hstep

end Machine

end SicMachine
