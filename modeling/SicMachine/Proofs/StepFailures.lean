import SicMachine.Proofs.StepCases

/-!
When a step fails, and what it leaves behind. Five causes are told apart, each
with the fault that it is reported as. A fetch that fails changes nothing; any
other failure moves PC on to the next word and changes nothing else, so no
instruction is left half done.
-/
namespace SicMachine.Machine

/-- Why the step of a machine fails, and the fault that is reported. The opcode, the address and
the operand are those of the word at PC. -/
inductive Fails (m : Machine) : Fault → Prop
  | fetch (outside : 32765 < m.registers.pc) : Fails m (.memory (.outOfBounds m.registers.pc 3))
  | unimplemented (inside : m.registers.pc ≤ 32765)
      (unknown : ∀ mnemonic : Mnemonic, mnemonic.opcode.toNat = m.opcode →
        mnemonic ∈ Mnemonic.devices) :
      Fails m (.unimplementedOpcode (UInt8.ofNat m.opcode) m.registers.pc)
  | word (inside : m.registers.pc ≤ 32765) {mnemonic : Mnemonic}
      (opcode : mnemonic.opcode.toNat = m.opcode) (member : mnemonic ∈ Mnemonic.wordOperands)
      (outside : 32765 < m.target) : Fails m (.memory (.outOfBounds m.target 3))
  | byte (inside : m.registers.pc ≤ 32765) {mnemonic : Mnemonic}
      (opcode : mnemonic.opcode.toNat = m.opcode) (member : mnemonic ∈ Mnemonic.byteOperands)
      (outside : 32767 < m.target) : Fails m (.memory (.outOfBounds m.target 1))
  | division (inside : m.registers.pc ≤ 32765) (opcode : Mnemonic.div.opcode.toNat = m.opcode)
      (operand : m.target ≤ 32765) (zero : m.memory.word m.target = 0) :
      Fails m (.divisionByZero m.registers.pc)

theorem fails_iff_of_not_fits (m : Machine) (fault : Fault)
    (hpc : ¬ Memory.Fits m.registers.pc wordBytes) :
    m.Fails fault ↔ .memory (.outOfBounds m.registers.pc wordBytes) = fault := by
  have houtside : 32765 < m.registers.pc := by
    rw [Memory.fits_word_iff] at hpc
    omega
  constructor
  · intro h
    cases h with
    | fetch => rfl
    | unimplemented inside => omega
    | word inside => omega
    | byte inside => omega
    | division inside => omega
  · rintro rfl
    exact .fetch houtside

theorem fails_iff_of_no_mnemonic (m : Machine) (fault : Fault)
    (hpc : Memory.Fits m.registers.pc wordBytes)
    (hnone : ∀ mnemonic : Mnemonic, mnemonic.opcode.toNat ≠ m.opcode) :
    m.Fails fault ↔ .unimplementedOpcode (UInt8.ofNat m.opcode) m.registers.pc = fault := by
  have hinside : m.registers.pc ≤ 32765 := Memory.fits_word_iff.1 hpc
  constructor
  · intro h
    cases h with
    | fetch outside => omega
    | unimplemented => rfl
    | word _ opcode => exact absurd opcode (hnone _)
    | byte _ opcode => exact absurd opcode (hnone _)
    | division _ opcode => exact absurd opcode (hnone _)
  · rintro rfl
    exact .unimplemented hinside fun mnemonic hopcode => absurd hopcode (hnone mnemonic)

/-- With a mnemonic found, a step fails exactly at the obstacles to that mnemonic. -/
theorem fails_iff_of_mnemonic (m : Machine) (fault : Fault)
    (hpc : Memory.Fits m.registers.pc wordBytes) (mnemonic : Mnemonic)
    (hopcode : mnemonic.opcode.toNat = m.opcode) :
    m.Fails fault ↔
      Effect.Obstacle m.memory m.registers.pc m.target mnemonic fault := by
  have hinside : m.registers.pc ≤ 32765 := Memory.fits_word_iff.1 hpc
  have hunique : ∀ other : Mnemonic, other.opcode.toNat = m.opcode → other = mnemonic := by
    intro other hother
    exact Mnemonic.opcode_injective (UInt8.toNat_inj.1 (hother.trans hopcode.symm))
  have hbyte : UInt8.ofNat m.opcode = mnemonic.opcode :=
    UInt8.toNat_inj.1 (m.toNat_opcode.trans hopcode.symm)
  constructor
  · intro h
    cases h with
    | fetch outside => omega
    | unimplemented _ unknown =>
      rw [hbyte]
      exact .device (unknown mnemonic hopcode)
    | word _ opcode member outside =>
      obtain rfl := hunique _ opcode
      exact .word member (fun hfit => by have := Memory.fits_word_iff.1 hfit; omega)
    | byte _ opcode member outside =>
      obtain rfl := hunique _ opcode
      exact .byte member (fun hfit => by have := Memory.fits_byte_iff.1 hfit; omega)
    | division _ opcode operand zero =>
      obtain rfl := hunique _ opcode
      exact .division (Memory.fits_word_iff.2 operand) zero
  · intro h
    cases h with
    | device member =>
      rw [← hbyte]
      exact .unimplemented hinside fun other hother => hunique other hother ▸ member
    | word member outside =>
      exact .word hinside hopcode member (by rw [Memory.fits_word_iff] at outside; omega)
    | byte member outside =>
      exact .byte hinside hopcode member (by rw [Memory.fits_byte_iff] at outside; omega)
    | division inside zero =>
      exact .division hinside hopcode (Memory.fits_word_iff.1 inside) zero

theorem step_error_iff (m : Machine) (hm : m.registers.InRange) (fault : Fault) :
    m.step.2 = .error fault ↔ m.Fails fault := by
  have houtcome := step_outcome m hm
  generalize m.step = result at houtcome
  cases houtcome with
  | outside hpc =>
    rw [fails_iff_of_not_fits m fault hpc]
    simp
  | unknown hpc hnone =>
    rw [fails_iff_of_no_mnemonic m fault hpc hnone]
    simp
  | obstructed hpc mnemonic hopcode found hfault =>
    rw [fails_iff_of_mnemonic m fault hpc mnemonic hopcode,
      ← Effect.ofMnemonic_eq_error_iff (r := m.registers.advance), hfault]
    simp
  | executed hpc mnemonic hopcode effect heffect =>
    rw [fails_iff_of_mnemonic m fault hpc mnemonic hopcode,
      ← Effect.ofMnemonic_eq_error_iff (r := m.registers.advance), heffect]
    simp

theorem step_of_error_inside (m : Machine) (hm : m.registers.InRange)
    (hpc : Memory.Fits m.registers.pc wordBytes) (fault : Fault)
    (h : m.step.2 = .error fault) : m.step.1 = m.advanced := by
  have houtcome := step_outcome m hm
  generalize m.step = result at houtcome h
  cases houtcome with
  | outside houtside => exact absurd hpc houtside
  | unknown => rfl
  | obstructed => rfl
  | executed => simp at h

theorem exists_ok_of_not_fails (m : Machine) (hm : m.registers.InRange)
    (h : ∀ fault, ¬ m.Fails fault) : ∃ i, m.step.2 = .ok i := by
  cases hresult : m.step.2 with
  | ok i => exact ⟨i, rfl⟩
  | error fault => exact absurd ((step_error_iff m hm fault).1 hresult) (h fault)

/-- No obstacle stands in the way of an instruction that only sets registers. -/
theorem not_fails_of_jump (m : Machine) (hpc : m.registers.pc ≤ 32765) (mnemonic : Mnemonic)
    (hopcode : mnemonic.opcode.toNat = m.opcode) (hjump : mnemonic ∈ Mnemonic.jumps)
    (fault : Fault) : ¬ m.Fails fault := by
  rw [fails_iff_of_mnemonic m fault (Memory.fits_word_iff.2 hpc) mnemonic hopcode,
    Effect.obstacle_iff]
  simp only [Mnemonic.jumps, List.mem_cons, List.not_mem_nil, or_false] at hjump
  rcases hjump with rfl | rfl | rfl | rfl | rfl | rfl <;>
    simp [Mnemonic.devices, Mnemonic.wordOperands, Mnemonic.byteOperands]

/-- A step fails in the listed cases and in no others. A failed fetch leaves the machine as it was;
every other failure moves PC on and changes nothing else. Jumps never fail, and a fetched word is
never refused. -/
theorem step_fails_exactly (m : Machine) (hm : m.WellFormed) :
    (∀ fault, m.step.2 = .error fault ↔ m.Fails fault) ∧
    (32765 < m.registers.pc → m.step.1 = m) ∧
    (m.registers.pc ≤ 32765 → ∀ fault, m.step.2 = .error fault →
      m.step.1 = ⟨{ m.registers with pc := m.registers.pc + 3 }, m.memory⟩) ∧
    ((∀ fault, ¬ m.Fails fault) → ∃ i, m.step.2 = .ok i) ∧
    (m.registers.pc ≤ 32765 → ∀ mnemonic ∈ Mnemonic.jumps, mnemonic.opcode.toNat = m.opcode →
      ∃ i, m.step.2 = .ok i) ∧
    ∀ error, m.step.2 ≠ .error (.invalidWord error) := by
  have hrange := hm.1
  refine ⟨step_error_iff m hrange, ?_, ?_, exists_ok_of_not_fails m hrange, ?_, ?_⟩
  · intro houtside
    have hpc : ¬ Memory.Fits m.registers.pc wordBytes := by
      rw [Memory.fits_word_iff]
      omega
    rw [step_of_not_fits m hpc]
  · intro hinside fault h
    have hpc := Memory.fits_word_iff.2 hinside
    rw [step_of_error_inside m hrange hpc fault h, advanced, advance_eq m hpc]
    rfl
  · intro hinside mnemonic hjump hopcode
    exact exists_ok_of_not_fails m hrange (not_fails_of_jump m hinside mnemonic hopcode hjump)
  · intro error h
    have hfails := (step_error_iff m hrange _).1 h
    cases hfails

/-- TIX with X at its largest value and an indexed operand as far beyond memory as it can be. -/
def countingBeyondMemory : Machine :=
  ⟨⟨0, 0xFFFFFF, 0, 0, 0⟩, Memory.zero.putWord 0 0x2CFFFF⟩

theorem fetched_countingBeyondMemory : countingBeyondMemory.fetched = 0x2CFFFF :=
  Memory.word_putWord _ _ _ (by rw [Memory.size_zero]; decide)

theorem countingBeyondMemory_fails :
    countingBeyondMemory.WellFormed ∧
      countingBeyondMemory.step.2 = .error (.memory (.outOfBounds 0x1007FFE 3)) ∧
      countingBeyondMemory.step.1 = ⟨⟨0, 0xFFFFFF, 0, 3, 0⟩, countingBeyondMemory.memory⟩ := by
  have hsize : countingBeyondMemory.memory.bytes.size = memorySize :=
    (Memory.size_putWord ..).trans Memory.size_zero
  have hm : countingBeyondMemory.WellFormed := ⟨by decide, hsize⟩
  have htarget : countingBeyondMemory.target = 0x1007FFE := by
    rw [target, fetched_countingBeyondMemory]
    rfl
  have hopcode : Mnemonic.tix.opcode.toNat = countingBeyondMemory.opcode := by
    rw [opcode, fetched_countingBeyondMemory]
    rfl
  have hfails : countingBeyondMemory.Fails (.memory (.outOfBounds 0x1007FFE 3)) := by
    have h := Fails.word (m := countingBeyondMemory) (by decide) hopcode (by decide)
      (by rw [htarget]; decide)
    rwa [htarget] at h
  have hstep := step_fails_exactly countingBeyondMemory hm
  have herror := (hstep.1 _).2 hfails
  exact ⟨hm, herror, hstep.2.2.1 (by decide) _ herror⟩

end SicMachine.Machine
