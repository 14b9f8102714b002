import SicMachine.Proofs.StepWrites

/-!
What a step does when the instruction at PC is a load, a store, an addition or
TIX, said with the registers and the memory that it leaves behind. The word at
PC tells the instruction and its operand, and each of these steps succeeds when
the operand lies inside memory.
-/
namespace SicMachine.Machine

variable {m : Machine}

/-! ### The word at PC -/

theorem meets_of_fetched {mnemonic : Mnemonic} {word : Nat} (hpc : m.registers.pc ≤ 32765)
    (hfetched : m.fetched = word) (hopcode : mnemonic.opcode.toNat = word / 65536) :
    m.Meets mnemonic := by
  refine ⟨hpc, ?_⟩
  rw [opcode, hfetched, hopcode]

theorem target_of_fetched {word : Nat} (hfetched : m.fetched = word)
    (hdirect : word / addressLimit % 2 = 0) : m.target = word % addressLimit := by
  rw [target, hfetched, hdirect, Nat.zero_mul, Nat.add_zero]

/-! ### Two kinds of instructions -/

section Steps

variable (hm : m.registers.InRange)
include hm

/-- A step that takes the word of its operand into the registers. -/
theorem step_of_operand {mnemonic : Mnemonic} (h : m.Meets mnemonic)
    (hfits : Memory.Fits m.target wordBytes) {use : Nat → Registers}
    (huse : Effect.ofMnemonic m.registers.advance m.memory m.registers.pc m.target mnemonic =
      Effect.withOperand m.memory m.target fun word => .ok (use word)) :
    m.step = (⟨use (m.memory.word m.target), m.memory⟩, .ok (Instruction.ofWord m.fetched)) := by
  have heffect := huse.trans (Effect.withOperand_eq_ok_iff.2 ⟨hfits, _, rfl, rfl⟩)
  exact step_of_mnemonic m hm (Memory.fits_word_iff.2 h.inside) h.opcode heffect

/-- A step that puts a word where its operand says. -/
theorem step_of_word_store {mnemonic : Mnemonic} (h : m.Meets mnemonic)
    (hfits : Memory.Fits m.target wordBytes) {value : Nat}
    (hstore : Effect.ofMnemonic m.registers.advance m.memory m.registers.pc m.target mnemonic =
      Effect.withStore m.registers.advance (.word m.target value)) :
    m.step = (⟨{ m.registers with pc := m.registers.pc + 3 }, m.memory.putWord m.target value⟩,
      .ok (Instruction.ofWord m.fetched)) := by
  have hinside := Memory.fits_word_iff.2 h.inside
  have heffect := hstore.trans (Effect.withStore_word_eq_ok_iff.2 ⟨hfits, rfl⟩)
  rw [step_of_mnemonic m hm hinside h.opcode heffect, advance_eq m hinside]
  rfl

/-! ### Single instructions -/

theorem step_of_lda (h : m.Meets .lda) (hfits : Memory.Fits m.target wordBytes) :
    m.step = (⟨{ m.registers with a := m.memory.word m.target, pc := m.registers.pc + 3 },
        m.memory⟩, .ok (Instruction.ofWord m.fetched)) := by
  rw [step_of_operand hm h hfits rfl, advance_eq m (Memory.fits_word_iff.2 h.inside)]
  simp only [Registers.set, wrap_of_lt (m.memory.word_lt m.target)]
  rfl

theorem step_of_ldl (h : m.Meets .ldl) (hfits : Memory.Fits m.target wordBytes) :
    m.step = (⟨{ m.registers with l := m.memory.word m.target, pc := m.registers.pc + 3 },
        m.memory⟩, .ok (Instruction.ofWord m.fetched)) := by
  rw [step_of_operand hm h hfits rfl, advance_eq m (Memory.fits_word_iff.2 h.inside)]
  simp only [Registers.set, wrap_of_lt (m.memory.word_lt m.target)]
  rfl

theorem step_of_add (h : m.Meets .add) (hfits : Memory.Fits m.target wordBytes) :
    m.step = (⟨{ m.registers with
          a := wrap (m.registers.a + m.memory.word m.target), pc := m.registers.pc + 3 },
        m.memory⟩, .ok (Instruction.ofWord m.fetched)) := by
  rw [step_of_operand hm h hfits rfl, advance_eq m (Memory.fits_word_iff.2 h.inside)]
  simp only [Registers.set, wrap_sum]
  rfl

theorem step_of_tix (h : m.Meets .tix) (hfits : Memory.Fits m.target wordBytes) :
    m.step = (⟨{ m.registers with
          x := wrap (m.registers.x + 1)
          pc := m.registers.pc + 3
          sw := (ConditionCode.compare (wrap (m.registers.x + 1))
            (m.memory.word m.target)).toWord },
        m.memory⟩, .ok (Instruction.ofWord m.fetched)) := by
  rw [step_of_operand hm h hfits rfl, advance_eq m (Memory.fits_word_iff.2 h.inside)]
  simp only [Registers.set, Registers.setConditionCode, wrap_of_lt (ConditionCode.toWord_lt _)]
  rfl

theorem step_of_sta (h : m.Meets .sta) (hfits : Memory.Fits m.target wordBytes) :
    m.step = (⟨{ m.registers with pc := m.registers.pc + 3 },
        m.memory.putWord m.target m.registers.a⟩, .ok (Instruction.ofWord m.fetched)) :=
  step_of_word_store hm h hfits rfl

theorem step_of_stl (h : m.Meets .stl) (hfits : Memory.Fits m.target wordBytes) :
    m.step = (⟨{ m.registers with pc := m.registers.pc + 3 },
        m.memory.putWord m.target m.registers.l⟩, .ok (Instruction.ofWord m.fetched)) :=
  step_of_word_store hm h hfits rfl

end Steps

end SicMachine.Machine
