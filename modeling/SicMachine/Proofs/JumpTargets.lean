import SicMachine.Proofs.StepFailures
import SicMachine.Proofs.ReachableMachines

/-!
Where a jump leads. PC keeps 24 bits of the address of a jump. An address
outside memory that fits there is found out by the next fetch, which names it
as a load or a store with that address does. Only an indexed address can be
wider. It loses its highest bit, and so it leads back into memory: unless it is
the largest of all, the next fetch finds some instruction there, and nothing is
reported.
-/
namespace SicMachine

/-- Whether an instruction moves PC to the address of its operand while the status word is as
given. RSUB takes its address from a register. -/
def Mnemonic.Branches (sw : Nat) : Mnemonic → Prop
  | j => True
  | jsub => True
  | jeq => sw = ConditionCode.equal.toWord
  | jgt => sw = ConditionCode.greater.toWord
  | jlt => sw = ConditionCode.less.toWord
  | _ => False

namespace Effect

variable {r : Registers} (memory : Memory) (origin address : Nat)

theorem jumpIf_of_sign {cc : ConditionCode} (h : r.sw = cc.toWord) :
    jumpIf r cc address = onRegisters (r.set .pc address) := by
  have hcc : r.conditionCode? = some cc := ConditionCode.ofWord?_eq_some_iff.2 h
  rw [jumpIf, if_pos hcc]

/-- A jump that is taken sets PC, and nothing stands in its way. -/
theorem ofMnemonic_of_branches {mnemonic : Mnemonic} (h : mnemonic.Branches r.sw) :
    ∃ registers, ofMnemonic r memory origin address mnemonic = .ok (onRegisters registers) ∧
      registers.pc = wrap address := by
  cases mnemonic with
  | j => exact ⟨_, rfl, rfl⟩
  | jsub => exact ⟨_, rfl, rfl⟩
  | jeq | jgt | jlt => exact ⟨_, congrArg Except.ok (jumpIf_of_sign address h), rfl⟩
  | _ => exact h.elim

end Effect

namespace Machine

/-- The step executes a jump to the address of its operand, and the jump is taken. -/
structure Jumps (m : Machine) : Prop where
  inside : m.registers.pc ≤ 32765
  taken : ∃ mnemonic : Mnemonic, mnemonic.opcode.toNat = m.opcode ∧
    mnemonic.Branches m.registers.sw

variable {m : Machine}

theorem step_of_jumps (hm : m.registers.InRange) (h : m.Jumps) :
    ∃ registers, m.step = (⟨registers, m.memory⟩, .ok (Instruction.ofWord m.fetched)) ∧
      registers.pc = wrap m.target := by
  obtain ⟨mnemonic, hopcode, hbranch⟩ := h.taken
  have hinside := Memory.fits_word_iff.2 h.inside
  have hsw : mnemonic.Branches m.registers.advance.sw := hbranch
  obtain ⟨registers, heffect, hpc⟩ :=
    Effect.ofMnemonic_of_branches m.memory m.registers.pc m.target hsw
  exact ⟨registers, step_of_mnemonic m hm hinside hopcode heffect, hpc⟩

/-- The largest address of an operand has 25 bits. -/
theorem target_le (hm : m.registers.InRange) : m.target ≤ wordLimit + 32766 := by
  have hx := hm.2.1
  have haddress : m.fetched % addressLimit < addressLimit := Nat.mod_lt _ (by decide)
  have hbit : m.fetched / addressLimit % 2 = 0 ∨ m.fetched / addressLimit % 2 = 1 := by omega
  unfold target
  rcases hbit with hbit | hbit
  all_goals
    rw [hbit]
    simp only [addressLimit, wordLimit] at *
    omega

/-- Loads and stores of words name an address outside memory, however large it is. -/
theorem step_of_word_outside (hm : m.registers.InRange) (hpc : m.registers.pc ≤ 32765)
    {mnemonic : Mnemonic} (hopcode : mnemonic.opcode.toNat = m.opcode)
    (hmember : mnemonic ∈ Mnemonic.wordOperands) (houtside : 32765 < m.target) :
    m.step.2 = .error (.memory (.outOfBounds m.target 3)) :=
  (step_error_iff m hm _).2 (.word hpc hopcode hmember houtside)

/-- Behind a jump the next fetch takes place at the low 24 bits of its address. -/
theorem fetch_of_jumps (hm : m.registers.InRange) (h : m.Jumps) :
    m.step.1.fetch =
      if wrap m.target ≤ 32765 then .ok (Instruction.ofWord (m.memory.word (wrap m.target)))
      else .error (.memory (.outOfBounds (wrap m.target) 3)) := by
  obtain ⟨registers, hstep, hpc⟩ := step_of_jumps hm h
  rw [hstep, ← hpc]
  by_cases hinside : registers.pc ≤ 32765
  · rw [if_pos hinside]
    exact fetch_of_fits ⟨registers, m.memory⟩ (Memory.fits_word_iff.2 hinside)
  · rw [if_neg hinside]
    exact fetch_of_not_fits ⟨registers, m.memory⟩ fun hfits =>
      hinside (Memory.fits_word_iff.1 hfits)

/-- A jump out of memory succeeds. The step behind it names the address, as loads and stores do,
when PC can hold it. An address of 25 bits comes back into memory instead, and only the largest of
all is found out there, under another name. -/
theorem jump_out_of_memory (hm : Reachable m) (hjump : m.Jumps) (houtside : 32765 < m.target) :
    (∃ i, m.step.2 = .ok i) ∧
    (m.target < wordLimit →
      m.step.1.step = (m.step.1, .error (.memory (.outOfBounds m.target 3)))) ∧
    (wordLimit ≤ m.target →
      m.step.1.registers.pc = m.target - wordLimit ∧ m.target - wordLimit ≤ 32766 ∧
      (m.target - wordLimit ≤ 32765 →
        m.step.1.fetch = .ok (Instruction.ofWord (m.memory.word (m.target - wordLimit)))) ∧
      (m.target - wordLimit = 32766 →
        m.step.1.step = (m.step.1, .error (.memory (.outOfBounds 32766 3))))) ∧
    ∀ other, Reachable other → other.registers.pc ≤ 32765 → other.target = m.target →
      ∀ mnemonic ∈ Mnemonic.wordOperands, mnemonic.opcode.toNat = other.opcode →
        other.step.2 = .error (.memory (.outOfBounds m.target 3)) := by
  have hrange := hm.wellFormed.1
  obtain ⟨registers, hstep, hpc⟩ := step_of_jumps hrange hjump
  have hfetch := fetch_of_jumps hrange hjump
  refine ⟨⟨_, congrArg Prod.snd hstep⟩, ?_, ?_, ?_⟩
  · intro hsmall
    rw [wrap_of_lt hsmall, if_neg (by omega)] at hfetch
    exact step_of_fetch_error hfetch
  · intro hlarge
    -- X is below 2 ^ 24 and the address below 2 ^ 15, so exactly one multiple of 2 ^ 24 is lost.
    have hle := target_le hrange
    have hwrap : wrap m.target = m.target - wordLimit := by
      simp only [wrap, wordLimit] at *
      omega
    rw [hwrap] at hfetch hpc
    refine ⟨?_, by omega, ?_, ?_⟩
    · rw [hstep]
      exact hpc
    · intro hinside
      rw [hfetch, if_pos hinside]
    · intro hend
      rw [hend, if_neg (by decide)] at hfetch
      exact step_of_fetch_error hfetch
  · intro other hother hinside htarget mnemonic hmember hopcode
    rw [← htarget] at houtside ⊢
    exact step_of_word_outside hother.wellFormed.1 hinside hopcode hmember houtside

/-- The address of the jump is 1 and X, together one more than PC can hold. -/
def circling : Machine := ⟨⟨0, 0xFFFFFF, 0, 0, 0⟩, Memory.zero.putWord 0 0x3C8001⟩

theorem fetched_circling : circling.fetched = 0x3C8001 :=
  Memory.word_putWord _ _ _ (by rw [Memory.size_zero]; decide)

theorem target_circling : circling.target = 0x1000000 := by
  rw [target, fetched_circling]
  rfl

theorem opcode_circling : Mnemonic.j.opcode.toNat = circling.opcode := by
  rw [opcode, fetched_circling]
  rfl

/-- The sum loses its highest bit, and the jump is next again. -/
theorem step_circling : circling.step = (circling, .ok (Instruction.ofWord 0x3C8001)) := by
  have heffect : Effect.ofMnemonic circling.registers.advance circling.memory circling.registers.pc
      circling.target .j = .ok (.onRegisters circling.registers) := by
    rw [target_circling]
    rfl
  rw [step_of_mnemonic circling (by decide) (by decide) opcode_circling heffect, fetched_circling]
  rfl

theorem reachable_circling : Reachable circling := by
  have hwritten : Reachable (Session.initial.perform (.writeWord 0 0x3C8001)).1.machine :=
    .command .fresh _
  exact .command hwritten (.set .x 0xFFFFFF)

theorem jumps_circling : circling.Jumps := ⟨by decide, .j, opcode_circling, trivial⟩

theorem circling_jump_out_of_memory :
    Reachable circling ∧ circling.Jumps ∧ 32765 < circling.target ∧
      circling.step.1.registers.pc = 0 ∧
      circling.step.1.fetch = .ok (Instruction.ofWord 0x3C8001) := by
  have houtside : 32765 < circling.target := by
    rw [target_circling]
    decide
  obtain ⟨-, -, hlarge, -⟩ := jump_out_of_memory reachable_circling jumps_circling houtside
  rw [target_circling] at hlarge
  obtain ⟨hpc, -, hfetch, -⟩ := hlarge (by decide)
  have hword : circling.memory.word 0 = 0x3C8001 := fetched_circling
  refine ⟨reachable_circling, jumps_circling, houtside, hpc, ?_⟩
  rw [hfetch (by decide)]
  exact congrArg (fun word => Except.ok (Instruction.ofWord word)) hword

/-- The jump of this machine leads back to itself, and the next step is the same jump again. -/
theorem jump_leads_back :
    ¬ ∀ m : Machine, Reachable m → m.Jumps → 32765 < m.target →
      m.step.1.step.2 = .error (.memory (.outOfBounds m.target 3)) := by
  intro h
  have houtside : 32765 < circling.target := by
    rw [target_circling]
    decide
  have hfault := h circling reachable_circling jumps_circling houtside
  rw [step_circling, step_circling] at hfault
  cases hfault

end Machine

end SicMachine
