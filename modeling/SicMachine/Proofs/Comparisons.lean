import Mathlib.Logic.ExistsUnique
import SicMachine.Proofs.InstructionSteps
import SicMachine.Proofs.JumpTargets

/-!
Comparisons and the jumps that depend on them. COMP and TIX leave in the status
word how two numbers compare, and no other step changes it, whether or not it
fails. So a conditional jump is decided by the last comparison before it,
however many steps lie between, and as long as nothing has been compared by the
status word that was there at the start.
-/
namespace SicMachine

namespace ConditionCode

/-- How two numbers must compare for a condition to hold. -/
def Holds (left right : Nat) : ConditionCode → Prop
  | less => left < right
  | equal => left = right
  | greater => right < left

instance (left right : Nat) : DecidablePred (Holds left right)
  | less => inferInstanceAs (Decidable (_ < _))
  | equal => inferInstanceAs (Decidable (_ = _))
  | greater => inferInstanceAs (Decidable (_ < _))

theorem compare_eq_iff {left right : Nat} {cc : ConditionCode} :
    compare left right = cc ↔ cc.Holds left right := by
  unfold compare
  cases cc with
  | less => grind [Holds]
  | equal => grind [Holds]
  | greater => grind [Holds]

theorem toWord_inj {left right : ConditionCode} : left.toWord = right.toWord ↔ left = right := by
  constructor
  · intro h
    rw [← Option.some_inj, ← ofWord?_toWord left, h, ofWord?_toWord]
  · rintro rfl
    rfl

end ConditionCode

/-- The jump that is taken under a condition. -/
def Mnemonic.jumpOn : ConditionCode → Mnemonic
  | .less => jlt
  | .equal => jeq
  | .greater => jgt

theorem Mnemonic.branches_jumpOn_iff {cc : ConditionCode} {sw : Nat} :
    (jumpOn cc).Branches sw ↔ sw = cc.toWord := by
  cases cc <;> exact Iff.rfl

namespace Effect

variable {r : Registers} {memory : Memory} {origin address : Nat} {effect : Effect}
  {cc : ConditionCode}

theorem sw_of_comp (h : ofMnemonic r memory origin address .comp = .ok effect) :
    effect.registers.sw = (ConditionCode.compare r.a (memory.word address)).toWord := by
  obtain ⟨-, registers, huse, rfl⟩ := withOperand_eq_ok_iff.1 h
  cases huse
  exact wrap_of_lt (ConditionCode.toWord_lt _)

theorem sw_of_tix (h : ofMnemonic r memory origin address .tix = .ok effect) :
    effect.registers.sw =
      (ConditionCode.compare (wrap (r.x + 1)) (memory.word address)).toWord := by
  obtain ⟨-, registers, huse, rfl⟩ := withOperand_eq_ok_iff.1 h
  cases huse
  exact wrap_of_lt (ConditionCode.toWord_lt _)

theorem ofMnemonic_jumpOn (cc : ConditionCode) :
    ofMnemonic r memory origin address (.jumpOn cc) = .ok (jumpIf r cc address) := by
  cases cc <;> rfl

end Effect

namespace Machine

/-- The step succeeds and compares two numbers: COMP takes A, and TIX takes X when it has been
counted on, each with the word of the operand. -/
inductive Compares (m : Machine) : Nat → Nat → Prop
  | comp (hmeets : m.Meets .comp) (hproceeds : m.Proceeds) :
      Compares m m.registers.a (m.memory.word m.target)
  | tix (hmeets : m.Meets .tix) (hproceeds : m.Proceeds) :
      Compares m (wrap (m.registers.x + 1)) (m.memory.word m.target)

/-- The machine behind a jump to the address of the operand. -/
def jumped (m : Machine) : Machine := ⟨m.registers.set .pc m.target, m.memory⟩

variable {m : Machine} {u v : Nat}

/-- A comparison leaves its sign in the status word. -/
theorem sw_of_compares (hm : m.registers.InRange) (h : m.Compares u v) :
    m.step.1.registers.sw = (ConditionCode.compare u v).toWord := by
  cases h with
  | comp hmeets hproceeds =>
    obtain ⟨effect, heffect, hnext⟩ := exists_effect hm hmeets hproceeds
    rw [hnext, Effect.sw_of_comp heffect]
    rfl
  | tix hmeets hproceeds =>
    obtain ⟨effect, heffect, hnext⟩ := exists_effect hm hmeets hproceeds
    rw [hnext, Effect.sw_of_tix heffect]
    rfl

/-- Only COMP and TIX set the status word. -/
theorem exists_compares (h : m.Sets .sw) : ∃ u v, m.Compares u v := by
  obtain ⟨hproceeds, mnemonic, hmeets, hmem⟩ := h
  cases mnemonic with
  | comp => exact ⟨_, _, .comp hmeets hproceeds⟩
  | tix => exact ⟨_, _, .tix hmeets hproceeds⟩
  | _ => simp [Mnemonic.written] at hmem

theorem not_sets_sw (h : ∀ u v, ¬ m.Compares u v) : ¬ m.Sets .sw := by
  intro hsets
  obtain ⟨u, v, hcompares⟩ := exists_compares hsets
  exact h u v hcompares

/-- Every step that is no comparison keeps the status word. -/
theorem sw_of_not_compares (hm : m.registers.InRange) (h : ∀ u v, ¬ m.Compares u v) :
    m.step.1.registers.sw = m.registers.sw :=
  register_step hm (by decide) (not_sets_sw h)

/-- The status word along steps among which there is no comparison. -/
theorem sw_after (hm : m.WellFormed) {i k : Nat} (hik : i ≤ k)
    (h : ∀ j, i ≤ j → j < k → ∀ u v, ¬ (m.after j).Compares u v) :
    (m.after k).registers.sw = (m.after i).registers.sw :=
  register_after hm (by decide) hik fun j hij hjk => not_sets_sw (h j hij hjk)

theorem Compares.lt (hm : m.registers.InRange) (h : m.Compares u v) :
    u < wordLimit ∧ v < wordLimit := by
  cases h with
  | comp => exact ⟨hm.1, m.memory.word_lt _⟩
  | tix => exact ⟨wrap_lt _, m.memory.word_lt _⟩

/-- A conditional jump never fails. It goes to the address of its operand when the status word is
the sign of its condition, and otherwise on to the next word. -/
theorem step_of_jumpOn (hm : m.registers.InRange) {cc : ConditionCode}
    (h : m.Meets (.jumpOn cc)) :
    m.step = (if m.registers.sw = cc.toWord then m.jumped else m.advanced,
      .ok (Instruction.ofWord m.fetched)) := by
  have heffect : Effect.ofMnemonic m.registers.advance m.memory m.registers.pc m.target
      (.jumpOn cc) = .ok (Effect.jumpIf m.registers.advance cc m.target) :=
    Effect.ofMnemonic_jumpOn cc
  rw [step_of_mnemonic m hm (Memory.fits_word_iff.2 h.inside) h.opcode heffect]
  have hsign : m.registers.advance.conditionCode? = some cc ↔ m.registers.sw = cc.toWord :=
    ConditionCode.ofWord?_eq_some_iff
  simp only [Effect.jumpIf, hsign]
  split <;> rfl

/-- The status word changes only where COMP or TIX succeeds. The last of these before a conditional
jump decides it: exactly one of the three jumps is taken, the one whose condition holds of the two
numbers compared. As long as there has been none, a conditional jump is taken only when the status
word was its sign from the start, and so never from a machine whose status word is that of a fresh
one. -/
theorem comparison_decides_jump {m : Machine} (hm : m.WellFormed) :
    (∀ j, (m.after (j + 1)).registers.sw ≠ (m.after j).registers.sw →
      ∃ u v, (m.after j).Compares u v) ∧
    (∀ i k u v, (m.after i).Compares u v → i < k →
      (∀ j, i < j → j < k → ∀ u v, ¬ (m.after j).Compares u v) →
      u < wordLimit ∧ v < wordLimit ∧
      (∀ cc, (m.after k).Meets (.jumpOn cc) →
        (m.after k).step = (if cc.Holds u v then (m.after k).jumped else (m.after k).advanced,
          .ok (Instruction.ofWord (m.after k).fetched))) ∧
      ∃! cc, (Mnemonic.jumpOn cc).Branches (m.after k).registers.sw) ∧
    ∀ k, (∀ j < k, ∀ u v, ¬ (m.after j).Compares u v) → ∀ cc, (m.after k).Meets (.jumpOn cc) →
      (m.after k).step = (if m.registers.sw = cc.toWord then (m.after k).jumped
        else (m.after k).advanced, .ok (Instruction.ofWord (m.after k).fetched)) ∧
      (m.registers.sw = Registers.zero.sw →
        (m.after (k + 1)).registers.pc = (m.after k).registers.pc + 3) := by
  refine ⟨?_, ?_, ?_⟩
  · intro j hchange
    by_contra hnone
    simp only [not_exists] at hnone
    rw [after_succ_last] at hchange
    exact hchange (sw_of_not_compares (wellFormed_after hm j).1 hnone)
  · intro i k u v hcompares hik hlast
    have hrange := (wellFormed_after hm i).1
    -- The status word is the sign of the comparison from the step behind it up to the jump.
    have hsw : (m.after k).registers.sw = (ConditionCode.compare u v).toWord := by
      rw [sw_after hm (Nat.succ_le_of_lt hik) fun j hij hjk => hlast j hij hjk, after_succ_last,
        sw_of_compares hrange hcompares]
    obtain ⟨hu, hv⟩ := hcompares.lt hrange
    refine ⟨hu, hv, ?_, ConditionCode.compare u v, ?_, ?_⟩
    · intro cc hmeets
      rw [step_of_jumpOn (wellFormed_after hm k).1 hmeets]
      simp only [hsw, ConditionCode.toWord_inj, ConditionCode.compare_eq_iff]
    · exact Mnemonic.branches_jumpOn_iff.2 hsw
    · intro cc hbranches
      rw [Mnemonic.branches_jumpOn_iff, hsw, ConditionCode.toWord_inj] at hbranches
      exact hbranches.symm
  · intro k hnone cc hmeets
    have hsw : (m.after k).registers.sw = m.registers.sw :=
      sw_after hm (Nat.zero_le k) fun j _ hjk => hnone j hjk
    have hstep := step_of_jumpOn (wellFormed_after hm k).1 hmeets
    rw [hsw] at hstep
    refine ⟨hstep, ?_⟩
    intro hfresh
    have hsign : m.registers.sw ≠ cc.toWord := by
      rw [hfresh]
      cases cc <;> decide
    rw [after_succ_last, hstep, if_neg hsign, advanced,
      advance_eq _ (Memory.fits_word_iff.2 hmeets.inside)]
    rfl

/-- X is counted on from its largest value to zero, which is less than the word at 6, and the jump
behind that leads back. -/
def counting : Machine :=
  ⟨⟨0, 0xFFFFFF, 0, 0, 0⟩, Memory.zero.putWords 0 [0x2C0006, 0x380000, 1]⟩

theorem wellFormed_counting : counting.WellFormed :=
  ⟨by decide, (Memory.size_putWords ..).trans Memory.size_zero⟩

theorem word_counting {i : Nat} (hi : i < 3) :
    counting.memory.word (0 + i * wordBytes) = wrap [0x2C0006, 0x380000, 1][i] :=
  Memory.zero.word_putWords (by rw [Memory.size_zero]; decide) hi

theorem fetched_counting : counting.fetched = 0x2C0006 := word_counting (i := 0) (by decide)

theorem target_counting : counting.target = 6 := target_of_fetched fetched_counting rfl

theorem meets_tix_counting : counting.Meets .tix :=
  meets_of_fetched (by decide) fetched_counting rfl

theorem word_target_counting : counting.memory.word counting.target = 1 := by
  rw [target_counting]
  exact word_counting (i := 2) (by decide)

theorem step_counting :
    counting.step = (⟨⟨0, 0, 0, 3, 0x3C⟩, counting.memory⟩, .ok (Instruction.ofWord 0x2C0006)) := by
  rw [step_of_tix (by decide) meets_tix_counting (by rw [target_counting]; decide),
    word_target_counting, fetched_counting]
  rfl

theorem compares_counting : counting.Compares 0 1 := by
  have hcompares := Compares.tix meets_tix_counting ⟨_, congrArg Prod.snd step_counting⟩
  rw [word_target_counting] at hcompares
  exact hcompares

theorem counting_comparison_decides_jump :
    counting.WellFormed ∧ (counting.after 0).Compares 0 1 ∧
      (counting.after 1).Meets (.jumpOn .less) ∧
      (counting.after 1).step.1 = ⟨⟨0, 0, 0, 0, 0x3C⟩, counting.memory⟩ := by
  have hafter : counting.after 1 = ⟨⟨0, 0, 0, 3, 0x3C⟩, counting.memory⟩ := by
    rw [after_succ_last, after_zero, step_counting]
  have hfetched : (counting.after 1).fetched = 0x380000 := by
    rw [hafter]
    exact word_counting (i := 1) (by decide)
  have hmeets : (counting.after 1).Meets (.jumpOn .less) := by
    refine ⟨by rw [hafter]; decide, ?_⟩
    rw [opcode, hfetched]
    rfl
  have htarget : (counting.after 1).target = 0 := by
    rw [target, hfetched, hafter]
    rfl
  obtain ⟨-, hdecides, -⟩ := comparison_decides_jump wellFormed_counting
  obtain ⟨-, -, hjump, -⟩ :=
    hdecides 0 1 0 1 compares_counting (by decide) fun j hj hlast => by omega
  refine ⟨wellFormed_counting, compares_counting, hmeets, ?_⟩
  rw [hjump .less hmeets, if_pos (by decide), jumped, htarget, hafter]
  rfl

end Machine

end SicMachine
