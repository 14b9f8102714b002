import SicMachine.Proofs.InstructionSteps

/-!
Calls of subroutines and the way back. JSUB leaves the address behind it in L,
and only JSUB and LDL set L, so as long as there is neither of them an RSUB
finds that address, wherever the subroutine has led in the meantime. A
subroutine that calls others keeps its L in memory with STL. There it stands
until a store reaches one of its three bytes, and LDL brings it back.
-/
namespace SicMachine.Machine

variable {m : Machine}

/-- The step succeeds and is a JSUB or an LDL. -/
def Links (m : Machine) : Prop := m.Proceeds ∧ (m.Meets .jsub ∨ m.Meets .ldl)

/-- The machine with PC at an address, and otherwise as it is. -/
def movedTo (m : Machine) (address : Nat) : Machine :=
  ⟨{ m.registers with pc := address }, m.memory⟩

/-! ### The call, the return and what stores L -/

theorem step_of_jsub (hm : m.registers.InRange) (h : m.Meets .jsub) :
    m.step = (⟨{ m.registers with l := m.registers.pc + 3, pc := wrap m.target }, m.memory⟩,
      .ok (Instruction.ofWord m.fetched)) := by
  have hinside := Memory.fits_word_iff.2 h.inside
  have hsmall : m.registers.pc + 3 < wordLimit := by
    have hpc := h.inside
    simp only [wordLimit]
    omega
  have hreturn : wrap m.registers.advance.pc = m.registers.pc + 3 := by
    rw [advance_eq m hinside]
    exact wrap_of_lt hsmall
  rw [step_of_mnemonic m hm hinside h.opcode rfl]
  simp only [Effect.onRegisters, Effect.memoryAfter, Registers.set, hreturn]
  rfl

/-- RSUB goes where L says, whatever the rest of its word is. -/
theorem step_of_rsub (hm : m.registers.InRange) (h : m.Meets .rsub) :
    m.step = (m.movedTo m.registers.l, .ok (Instruction.ofWord m.fetched)) := by
  have hlinkage : wrap m.registers.advance.l = m.registers.l := wrap_of_lt hm.2.2.1
  rw [step_of_mnemonic m hm (Memory.fits_word_iff.2 h.inside) h.opcode rfl]
  simp only [Effect.onRegisters, Effect.memoryAfter, Registers.set, hlinkage]
  rfl

/-- The operand of an STL that succeeds lies inside memory. -/
theorem fits_of_stl (hm : m.registers.InRange) (h : m.Meets .stl) (hproceeds : m.Proceeds) :
    Memory.Fits m.target wordBytes := by
  obtain ⟨effect, heffect, -⟩ := exists_effect hm h hproceeds
  exact (Effect.withStore_word_eq_ok_iff.1 heffect).1

/-! ### L along a run -/

theorem links_of_sets (h : m.Sets .l) : m.Links := by
  obtain ⟨hproceeds, mnemonic, hmeets, hmem⟩ := h
  cases mnemonic with
  | jsub => exact ⟨hproceeds, Or.inl hmeets⟩
  | ldl => exact ⟨hproceeds, Or.inr hmeets⟩
  | _ => simp [Mnemonic.written] at hmem

/-- An RSUB goes where L has said since the last step that set it. -/
theorem step_of_rsub_after (hm : m.WellFormed) {i k : Nat} (hik : i ≤ k)
    (h : ∀ j, i ≤ j → j < k → ¬ (m.after j).Links) (hrsub : (m.after k).Meets .rsub) :
    (m.after k).step = ((m.after k).movedTo (m.after i).registers.l,
      .ok (Instruction.ofWord (m.after k).fetched)) := by
  have hlinkage : (m.after k).registers.l = (m.after i).registers.l :=
    register_after hm (by decide) hik fun j hij hjk hsets => h j hij hjk (links_of_sets hsets)
  rw [step_of_rsub (wellFormed_after hm k).1 hrsub, hlinkage]

/-- A word in memory keeps its value along steps that write none of its bytes. -/
theorem word_between (hm : m.WellFormed) {i k address : Nat} (hik : i ≤ k)
    (h : ∀ j, i ≤ j → j < k → ∀ read, address ≤ read → read < address + 3 →
      ¬ (m.after j).Writes read) :
    (m.after k).memory.word address = (m.after i).memory.word address :=
  Memory.word_congr fun read hfrom hto =>
    byte_between hm hik fun j hij hjk => h j hij hjk read hfrom hto

/-- L is the same behind an LDL as it was at the STL that stored it. -/
theorem linkage_restored (hm : m.WellFormed) {s l : Nat} (hstl : (m.after s).Meets .stl)
    (hproceeds : (m.after s).Proceeds) (hsl : s < l)
    (hkept : ∀ j, s < j → j < l → ∀ read, (m.after s).target ≤ read →
      read < (m.after s).target + 3 → ¬ (m.after j).Writes read)
    (hldl : (m.after l).Meets .ldl) (hsame : (m.after l).target = (m.after s).target) :
    (m.after (l + 1)).registers.l = (m.after s).registers.l := by
  have hstored := wellFormed_after hm s
  have hfits := fits_of_stl hstored.1 hstl hproceeds
  have hroom : (m.after s).target + 2 < (m.after s).memory.bytes.size := by
    rw [hstored.2]
    simp only [Memory.Fits, wordBytes] at hfits
    omega
  -- The word is written by the STL, kept up to the LDL, and read there.
  have hwritten : (m.after (s + 1)).memory.word (m.after s).target = (m.after s).registers.l := by
    have hword := (m.after s).memory.word_putWord _ (m.after s).registers.l hroom
    rw [wrap_of_lt hstored.1.2.2.1] at hword
    rw [after_succ_last, step_of_stl hstored.1 hstl hfits, hword]
  have hread := word_between hm (Nat.succ_le_of_lt hsl) hkept
  rw [← hsame] at hfits
  have hloaded : (m.after (l + 1)).registers.l = (m.after l).memory.word (m.after l).target := by
    rw [after_succ_last, step_of_ldl (wellFormed_after hm l).1 hldl hfits]
  rw [hloaded, hsame, hread, hwritten]

/-- A JSUB is answered by the next RSUB as long as no JSUB and no LDL succeeds between them: PC goes
to the address behind the JSUB, and nothing else changes. If L is stored by an STL while it still is
that address, the steps behind it may set L as they like. An LDL of the same word brings it back
when no byte of the word has been written in the meantime, and the next RSUB returns likewise. -/
theorem rsub_answers_jsub {m : Machine} (hm : m.WellFormed) :
    (∀ i k, (m.after i).Meets .jsub → i < k →
      (∀ j, i < j → j < k → ¬ (m.after j).Links) → (m.after k).Meets .rsub →
      (m.after k).step = ((m.after k).movedTo ((m.after i).registers.pc + 3),
        .ok (Instruction.ofWord (m.after k).fetched))) ∧
    ∀ i s l k, (m.after i).Meets .jsub → i < s →
      (m.after s).Meets .stl → (m.after s).Proceeds →
      (m.after s).registers.l = (m.after i).registers.pc + 3 → s < l →
      (∀ j, s < j → j < l → ∀ read, (m.after s).target ≤ read →
        read < (m.after s).target + 3 → ¬ (m.after j).Writes read) →
      (m.after l).Meets .ldl → (m.after l).target = (m.after s).target → l < k →
      (∀ j, l < j → j < k → ¬ (m.after j).Links) → (m.after k).Meets .rsub →
      (m.after k).step = ((m.after k).movedTo ((m.after i).registers.pc + 3),
        .ok (Instruction.ofWord (m.after k).fetched)) := by
  refine ⟨?_, ?_⟩
  · intro i k hjsub hik hkept hrsub
    have hlinkage : (m.after (i + 1)).registers.l = (m.after i).registers.pc + 3 := by
      rw [after_succ_last, step_of_jsub (wellFormed_after hm i).1 hjsub]
    rw [← hlinkage]
    exact step_of_rsub_after hm hik hkept hrsub
  · intro i s l k _ _ hstl hproceeds hlinkage hsl hbytes hldl hsame hlk hkept hrsub
    rw [← hlinkage, ← linkage_restored hm hstl hproceeds hsl hbytes hldl hsame]
    exact step_of_rsub_after hm hlk hkept hrsub

/-- The subroutine at 6 stores L at 21, calls the one at 18, which returns at once, loads L back and
returns. -/
def nestedCalls : List Nat :=
  [0x480006, 0, 0x140015, 0x480012, 0x080015, 0x4C0000, 0x4C0000]

def nesting : Machine := ⟨.zero, Memory.zero.putWords 0 nestedCalls⟩

theorem wellFormed_nesting : nesting.WellFormed :=
  ⟨by decide, (Memory.size_putWords ..).trans Memory.size_zero⟩

/-- The memory behind the STL. -/
def nestedMemory : Memory := nesting.memory.putWord 21 3

theorem word_nesting {i : Nat} (hi : i < nestedCalls.length) :
    nesting.memory.word (0 + i * wordBytes) = wrap nestedCalls[i] :=
  Memory.zero.word_putWords (by rw [Memory.size_zero]; decide) hi

theorem word_nestedMemory {address : Nat} (h : address + wordBytes ≤ 21) :
    nestedMemory.word address = nesting.memory.word address := by
  refine Memory.word_congr fun read hfrom hto => ?_
  exact Memory.byte_putWord_of_outside _ _ (Or.inl (Nat.lt_of_lt_of_le hto h))

theorem not_writes_of_meets {mnemonic : Mnemonic} (h : m.Meets mnemonic)
    (hnone : mnemonic.storeWidth = 0) (address : Nat) : ¬ m.Writes address := by
  intro hwrites
  obtain ⟨other, hopcode, hfrom, hto⟩ := hwrites.stores
  obtain rfl : other = mnemonic :=
    Mnemonic.opcode_injective (UInt8.toNat_inj.1 (hopcode.trans h.opcode.symm))
  omega

theorem meets_nesting : nesting.Meets .jsub :=
  meets_of_fetched (by decide) (word_nesting (i := 0) (by decide)) rfl

/-- The subroutine at 6 has been entered. -/
theorem after_nesting_one : nesting.after 1 = ⟨⟨0, 0, 3, 6, 0⟩, nesting.memory⟩ := by
  have hfetched : nesting.fetched = 0x480006 := word_nesting (i := 0) (by decide)
  have htarget : nesting.target = 6 := target_of_fetched hfetched rfl
  rw [after_succ_last, after_zero, step_of_jsub (by decide) meets_nesting, htarget]
  rfl

theorem fetched_nesting_one : (nesting.after 1).fetched = 0x140015 := by
  rw [after_nesting_one]
  exact word_nesting (i := 2) (by decide)

theorem meets_nesting_one : (nesting.after 1).Meets .stl :=
  meets_of_fetched (by rw [after_nesting_one]; decide) fetched_nesting_one rfl

theorem target_nesting_one : (nesting.after 1).target = 21 :=
  target_of_fetched fetched_nesting_one rfl

theorem step_nesting_one :
    (nesting.after 1).step =
      (⟨⟨0, 0, 3, 9, 0⟩, nestedMemory⟩, .ok (Instruction.ofWord 0x140015)) := by
  have hfits : Memory.Fits (nesting.after 1).target wordBytes := by
    rw [target_nesting_one]
    decide
  rw [step_of_stl (wellFormed_after wellFormed_nesting 1).1 meets_nesting_one hfits,
    target_nesting_one, fetched_nesting_one, after_nesting_one]
  rfl

/-- What is fetched behind the STL, which has not touched the program. -/
theorem fetched_nested (r : Registers) {i : Nat} (hi : i < nestedCalls.length)
    (hpc : r.pc = 0 + i * wordBytes) : fetched ⟨r, nestedMemory⟩ = wrap nestedCalls[i] := by
  have hprogram : r.pc + wordBytes ≤ 21 := by
    have hlength : nestedCalls.length = 7 := rfl
    simp only [wordBytes] at hpc ⊢
    omega
  rw [fetched, word_nestedMemory hprogram, hpc]
  exact word_nesting hi

theorem after_nesting_two : nesting.after 2 = ⟨⟨0, 0, 3, 9, 0⟩, nestedMemory⟩ := by
  rw [after_succ_last, step_nesting_one]

theorem meets_nesting_two : (nesting.after 2).Meets .jsub := by
  rw [after_nesting_two]
  exact meets_of_fetched (by decide) (fetched_nested _ (i := 3) (by decide) rfl) rfl

theorem after_nesting_three : nesting.after 3 = ⟨⟨0, 0, 12, 18, 0⟩, nestedMemory⟩ := by
  have hfetched : (nesting.after 2).fetched = 0x480012 := by
    rw [after_nesting_two]
    exact fetched_nested _ (i := 3) (by decide) rfl
  have htarget : (nesting.after 2).target = 18 := target_of_fetched hfetched rfl
  rw [after_succ_last,
    step_of_jsub (wellFormed_after wellFormed_nesting 2).1 meets_nesting_two, htarget,
    after_nesting_two]
  rfl

theorem meets_nesting_three : (nesting.after 3).Meets .rsub := by
  rw [after_nesting_three]
  exact meets_of_fetched (by decide) (fetched_nested _ (i := 6) (by decide) rfl) rfl

/-- Both calls are answered, although the second one has set L. -/
theorem nesting_rsub_answers_jsub :
    nesting.WellFormed ∧ (nesting.after 0).Meets .jsub ∧ (nesting.after 1).Meets .stl ∧
      (nesting.after 2).Meets .jsub ∧ (nesting.after 3).Meets .rsub ∧
      (nesting.after 4).Meets .ldl ∧ (nesting.after 5).Meets .rsub ∧
      (nesting.after 4).registers.pc = 12 ∧ (nesting.after 6).registers.pc = 3 := by
  obtain ⟨hanswer, hnested⟩ := rsub_answers_jsub wellFormed_nesting
  have hfour : nesting.after 4 = ⟨⟨0, 0, 12, 12, 0⟩, nestedMemory⟩ := by
    rw [after_succ_last, hanswer 2 3 meets_nesting_two (by decide) (fun j hj hlast => by omega)
      meets_nesting_three, after_nesting_two, after_nesting_three]
    rfl
  have hfetched : (nesting.after 4).fetched = 0x080015 := by
    rw [hfour]
    exact fetched_nested _ (i := 4) (by decide) rfl
  have hldl : (nesting.after 4).Meets .ldl :=
    meets_of_fetched (by rw [hfour]; decide) hfetched rfl
  have htarget : (nesting.after 4).target = 21 := target_of_fetched hfetched rfl
  have hfits : Memory.Fits (nesting.after 4).target wordBytes := by
    rw [htarget]
    decide
  have hsaved : nestedMemory.word 21 = 3 :=
    Memory.word_putWord _ _ _ (by rw [wellFormed_nesting.2]; decide)
  have hfive : nesting.after 5 = ⟨⟨0, 0, 3, 15, 0⟩, nestedMemory⟩ := by
    rw [after_succ_last, step_of_ldl (wellFormed_after wellFormed_nesting 4).1 hldl hfits, htarget,
      hfour, hsaved]
  have hlast : (nesting.after 5).Meets .rsub := by
    rw [hfive]
    exact meets_of_fetched (by decide) (fetched_nested _ (i := 5) (by decide) rfl) rfl
  have hkept : ∀ j, 1 < j → j < 4 → ∀ read, (nesting.after 1).target ≤ read →
      read < (nesting.after 1).target + 3 → ¬ (nesting.after j).Writes read := by
    intro j hfrom hto read _ _
    obtain rfl | rfl : j = 2 ∨ j = 3 := by omega
    · exact not_writes_of_meets meets_nesting_two rfl read
    · exact not_writes_of_meets meets_nesting_three rfl read
  have hreturn := hnested 0 1 4 5 meets_nesting (by decide) meets_nesting_one
    ⟨_, congrArg Prod.snd step_nesting_one⟩ (by rw [after_nesting_one]; rfl) (by decide) hkept hldl
    (htarget.trans target_nesting_one.symm) (by decide) (fun j hj hnone => by omega) hlast
  refine ⟨wellFormed_nesting, meets_nesting, meets_nesting_one, meets_nesting_two,
    meets_nesting_three, hldl, hlast, by rw [hfour], ?_⟩
  rw [after_succ_last, hreturn, after_zero]
  rfl

end SicMachine.Machine
