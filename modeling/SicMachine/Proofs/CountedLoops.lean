import SicMachine.Proofs.Comparisons
import Mathlib.Algebra.Group.Nat.Defs

/-!
A loop in machine code that adds a word to A while it counts on X. Its test
comes last, so the loop goes round once even when the bound has been reached
before. From then on X goes up by one in each round, up to the bound, and no
number in between is wrapped. What the loop leaves behind is told by the number
of rounds alone.
-/
namespace SicMachine

/-- LDA 2100, ADD 2103, TIX 2106, JLT 2003 and STA 2109. -/
def countedLoop : List Nat :=
  [(Instruction.encode Mnemonic.lda.opcode false 0x2100).word,
    (Instruction.encode Mnemonic.add.opcode false 0x2103).word,
    (Instruction.encode Mnemonic.tix.opcode false 0x2106).word,
    (Instruction.encode Mnemonic.jlt.opcode false 0x2003).word,
    (Instruction.encode Mnemonic.sta.opcode false 0x2109).word]

/-- The program stands at 2000, and at 2100 the words that it reads. -/
structure Memory.HoldsLoop (memory : Memory) (z v n : Nat) : Prop where
  size : memory.bytes.size = memorySize
  program : ∀ i (hi : i < countedLoop.length),
    memory.word (0x2000 + i * wordBytes) = countedLoop[i]
  first : memory.word 0x2100 = z
  addend : memory.word 0x2103 = v
  bound : memory.word 0x2106 = n

namespace Machine

/-! ### The five instructions of the loop -/

section Loop

variable {m : Machine} {memory : Memory} {z v n a x l sw : Nat}

/-- The instruction at which PC stands, and the address of its operand. -/
theorem meets_loop (h : m.memory.HoldsLoop z v n) {i word address : Nat}
    (hi : i < countedLoop.length) (hpc : m.registers.pc = 0x2000 + i * wordBytes)
    (hword : countedLoop[i] = word) {mnemonic : Mnemonic}
    (hopcode : mnemonic.opcode.toNat = word / 65536) (haddress : word % 65536 = address)
    (hdirect : address < addressLimit) :
    m.fetched = word ∧ m.Meets mnemonic ∧ m.target = address := by
  have hfetched : m.fetched = word := by
    rw [fetched, hpc, h.program i hi, hword]
  have hinside : m.registers.pc ≤ 32765 := by
    have hlength : countedLoop.length = 5 := rfl
    rw [hpc, wordBytes]
    omega
  have htarget : m.target = address := by
    simp only [addressLimit] at hdirect
    rw [target_of_fetched hfetched (by simp only [addressLimit]; omega), addressLimit]
    omega
  exact ⟨hfetched, meets_of_fetched hinside hfetched hopcode, htarget⟩

theorem loop_lda (h : m.memory.HoldsLoop z v n) (hm : m.registers.InRange)
    (hpc : m.registers.pc = 0x2000) :
    m.step = (⟨{ m.registers with a := z, pc := 0x2003 }, m.memory⟩,
      .ok (Instruction.ofWord 0x002100)) := by
  obtain ⟨hfetched, hmeets, htarget⟩ : m.fetched = 0x002100 ∧ m.Meets .lda ∧ m.target = 0x2100 :=
    meets_loop h (i := 0) (by decide) hpc rfl rfl (by decide) (by decide)
  rw [step_of_lda hm hmeets (by rw [htarget]; decide), htarget, h.first, hfetched, hpc]

theorem loop_add (h : m.memory.HoldsLoop z v n) (hm : m.registers.InRange)
    (hpc : m.registers.pc = 0x2003) :
    m.step = (⟨{ m.registers with a := wrap (m.registers.a + v), pc := 0x2006 }, m.memory⟩,
      .ok (Instruction.ofWord 0x182103)) := by
  obtain ⟨hfetched, hmeets, htarget⟩ : m.fetched = 0x182103 ∧ m.Meets .add ∧ m.target = 0x2103 :=
    meets_loop h (i := 1) (by decide) hpc rfl rfl (by decide) (by decide)
  rw [step_of_add hm hmeets (by rw [htarget]; decide), htarget, h.addend, hfetched, hpc]

theorem loop_tix (h : m.memory.HoldsLoop z v n) (hm : m.registers.InRange)
    (hpc : m.registers.pc = 0x2006) :
    m.step = (⟨{ m.registers with
          x := wrap (m.registers.x + 1)
          pc := 0x2009
          sw := (ConditionCode.compare (wrap (m.registers.x + 1)) n).toWord },
        m.memory⟩, .ok (Instruction.ofWord 0x2C2106)) := by
  obtain ⟨hfetched, hmeets, htarget⟩ : m.fetched = 0x2C2106 ∧ m.Meets .tix ∧ m.target = 0x2106 :=
    meets_loop h (i := 2) (by decide) hpc rfl rfl (by decide) (by decide)
  rw [step_of_tix hm hmeets (by rw [htarget]; decide), htarget, h.bound, hfetched, hpc]

theorem loop_jlt (h : m.memory.HoldsLoop z v n) (hm : m.registers.InRange)
    (hpc : m.registers.pc = 0x2009) :
    m.step = (⟨{ m.registers with
          pc := if m.registers.sw = ConditionCode.less.toWord then 0x2003 else 0x200C },
        m.memory⟩, .ok (Instruction.ofWord 0x382003)) := by
  obtain ⟨hfetched, hmeets, htarget⟩ :
      m.fetched = 0x382003 ∧ m.Meets (.jumpOn .less) ∧ m.target = 0x2003 :=
    meets_loop h (i := 3) (by decide) hpc rfl rfl (by decide) (by decide)
  have hadvanced : m.advanced = ⟨{ m.registers with pc := 0x200C }, m.memory⟩ := by
    rw [advanced, advance_eq m (Memory.fits_word_iff.2 hmeets.inside), hpc]
    rfl
  have hjumped : m.jumped = ⟨{ m.registers with pc := 0x2003 }, m.memory⟩ := by
    rw [jumped, htarget]
    rfl
  rw [step_of_jumpOn hm hmeets, hadvanced, hjumped, hfetched]
  split <;> rfl

theorem loop_sta (h : m.memory.HoldsLoop z v n) (hm : m.registers.InRange)
    (hpc : m.registers.pc = 0x200C) :
    m.step = (⟨{ m.registers with pc := 0x200F }, m.memory.putWord 0x2109 m.registers.a⟩,
      .ok (Instruction.ofWord 0x0C2109)) := by
  obtain ⟨hfetched, hmeets, htarget⟩ : m.fetched = 0x0C2109 ∧ m.Meets .sta ∧ m.target = 0x2109 :=
    meets_loop h (i := 4) (by decide) hpc rfl rfl (by decide) (by decide)
  rw [step_of_sta hm hmeets (by rw [htarget]; decide), htarget, hfetched, hpc]

/-! ### One round, and all rounds -/

/-- The loop goes round again when the number that has been counted is below the bound. -/
theorem run_round (h : memory.HoldsLoop z v n) (hr : Registers.InRange ⟨a, x, l, 0x2003, sw⟩) :
    (Machine.mk ⟨a, x, l, 0x2003, sw⟩ memory).run 3 =
      (⟨⟨wrap (a + v), wrap (x + 1), l, if wrap (x + 1) < n then 0x2003 else 0x200C,
        (ConditionCode.compare (wrap (x + 1)) n).toWord⟩, memory⟩, .ok ()) := by
  obtain ⟨ha, hx, hl, hpc, hsw⟩ := hr
  have hadd : (Machine.mk ⟨a, x, l, 0x2003, sw⟩ memory).step =
      (⟨⟨wrap (a + v), x, l, 0x2006, sw⟩, memory⟩, .ok (Instruction.ofWord 0x182103)) :=
    loop_add h ⟨ha, hx, hl, hpc, hsw⟩ rfl
  have htix : (Machine.mk ⟨wrap (a + v), x, l, 0x2006, sw⟩ memory).step =
      (⟨⟨wrap (a + v), wrap (x + 1), l, 0x2009,
        (ConditionCode.compare (wrap (x + 1)) n).toWord⟩, memory⟩,
        .ok (Instruction.ofWord 0x2C2106)) :=
    loop_tix h ⟨wrap_lt _, hx, hl, show 0x2006 < wordLimit by decide, hsw⟩ rfl
  have hjlt := loop_jlt (m := ⟨⟨wrap (a + v), wrap (x + 1), l, 0x2009,
    (ConditionCode.compare (wrap (x + 1)) n).toWord⟩, memory⟩) h
    ⟨wrap_lt _, wrap_lt _, hl, show 0x2009 < wordLimit by decide, ConditionCode.toWord_lt _⟩ rfl
  rw [run_of_step hadd, run_of_step htix, run_of_step hjlt, run]
  simp only [ConditionCode.toWord_inj, ConditionCode.compare_eq_iff, ConditionCode.Holds]

/-- Behind each round but the last, X is below the bound. So it goes up by one in the next round,
and is not wrapped. -/
theorem run_rounds (h : memory.HoldsLoop z v n) (hr : Registers.InRange ⟨a, x, l, 0x2003, sw⟩)
    {x₁ : Nat} (hx₁ : x₁ = wrap (x + 1)) {rounds : Nat} (hrounds : rounds < max 1 (n + 1 - x₁)) :
    (Machine.mk ⟨a, x, l, 0x2003, sw⟩ memory).run (3 * (rounds + 1)) =
      (⟨⟨wrap (a + (rounds + 1) * v), x₁ + rounds, l,
        if x₁ + rounds < n then 0x2003 else 0x200C,
        (ConditionCode.compare (x₁ + rounds) n).toWord⟩, memory⟩, .ok ()) := by
  induction rounds with
  | zero =>
    rw [Nat.zero_add, Nat.mul_one, Nat.one_mul, Nat.add_zero, run_round h hr, hx₁]
  | succ rounds ih =>
    -- There is another round only when X is below the bound, and so the next X is a word.
    have hmore : x₁ + rounds < n := by omega
    have hbound : n < wordLimit := by
      rw [← h.bound]
      exact memory.word_lt _
    have hcounted : wrap (x₁ + rounds + 1) = x₁ + (rounds + 1) := wrap_of_lt (by omega)
    have hadded : wrap (wrap (a + (rounds + 1) * v) + v) = wrap (a + (rounds + 1 + 1) * v) := by
      rw [wrap, wrap, wrap, Nat.mod_add_mod, Nat.add_assoc, ← Nat.succ_mul]
    have hrange : Registers.InRange ⟨wrap (a + (rounds + 1) * v), x₁ + rounds, l, 0x2003,
        (ConditionCode.compare (x₁ + rounds) n).toWord⟩ :=
      ⟨wrap_lt _, show x₁ + rounds < wordLimit by omega, hr.2.2.1, hr.2.2.2.1,
        ConditionCode.toWord_lt _⟩
    rw [Nat.mul_succ, run_add, ih (by omega), if_pos hmore]
    show (Machine.mk _ _).run 3 = _
    rw [run_round h hrange, hcounted, hadded]

/-- X has reached the bound when the loop is left, unless it was beyond it from the start. -/
theorem sign_of_last (n x₁ : Nat) :
    (ConditionCode.compare (max n x₁) n).toWord = (if x₁ ≤ n then '=' else '>').toNat := by
  split
  · next hle =>
    have hequal : ConditionCode.compare (max n x₁) n = .equal :=
      ConditionCode.compare_eq_iff.2 (Nat.max_eq_left hle)
    rw [hequal]
    rfl
  · next hgt =>
    have hgreater : ConditionCode.compare (max n x₁) n = .greater :=
      ConditionCode.compare_eq_iff.2 (show n < max n x₁ by omega)
    rw [hgreater]
    rfl

theorem run_loop (h : memory.HoldsLoop z v n) (hr : Registers.InRange ⟨a, x, l, 0x2000, sw⟩)
    {x₁ k : Nat} (hx₁ : x₁ = wrap (x + 1)) (hk : k = max 1 (n + 1 - x₁)) :
    (Machine.mk ⟨a, x, l, 0x2000, sw⟩ memory).run (2 + 3 * k) =
      (⟨⟨wrap (z + k * v), max n x₁, l, 0x200F, (if x₁ ≤ n then '=' else '>').toNat⟩,
        memory.putWord 0x2109 (wrap (z + k * v))⟩, .ok ()) := by
  obtain ⟨ha, hx, hl, hpc, hsw⟩ := hr
  obtain ⟨rounds, rfl⟩ : ∃ rounds, k = rounds + 1 := Nat.exists_eq_succ_of_ne_zero (by omega)
  have hz : z < wordLimit := by
    rw [← h.first]
    exact memory.word_lt _
  have hlast : max n x₁ < wordLimit := by
    have hn := memory.word_lt 0x2106
    have hcounted := wrap_lt (x + 1)
    rw [h.bound] at hn
    omega
  have hlda : (Machine.mk ⟨a, x, l, 0x2000, sw⟩ memory).step =
      (⟨⟨z, x, l, 0x2003, sw⟩, memory⟩, .ok (Instruction.ofWord 0x002100)) :=
    loop_lda h ⟨ha, hx, hl, hpc, hsw⟩ rfl
  have hrange : Registers.InRange ⟨z, x, l, 0x2003, sw⟩ :=
    ⟨hz, hx, hl, show 0x2003 < wordLimit by decide, hsw⟩
  have hrounds := run_rounds h hrange hx₁ (show rounds < max 1 (n + 1 - x₁) by omega)
  have hsta := loop_sta (m := ⟨⟨wrap (z + (rounds + 1) * v), max n x₁, l, 0x200C,
    (ConditionCode.compare (max n x₁) n).toWord⟩, memory⟩) h
    ⟨wrap_lt _, hlast, hl, show 0x200C < wordLimit by decide, ConditionCode.toWord_lt _⟩ rfl
  have hreached : x₁ + rounds = max n x₁ := by omega
  have hleft : ¬ max n x₁ < n := by omega
  have hsteps : 2 + 3 * (rounds + 1) = 3 * (rounds + 1) + 1 + 1 := by omega
  -- LDA, then all rounds, and STA behind the last of them.
  rw [hreached, if_neg hleft] at hrounds
  rw [hsteps, run_of_step hlda, run_add, hrounds]
  show (Machine.mk _ _).run 1 = _
  rw [run_of_step hsta, run, sign_of_last]

end Loop

/-! ### Loading the program -/

theorem holdsLoop_of_load {memory : Memory} {z v n : Nat} (hsize : memory.bytes.size = memorySize)
    (hz : z < wordLimit) (hv : v < wordLimit) (hn : n < wordLimit) :
    ((memory.putWords 0x2000 countedLoop).putWords 0x2100 [z, v, n]).HoldsLoop z v n := by
  have hprogram : (memory.putWords 0x2000 countedLoop).bytes.size = memorySize :=
    (Memory.size_putWords ..).trans hsize
  have hroom : 0x2100 + [z, v, n].length * wordBytes ≤
      (memory.putWords 0x2000 countedLoop).bytes.size := by
    rw [hprogram]
    exact show 0x2100 + 3 * wordBytes ≤ memorySize by decide
  have hsmall : ∀ word ∈ countedLoop, word < wordLimit := by
    decide
  refine ⟨(Memory.size_putWords ..).trans hprogram, fun i hi => ?_, ?_, ?_, ?_⟩
  · have hlength : countedLoop.length = 5 := rfl
    have hbefore : ∀ read, read < 0x2000 + i * wordBytes + wordBytes → read < 0x2100 := by
      intro read hread
      simp only [wordBytes] at hread
      omega
    rw [Memory.word_congr fun read _ hread =>
        Memory.byte_putWords_of_outside _ _ (Or.inl (hbefore read hread)),
      memory.word_putWords (by rw [hsize]; decide) hi, wrap_of_lt (hsmall _ (List.getElem_mem hi))]
  · exact (Memory.word_putWords _ hroom (show 0 < 3 by decide)).trans (wrap_of_lt hz)
  · exact (Memory.word_putWords _ hroom (show 1 < 3 by decide)).trans (wrap_of_lt hv)
  · exact (Memory.word_putWords _ hroom (show 2 < 3 by decide)).trans (wrap_of_lt hn)

/-- The loop adds the second word to the first once for every number from X plus one up to the third
word, and at least once. It leaves the sum in A and at 2109, X at the last of these numbers and in
the status word how that compares with the third word. Nothing else in memory changes. -/
theorem counted_loop_adds (m : Machine) (hm : m.WellFormed) (z v n x₁ k : Nat) (hz : z < 2 ^ 24)
    (hv : v < 2 ^ 24) (hn : n < 2 ^ 24) (hx₁ : x₁ = (m.registers.x + 1) % 2 ^ 24)
    (hk : k = max 1 (n + 1 - x₁)) :
    ∃ loaded memory final,
      m.loadProgram 0x2000 countedLoop = .ok loaded ∧
      loaded.memory.loadWords 0x2100 [z, v, n] = .ok memory ∧
      run ⟨loaded.registers.set .pc 0x2000, memory⟩ (2 + 3 * k) = (final, .ok ()) ∧
      final.registers = ⟨(z + k * v) % 2 ^ 24, max n x₁, m.registers.l, 0x200F,
        (if x₁ ≤ n then '=' else '>').toNat⟩ ∧
      final.memory.word 0x2109 = (z + k * v) % 2 ^ 24 ∧
      ∀ address, address < 0x2109 ∨ 0x210B < address →
        final.memory.byte address = memory.byte address := by
  obtain ⟨hrange, hsize⟩ := hm
  have hholds := holdsLoop_of_load hsize hz hv hn
  have hload : m.loadProgram 0x2000 countedLoop =
      .ok ⟨m.registers, m.memory.putWords 0x2000 countedLoop⟩ := by
    rw [loadProgram, Memory.loadWords_of_fits m.memory (by decide)]
    rfl
  have hdata := (m.memory.putWords 0x2000 countedLoop).loadWords_of_fits
    (show 0x2100 + [z, v, n].length * wordBytes ≤ memorySize from
      show 0x2100 + 3 * wordBytes ≤ memorySize by decide)
  have hrun := run_loop hholds (hrange.set .pc 0x2000) hx₁ hk
  refine ⟨_, _, _, hload, hdata, hrun, rfl, ?_, fun address houtside => ?_⟩
  · rw [Memory.word_putWord _ _ _ (by rw [hholds.size]; decide)]
    exact wrap_of_lt (wrap_lt _)
  · exact Memory.byte_putWord_of_outside _ _ (by simp only [wordBytes]; omega)

/-- From the largest X on the count begins at zero. -/
theorem loop_adds_from_last :
    ∃ loaded memory final,
      loadProgram ⟨⟨7, 0xFFFFFF, 1, 2, 3⟩, .zero⟩ 0x2000 countedLoop = .ok loaded ∧
      loaded.memory.loadWords 0x2100 [0xFFFFFE, 5, 4] = .ok memory ∧
      run ⟨loaded.registers.set .pc 0x2000, memory⟩ 17 = (final, .ok ()) ∧
      final.registers = ⟨23, 4, 1, 0x200F, 0x3D⟩ ∧ final.memory.word 0x2109 = 23 := by
  obtain ⟨loaded, memory, final, hload, hdata, hrun, hregisters, hsum, -⟩ :=
    counted_loop_adds ⟨⟨7, 0xFFFFFF, 1, 2, 3⟩, .zero⟩ ⟨by decide, Memory.size_zero⟩ 0xFFFFFE 5 4 0 5
      (by decide) (by decide) (by decide) rfl rfl
  exact ⟨loaded, memory, final, hload, hdata, hrun, hregisters, hsum⟩

end Machine

end SicMachine
