import SicMachine.Proofs.StepCases
import Mathlib.Logic.Function.Iterate

/-!
Runs as sequences of single steps. A run whose steps all succeed ends where
that many steps lead; any other run ends right behind the first step that
fails, with the fault of that step. So a run can be interrupted and resumed
without a difference. A fetch that fails leaves everything as it is, and
therefore fails for ever.
-/
namespace SicMachine.Machine

/-! ### Steps one after the other -/

/-- The machine behind a number of steps, whether or not they succeed. -/
def after (m : Machine) (count : Nat) : Machine := (fun m => m.step.1)^[count] m

/-- The next step succeeds. -/
def Proceeds (m : Machine) : Prop := ∃ i, m.step.2 = .ok i

/-- As many steps as given succeed, one after the other. -/
def ProceedsFor (m : Machine) (count : Nat) : Prop := ∀ i < count, (m.after i).Proceeds

/-- The first step that fails comes behind `count` successful ones. -/
def StopsAt (m : Machine) (count : Nat) (fault : Fault) : Prop :=
  m.ProceedsFor count ∧ (m.after count).step.2 = .error fault

theorem after_zero (m : Machine) : m.after 0 = m := rfl

theorem after_succ (m : Machine) (count : Nat) : m.after (count + 1) = m.step.1.after count := rfl

theorem after_succ_last (m : Machine) (count : Nat) :
    m.after (count + 1) = (m.after count).step.1 :=
  Function.iterate_succ_apply' ..

theorem proceedsFor_zero (m : Machine) : m.ProceedsFor 0 := by
  intro i hi
  omega

theorem proceedsFor_succ_iff {m : Machine} {count : Nat} :
    m.ProceedsFor (count + 1) ↔ m.Proceeds ∧ m.step.1.ProceedsFor count := by
  constructor
  · intro h
    exact ⟨h 0 (by omega), fun i hi => h (i + 1) (by omega)⟩
  · intro h i hi
    obtain ⟨hfirst, hrest⟩ := h
    cases i with
    | zero => exact hfirst
    | succ i => exact hrest i (by omega)

theorem StopsAt.step {m : Machine} {count : Nat} {fault : Fault} (h : m.StopsAt count fault) :
    (m.after count).step = (m.after (count + 1), .error fault) :=
  Prod.ext (m.after_succ_last count).symm h.2

/-- Either all steps succeed or there is a first one that does not. -/
theorem proceedsFor_or_stopsAt (m : Machine) (steps : Nat) :
    m.ProceedsFor steps ∨ ∃ count < steps, ∃ fault, m.StopsAt count fault := by
  induction steps with
  | zero => exact Or.inl m.proceedsFor_zero
  | succ steps ih =>
    -- The last step decides only when all steps before it have succeeded.
    rcases ih with hall | ⟨count, hcount, hstop⟩
    · cases hstep : (m.after steps).step.2 with
      | error fault => exact Or.inr ⟨steps, by omega, fault, hall, hstep⟩
      | ok i =>
        refine Or.inl fun j hj => ?_
        rcases Nat.lt_succ_iff_lt_or_eq.1 hj with hj | rfl
        · exact hall j hj
        · exact ⟨i, hstep⟩
    · exact Or.inr ⟨count, by omega, hstop⟩

/-! ### Runs -/

theorem Proceeds.fits {m : Machine} (h : m.Proceeds) :
    Memory.Fits m.registers.pc wordBytes := by
  by_contra houtside
  obtain ⟨i, hi⟩ := h
  rw [step_of_not_fits m houtside] at hi
  cases hi

/-- What a step returns is the instruction at PC. -/
theorem step_of_proceeds {m : Machine} (h : m.Proceeds) :
    m.step = (m.step.1, .ok (Instruction.ofWord m.fetched)) := by
  have hfetch := fetch_of_fits m h.fits
  obtain ⟨i, hi⟩ := h
  cases heffect : Effect.ofInstruction m.registers.advance m.memory m.registers.pc
      (Instruction.ofWord m.fetched) with
  | error fault =>
    rw [step_of_error m _ fault hfetch heffect] at hi
    cases hi
  | ok effect => rw [step_of_ok m _ effect hfetch heffect]

theorem run_of_step {m next : Machine} {i : Instruction} (h : m.step = (next, .ok i))
    (steps : Nat) : m.run (steps + 1) = next.run steps := by
  rw [run, h]

/-- A run in two parts. The second part is left out when the first one fails. -/
theorem run_add (m : Machine) (first second : Nat) :
    m.run (first + second) =
      match m.run first with
      | (next, .ok ()) => next.run second
      | (next, .error fault) => (next, .error fault) := by
  induction first generalizing m with
  | zero => rw [Nat.zero_add, run]
  | succ first ih =>
    rw [Nat.add_right_comm, run, run]
    split
    · exact ih _
    · rfl

theorem run_of_proceedsFor {m : Machine} {steps : Nat} (h : m.ProceedsFor steps) :
    m.run steps = (m.after steps, .ok ()) := by
  induction steps generalizing m with
  | zero => rfl
  | succ steps ih =>
    obtain ⟨hfirst, hrest⟩ := proceedsFor_succ_iff.1 h
    rw [run, step_of_proceeds hfirst]
    exact ih hrest

/-- A run keeps the state behind the first step that fails, and its fault. -/
theorem run_of_stopsAt {m : Machine} {count steps : Nat} {fault : Fault}
    (h : m.StopsAt count fault) (hcount : count < steps) :
    m.run steps = (m.after (count + 1), .error fault) := by
  -- The steps are `count` that succeed, the one that fails, and `left` that are never made.
  obtain ⟨left, rfl⟩ := Nat.exists_eq_add_of_lt hcount
  rw [Nat.add_assoc, run_add, run_of_proceedsFor h.1]
  show (m.after count).run (left + 1) = _
  rw [run, h.step]

theorem run_eq_ok_iff {m : Machine} {steps : Nat} :
    (m.run steps).2 = .ok () ↔ m.ProceedsFor steps := by
  constructor
  · intro h
    rcases m.proceedsFor_or_stopsAt steps with hall | ⟨count, hcount, fault, hstop⟩
    · exact hall
    · rw [run_of_stopsAt hstop hcount] at h
      cases h
  · intro h
    rw [run_of_proceedsFor h]

/-! ### Steps that fail -/

/-- A step that fails behind its fetch has moved PC on and done nothing else. -/
theorem step_of_fetch_ok {m : Machine} {i : Instruction} {fault : Fault} (hfetch : m.fetch = .ok i)
    (h : m.step.2 = .error fault) : m.step.1 = m.advanced := by
  cases heffect : Effect.ofInstruction m.registers.advance m.memory m.registers.pc i with
  | error other => rw [step_of_error m i other hfetch heffect]
  | ok effect =>
    rw [step_of_ok m i effect hfetch heffect] at h
    cases h

theorem fits_of_fetch_error {m : Machine} {fault : Fault} (h : m.fetch = .error fault) :
    ¬ Memory.Fits m.registers.pc wordBytes := by
  intro hpc
  rw [fetch_of_fits m hpc] at h
  cases h

/-- Nothing brings back a machine whose fetch fails. -/
theorem after_of_fetch_error {m : Machine} {fault : Fault} (h : m.fetch = .error fault)
    (count : Nat) : m.after count = m := by
  induction count with
  | zero => rfl
  | succ count ih => rw [after_succ, step_of_fetch_error h, ih]

theorem run_of_fetch_error {m : Machine} {fault : Fault} (h : m.fetch = .error fault) {steps : Nat}
    (hsteps : 1 ≤ steps) : m.run steps = (m, .error fault) := by
  have hstep := step_of_fetch_error h
  have hstop : m.StopsAt 0 fault := ⟨m.proceedsFor_zero, by rw [after_zero, hstep]⟩
  rw [run_of_stopsAt hstop hsteps, after_of_fetch_error h]

/-- A run is its steps in a row, up to the first that fails, and may be made in parts. When the
fetch of a machine fails, it fails in all later steps and runs as well, and they change nothing. -/
theorem run_stepwise (m : Machine) :
    (∀ first second, m.run (first + second) =
      match m.run first with
      | (next, .ok ()) => next.run second
      | (next, .error fault) => (next, .error fault)) ∧
    (∀ steps, (m.run steps).2 = .ok () ↔ m.ProceedsFor steps) ∧
    (∀ steps, m.ProceedsFor steps → m.run steps = (m.after steps, .ok ())) ∧
    (∀ steps, ¬ m.ProceedsFor steps → ∃ count < steps, ∃ fault, m.StopsAt count fault ∧
      m.run steps = (m.after (count + 1), .error fault) ∧
      ∀ i, (m.after count).fetch = .ok i → m.after (count + 1) = (m.after count).advanced) ∧
    ∀ fault, m.fetch = .error fault →
      32765 < m.registers.pc ∧ fault = .memory (.outOfBounds m.registers.pc 3) ∧
      (∀ count, m.after count = m ∧ (m.after count).step = (m, .error fault)) ∧
      ∀ steps, 1 ≤ steps → m.run steps = (m, .error fault) := by
  refine ⟨m.run_add, fun _ => run_eq_ok_iff, fun _ => run_of_proceedsFor, ?_, ?_⟩
  · intro steps h
    obtain ⟨count, hcount, fault, hstop⟩ := (m.proceedsFor_or_stopsAt steps).resolve_left h
    refine ⟨count, hcount, fault, hstop, run_of_stopsAt hstop hcount, ?_⟩
    intro i hfetch
    rw [after_succ_last, step_of_fetch_ok hfetch hstop.2]
  · intro fault h
    have houtside := fits_of_fetch_error h
    have hfault := h.symm.trans (fetch_of_not_fits m houtside)
    rw [Memory.fits_word_iff] at houtside
    refine ⟨by omega, Except.error.inj hfault, ?_, fun _ => run_of_fetch_error h⟩
    intro count
    rw [after_of_fetch_error h count]
    exact ⟨rfl, step_of_fetch_error h⟩

/-- The last word of an empty memory is next. -/
def runningOut : Machine := ⟨⟨0, 0, 0, 32765, 0⟩, .zero⟩

/-- PC has left the memory. -/
def runOut : Machine := ⟨⟨0, 0, 0, 32768, 0⟩, .zero⟩

theorem step_runningOut : runningOut.step = (runOut, .ok (Instruction.ofWord 0)) := by
  have hfetched : runningOut.fetched = 0 := Memory.word_zero _
  have hopcode : Mnemonic.lda.opcode.toNat = runningOut.opcode := by
    rw [opcode, hfetched]
    rfl
  have htarget : runningOut.target = 0 := by
    rw [target, hfetched]
    rfl
  have hread : runningOut.memory.readWord 0 = .ok 0 :=
    (if_pos (by decide)).trans (congrArg Except.ok (Memory.word_zero 0))
  have heffect : Effect.ofMnemonic runningOut.registers.advance runningOut.memory
      runningOut.registers.pc runningOut.target .lda = .ok (.onRegisters runOut.registers) := by
    rw [htarget, Effect.ofMnemonic, Effect.withOperand, hread]
    rfl
  rw [step_of_mnemonic runningOut (by decide) (by decide) hopcode heffect, hfetched]
  rfl

theorem runningOut_stepwise :
    runningOut.run (1 + 4) = (runOut, .error (.memory (.outOfBounds 32768 3))) := by
  have hfirst : runningOut.run 1 = (runOut, .ok ()) := by
    rw [run, step_runningOut]
    rfl
  have hfetch := fetch_of_not_fits runOut (by decide)
  obtain ⟨-, -, -, hlast⟩ := (run_stepwise runOut).2.2.2.2 _ hfetch
  rw [(run_stepwise runningOut).1, hfirst]
  exact hlast 4 (by decide)

end SicMachine.Machine
