import SicMachine.Session
import SicMachine.Proofs.RecordInvariants
import SicMachine.Proofs.StepCases

/-!
Memory keeps its size and registers stay in range, whatever is done to a
machine. Machines begin fresh or are read from text, with or without parts
read from text of their own, and then any commands follow in any order. The
bounds rule out that an access which has passed its check leaves memory, that
an address or a counter outgrows 32 bits, and that a reset leaves anything
behind.
-/
namespace SicMachine

open InPlace

/-! ### What is read from text -/

theorem Json.Reader.read_of_readText {α : Type} {reader : Json.Reader α} {text : String} {value : α}
    (h : reader.readText text = .ok value) : reader (Json.scan text.toList) = .ok (value, []) := by
  unfold readText at h
  split at h
  · next hread =>
    cases h
    exact hread
  · cases h
  · cases h

theorem Registers.inRange_ofValues (values : List Nat) : (ofValues values).InRange :=
  ⟨wrap_lt _, wrap_lt _, wrap_lt _, wrap_lt _, wrap_lt _⟩

theorem Registers.inRange_of_reader {tokens rest : List Json.Token} {r : Registers}
    (h : record.reader tokens = .ok (r, rest)) : r.InRange := by
  refine Json.Record.reader_keeps (by decide : Registers.zero.InRange) ?_ h
  intro field hfield
  obtain rfl := List.mem_singleton.1 hfield
  exact Json.Field.keeps_of InRange (fun _ => True) _ _ _ _ (fun _ _ _ _ => trivial)
    (fun _ values _ _ => inRange_ofValues values)

theorem Memory.size_of_reader {tokens rest : List Json.Token} {memory : Memory}
    (h : reader tokens = .ok (memory, rest)) : memory.bytes.size = memorySize := by
  unfold reader at h
  split at h
  · cases h
  · next bytes left hbytes =>
    unfold ofBytes at h
    by_cases hlength : bytes.length = memorySize
    · simp only [hlength, if_true] at h
      cases h
      exact hlength
    · simp [hlength] at h

theorem Machine.wellFormed_zero : Machine.zero.WellFormed := ⟨by decide, Memory.size_zero⟩

theorem Machine.wellFormed_of_reader {tokens rest : List Json.Token} {m : Machine}
    (h : record.reader tokens = .ok (m, rest)) : m.WellFormed := by
  refine Json.Record.reader_keeps (P := WellFormed) wellFormed_zero ?_ h
  intro field hfield
  simp only [record, List.mem_cons, List.not_mem_nil, or_false] at hfield
  rcases hfield with rfl | rfl
  · exact Json.Field.keeps_of WellFormed Registers.InRange _ _ _ _
      (fun _ _ _ hread => Registers.inRange_of_reader hread) (fun _ _ hm hr => ⟨hr, hm.2⟩)
  · exact Json.Field.keeps_of WellFormed (fun memory => memory.bytes.size = memorySize) _ _ _ _
      (fun _ _ _ hread => Memory.size_of_reader hread) (fun _ _ hm hsize => ⟨hm.1, hsize⟩)

theorem Registers.inRange_of_decode {text : String} {r : Registers}
    (h : codec.decode text = .ok r) : r.InRange :=
  inRange_of_reader (Json.Reader.read_of_readText h)

theorem Memory.size_of_decode {text : String} {memory : Memory}
    (h : codec.decode text = .ok memory) : memory.bytes.size = memorySize :=
  size_of_reader (Json.Reader.read_of_readText h)

theorem Machine.wellFormed_of_decode {text : String} {m : Machine}
    (h : codec.decode text = .ok m) : m.WellFormed :=
  wellFormed_of_reader (Json.Reader.read_of_readText h)

/-! ### What commands do -/

namespace Memory

variable {memory written : Memory}

theorem size_of_writeByte {address value : Nat} (h : memory.writeByte address value = .ok written) :
    written.bytes.size = memory.bytes.size := by
  unfold writeByte at h
  split at h <;> cases h
  exact size_putByte memory address _

theorem size_of_writeWord {address value : Nat} (h : memory.writeWord address value = .ok written) :
    written.bytes.size = memory.bytes.size := by
  unfold writeWord at h
  split at h <;> cases h
  exact size_putWord memory address value

theorem size_of_loadWords {start : Nat} {words : List Nat}
    (h : memory.loadWords start words = .ok written) :
    written.bytes.size = memory.bytes.size := by
  unfold loadWords at h
  simp only at h
  split at h <;> cases h
  exact size_putWords memory start words

/-- Words that are loaded together lie inside memory, each of them. -/
theorem fits_of_loadWords {start : Nat} {words : List Nat}
    (h : memory.loadWords start words = .ok written) (i : Nat) (hi : i < words.length) :
    Fits (start + i * wordBytes) wordBytes := by
  unfold loadWords at h
  simp only at h
  split at h
  · next hsize =>
    simp only [Fits, wordBytes, memorySize] at hsize ⊢
    omega
  · cases h

end Memory

theorem Registers.inRange_of_setNamed {r written : Registers} {name : String} {value : Nat}
    (hr : r.InRange) (h : r.setNamed name value = .ok written) : written.InRange := by
  unfold setNamed at h
  split at h
  · next register hname =>
    cases h
    exact hr.set register value
  · cases h

namespace Machine

variable {m loaded : Machine}

theorem WellFormed.withRegisters (hm : m.WellFormed) {registers : Registers}
    (h : registers.InRange) : WellFormed (m.withRegisters registers) :=
  ⟨h, hm.2⟩

theorem WellFormed.withMemory (hm : m.WellFormed) {memory : Memory}
    (h : memory.bytes.size = m.memory.bytes.size) : WellFormed (m.withMemory memory) :=
  ⟨hm.1, h.trans hm.2⟩

theorem WellFormed.loadProgram (hm : m.WellFormed) {start : Nat} {words : List Nat}
    (h : m.loadProgram start words = .ok loaded) : loaded.WellFormed := by
  unfold Machine.loadProgram at h
  cases hload : m.memory.loadWords start words with
  | error error => simp [hload, Except.map] at h
  | ok memory =>
    rw [hload] at h
    cases h
    exact ⟨hm.1, (Memory.size_of_loadWords hload).trans hm.2⟩

theorem WellFormed.loadImage (hm : m.WellFormed) {image : Image}
    (h : m.loadImage image = .ok loaded) : loaded.WellFormed := by
  unfold Machine.loadImage at h
  split at h
  · next placed hload =>
    cases h
    have hplaced := hm.loadProgram hload
    exact ⟨hplaced.1.set .pc _, hplaced.2⟩
  · cases h

theorem WellFormed.follow (hm : m.WellFormed) (recording : Bool) (executed : Nat)
    (entries : List TraceEntry) (steps : Nat) :
    (m.follow recording executed entries steps).machine.WellFormed := by
  induction steps generalizing m executed entries with
  | zero => exact hm
  | succ steps ih =>
    have hstep := step_wellFormed m hm
    rw [Machine.follow]
    split
    · next next i hnext =>
      rw [hnext] at hstep
      exact ih hstep _ _
    · next next fault hnext =>
      rw [hnext] at hstep
      exact hstep

/-- A reset leaves nothing of a machine whose memory has its full size. -/
theorem reset_eq_zero (hm : m.WellFormed) : m.reset = .zero := by
  rw [reset, Memory.clear, hm.2]
  rfl

end Machine

namespace Session

variable {session : Session}

theorem ok_of_mapError {α ε : Type} {read : Except ε α} {report : ε → Error} {value : α}
    (h : read.mapError report = .ok value) : read = .ok value := by
  cases read with
  | ok other =>
    cases h
    rfl
  | error error => cases h

theorem ok_of_map {α β ε : Type} {read : Except ε α} {put : α → β} {value : β}
    (h : read.map put = .ok value) : ∃ found, read = .ok found ∧ put found = value := by
  cases read with
  | ok found =>
    cases h
    exact ⟨found, rfl, rfl⟩
  | error error => cases h

theorem work_wellFormed {operation : InPlace Error Machine Unit}
    {change : Machine → Except Error Machine} (h : Performs operation change)
    (hm : session.machine.WellFormed)
    (hchange : ∀ m, change session.machine = .ok m → m.WellFormed) :
    (session.work operation).1.machine.WellFormed := by
  cases hresult : change session.machine with
  | ok m =>
    rw [work_of_ok h hresult]
    exact hchange m hresult
  | error error =>
    rw [work_of_error h hresult]
    exact hm

/-- Work on memory that keeps its size. -/
theorem work_inMemory_wellFormed {ε : Type} {operation : InPlace ε Memory Unit}
    {change : Memory → Except ε Memory} (h : Performs operation change) (report : ε → Error)
    (hm : session.machine.WellFormed)
    (hsize : ∀ memory, change session.machine.memory = .ok memory →
      memory.bytes.size = session.machine.memory.bytes.size) :
    (session.work ((Machine.inMemory operation).adaptExcept report)).1.machine.WellFormed := by
  apply work_wellFormed ((Machine.performs_inMemory h).adaptExcept report) hm
  intro m hresult
  obtain ⟨memory, hmemory, rfl⟩ := ok_of_map (ok_of_mapError hresult)
  exact hm.withMemory (hsize memory hmemory)

/-- Work that begins with a value from elsewhere. -/
theorem work_read_wellFormed {α ε : Type} {read : Except ε α} {report : ε → Error}
    {put : α → InPlace Error Machine Unit} {change : α → Machine → Except Error Machine}
    (hput : ∀ value, Performs (put value) (change value)) (hm : session.machine.WellFormed)
    (hvalue : ∀ value m, read = .ok value → change value session.machine = .ok m → m.WellFormed) :
    (session.work do put (← ofExcept (read.mapError report))).1.machine.WellFormed := by
  cases read with
  | ok value => exact work_wellFormed (hput value) hm fun m => hvalue value m rfl
  | error error =>
    apply work_wellFormed (performs_throw (report error)) hm
    intro m h
    cases h

/-- No command breaks a machine, whether or not it succeeds. -/
theorem perform_wellFormed (hm : session.machine.WellFormed) (command : Command) :
    (session.perform command).1.machine.WellFormed := by
  cases command with
  | set register value => exact hm.withRegisters (hm.1.set register value)
  | setNamed name value =>
    have h := (Machine.performs_inRegisters
      (Registers.performs_setNamed name value)).adaptExcept Error.register
    apply work_wellFormed h hm
    intro m hresult
    obtain ⟨registers, hset, rfl⟩ := ok_of_map (ok_of_mapError hresult)
    exact hm.withRegisters (Registers.inRange_of_setNamed hm.1 hset)
  | setConditionCode cc => exact hm.withRegisters (hm.1.set .sw cc.toWord)
  | resetRegisters => exact hm.withRegisters Machine.wellFormed_zero.1
  | writeByte address value =>
    exact work_inMemory_wellFormed (Memory.Access.performs_writeByte address value) _ hm
      fun _ hwrite => Memory.size_of_writeByte hwrite
  | writeWord address value =>
    exact work_inMemory_wellFormed (Memory.Access.performs_writeWord address value) _ hm
      fun _ hwrite => Memory.size_of_writeWord hwrite
  | loadWords start words =>
    exact work_inMemory_wellFormed (Memory.Access.performs_loadWords start words) _ hm
      fun _ hload => Memory.size_of_loadWords hload
  | loadProgram start words =>
    apply work_wellFormed ((Machine.performs_loadProgram start words).adaptExcept Error.memory) hm
    intro m hload
    exact hm.loadProgram (ok_of_mapError hload)
  | loadImage text =>
    apply work_read_wellFormed (fun image =>
      (Machine.performs_loadImage image).adaptExcept Error.memory) hm
    intro image m _ hload
    exact hm.loadImage (ok_of_mapError hload)
  | clear => exact hm.withMemory (Memory.size_clear session.machine.memory)
  | reset =>
    show session.machine.reset.WellFormed
    rw [Machine.reset_eq_zero hm]
    exact Machine.wellFormed_zero
  | renew => exact Machine.wellFormed_zero
  | step =>
    have hstep := Machine.step_wellFormed session.machine hm
    unfold perform
    simp only
    split <;> (next hnext => rw [hnext] at hstep; exact hstep)
  | run steps =>
    have hrun := Machine.run_wellFormed session.machine hm steps
    unfold perform
    simp only
    split <;> (next hnext => rw [hnext] at hrun; exact hrun)
  | trace steps => exact hm.follow true 0 [] steps
  | save =>
    simp only [perform]
    exact hm
  | restore | restoreMachine text =>
    apply work_read_wellFormed (fun _ => performs_set _) hm
    intro value m hread hset
    cases hset
    exact Machine.wellFormed_of_decode hread
  | restoreMemory text =>
    apply work_read_wellFormed (fun _ => Machine.performs_inMemory (performs_set _)) hm
    intro memory m hread hset
    cases hset
    exact hm.withMemory ((Memory.size_of_decode hread).trans hm.2.symm)
  | restoreRegisters text =>
    apply work_read_wellFormed (fun _ => Machine.performs_inRegisters (performs_set _)) hm
    intro registers m hread hset
    cases hset
    exact hm.withRegisters (Registers.inRange_of_decode hread)

end Session

/-! ### Every machine in use -/

/-- The machines that arise from a fresh one, or from parts that were read from any text, by any
commands in any order. The text that a session holds as its saved state is arbitrary, and so is an
image. -/
inductive Machine.Reachable : Machine → Prop
  | fresh : Reachable .zero
  | read {m : Machine} (text : String) (h : codec.decode text = .ok m) : Reachable m
  | readRegisters {registers : Registers} (text : String)
      (h : Registers.codec.decode text = .ok registers) : Reachable ⟨registers, .zero⟩
  | readMemory {memory : Memory} (text : String) (h : Memory.codec.decode text = .ok memory) :
      Reachable ⟨.zero, memory⟩
  | exchange {m other : Machine} (hm : Reachable m) (hother : Reachable other) :
      Reachable ⟨m.registers, other.memory⟩
  | command {session : Session} (hm : Reachable session.machine) (command : Session.Command) :
      Reachable (session.perform command).1.machine
  | image {m loaded : Machine} (hm : Reachable m) (image : Image)
      (h : m.loadImage image = .ok loaded) : Reachable loaded

namespace Machine

theorem Reachable.wellFormed {m : Machine} (h : Reachable m) : m.WellFormed := by
  induction h with
  | fresh => exact wellFormed_zero
  | read text h => exact wellFormed_of_decode h
  | readRegisters text h => exact ⟨Registers.inRange_of_decode h, Memory.size_zero⟩
  | readMemory text h => exact ⟨wellFormed_zero.1, Memory.size_of_decode h⟩
  | exchange hm hother ihm ihother => exact ⟨ihm.1, ihother.2⟩
  | command hm command ih => exact Session.perform_wellFormed ih command
  | image hm image h ih => exact ih.loadImage h

/-- A 24-bit index does not take an address of an instruction anywhere near 32 bits. -/
theorem effectiveAddress_exact {r : Registers} (hr : r.InRange) (i : Instruction) :
    r.effectiveAddress i.address.val i.indexed = i.address.val + i.indexBit * r.x ∧
      i.address.val + i.indexBit * r.x < wideLimit - 1 := by
  have haddress := i.address.isLt
  have hx := hr.2.1
  simp only [addressLimit, wordLimit] at haddress hx
  unfold Registers.effectiveAddress Instruction.indexBit
  cases i.indexed with
  | false =>
    simp only [wideLimit, if_false, Bool.false_eq_true]
    omega
  | true =>
    simp only [wideLimit, if_true]
    omega

/-- In every machine in use memory has its full size and every register holds a word. So an access
that passes its check stays inside memory, the next PC and the next count in X are 32-bit numbers,
the address of an operand is the exact sum, and a reset gives a fresh machine. -/
theorem Reachable.sound {m : Machine} (h : Reachable m) :
    m.memory.bytes.size = memorySize ∧ m.registers.InRange ∧
      (∀ address width offset : Nat, Memory.Fits address width → offset < width →
        address + offset < m.memory.bytes.size) ∧
      (∀ (start : Nat) (words : List Nat) (written : Memory),
        m.memory.loadWords start words = .ok written →
          ∀ offset < words.length * wordBytes, start + offset < m.memory.bytes.size) ∧
      m.registers.pc + wordBytes < wideLimit ∧ m.registers.advance.x + 1 < wideLimit ∧
      (∀ i : Instruction,
        m.registers.advance.effectiveAddress i.address.val i.indexed =
            i.address.val + i.indexBit * m.registers.x ∧
          i.address.val + i.indexBit * m.registers.x < wideLimit - 1) ∧
      m.reset = .zero := by
  have hm := h.wellFormed
  obtain ⟨hrange, hsize⟩ := hm
  have hadvance : m.registers.advance.InRange := hrange.set .pc _
  refine ⟨hsize, hrange, ?_, ?_, ?_, ?_, fun i => effectiveAddress_exact hadvance i,
    reset_eq_zero h.wellFormed⟩
  · intro address width offset hfits hoffset
    rw [hsize]
    simp only [Memory.Fits] at hfits
    omega
  · intro start words written hload offset hoffset
    have hfits := Memory.fits_of_loadWords hload (offset / wordBytes)
      (Nat.div_lt_of_lt_mul (by rwa [Nat.mul_comm]))
    rw [hsize]
    simp only [Memory.Fits, wordBytes] at hfits hoffset
    omega
  · have hpc := hrange.2.2.2.1
    simp only [wordLimit, wordBytes, wideLimit] at hpc ⊢
    omega
  · have hx := hadvance.2.1
    simp only [wordLimit, wideLimit] at hx ⊢
    omega

/-- Registers whose saved values are as wide as a saved value can be, before a step. -/
def readTooWide : Session := ⟨⟨⟨0xFFFFFF, 0xFFFFFF, 0, 3, 0⟩, .zero⟩, ""⟩

theorem decode_readTooWide :
    Registers.codec.decode "\x7b\"values\":[4294967295,4294967295,16777216,3,0]\x7d" =
      .ok readTooWide.machine.registers := by
  rfl

theorem readTooWide_sound :
    Reachable (readTooWide.perform .step).1.machine ∧
      (readTooWide.perform .step).1.machine.memory.bytes.size = 32768 ∧
      (readTooWide.perform .step).1.machine.registers.InRange ∧
      (readTooWide.perform .step).1.machine.reset = .zero := by
  have hread : Reachable readTooWide.machine := .readRegisters _ decode_readTooWide
  have hstep : Reachable (readTooWide.perform .step).1.machine := .command hread .step
  have hsound := Reachable.sound hstep
  obtain ⟨hsize, hrange, -, -, -, -, -, hreset⟩ := hsound
  exact ⟨hstep, hsize, hrange, hreset⟩

end Machine

end SicMachine
