import SicMachine.InPlace
import SicMachine.Machine

/-!
Memory, registers and machines changed in place. A word is written byte by
byte once its place has been checked, and words are loaded one by one once
their whole span has been checked. So a write that is refused has changed
nothing, and none is refused behind one that has been carried out.
-/
namespace SicMachine

open InPlace

namespace Memory

/-- An operation that works on memory in place. -/
abbrev Access := InPlace Error Memory

namespace Access

/-- Goes on only if `width` bytes from an address on lie inside memory. -/
def check (address width : Nat) : Access Unit :=
  if Fits address width then pure () else throw (.outOfBounds address width)

def putByte (address : Nat) (byte : UInt8) : Access Unit :=
  modify fun memory => memory.putByte address byte

def writeByte (address value : Nat) : Access Unit := do
  check address 1
  putByte address (UInt8.ofNat value)

def writeWord (address value : Nat) : Access Unit := do
  check address wordBytes
  putByte address (Word.highByte value)
  putByte (address + 1) (Word.middleByte value)
  putByte (address + 2) (Word.lowByte value)

/-- Writes words one after the other, up to the first that is refused. -/
def writeWords (address : Nat) : List Nat → Access Unit
  | [] => pure ()
  | value :: rest => do
    writeWord address value
    writeWords (address + wordBytes) rest

def loadWords (start : Nat) (words : List Nat) : Access Unit :=
  let size := words.length * wordBytes
  let available := memorySize - start
  if available < size then throw (.programTooLarge size available)
  else writeWords start words

variable {address : Nat}

theorem reads_check (address width : Nat) :
    Reads (check address width) fun _ =>
      if Fits address width then .ok () else .error (.outOfBounds address width) := by
  intro memory
  unfold check
  split <;> rfl

/-- What cannot fail itself fails only by the check in front of it. -/
theorem performs_checked {operation : Access Unit} {change : Memory → Memory}
    (h : Performs operation fun memory => .ok (change memory)) (address width : Nat) :
    Performs (check address width >>= fun _ => operation) fun memory =>
      if Fits address width then .ok (change memory)
      else .error (.outOfBounds address width) := by
  apply (Performs.after (reads_check address width) fun _ => h).congr
  intro memory
  split <;> rfl

theorem performs_writeByte (address value : Nat) :
    Performs (writeByte address value) fun memory => memory.writeByte address value :=
  performs_checked (performs_modify _) address 1

theorem performs_writeWord (address value : Nat) :
    Performs (writeWord address value) fun memory => memory.writeWord address value := by
  have hbytes : Performs (do
      putByte address (Word.highByte value)
      putByte (address + 1) (Word.middleByte value)
      putByte (address + 2) (Word.lowByte value)) fun memory =>
        .ok (memory.putWord address value) := fun _ => rfl
  exact performs_checked hbytes address wordBytes

/-- Where all words have room, each of them is written. The induction is on the words. -/
theorem on_writeWords_of_fits (memory : Memory) {words : List Nat}
    (h : words.length * wordBytes ≤ memorySize - address) :
    (writeWords address words).on memory = (memory.putWords address words, .ok ()) := by
  induction words generalizing memory address with
  | nil => rfl
  | cons word rest ih =>
    rw [List.length_cons] at h
    have hfits : Fits address wordBytes := by
      simp only [Fits, wordBytes, memorySize] at h ⊢
      omega
    have hrest : rest.length * wordBytes ≤ memorySize - (address + wordBytes) := by
      simp only [wordBytes, memorySize] at h ⊢
      omega
    have hword : (writeWord address word).on memory = (memory.putWord address word, .ok ()) :=
      (performs_writeWord address word).on_of_ok (writeWord_of_fits memory hfits word)
    rw [writeWords, on_bind_of_ok hword, ih _ hrest, putWords]

/-- The words are written one by one, but once the first is written, so are all others. -/
theorem performs_loadWords (start : Nat) (words : List Nat) :
    Performs (loadWords start words) fun memory => memory.loadWords start words := by
  intro memory
  show _ = settle memory (memory.loadWords start words)
  unfold loadWords Memory.loadWords
  by_cases h : words.length * wordBytes ≤ memorySize - start
  · simp only [h, Nat.not_lt.2 h, if_true, if_false]
    exact on_writeWords_of_fits memory h
  · simp only [h, Nat.not_le.1 h, if_true, if_false]
    rfl

end Access

end Memory

/-- Writes a register that is given by its name. -/
def Registers.setNamedInPlace (name : String) (value : Nat) :
    InPlace UnknownRegister Registers Unit :=
  match Register.ofName? name with
  | some register => modify fun r => r.set register value
  | none => throw ⟨name⟩

theorem Registers.performs_setNamed (name : String) (value : Nat) :
    Performs (setNamedInPlace name value) fun r => r.setNamed name value := by
  unfold setNamedInPlace setNamed
  cases Register.ofName? name with
  | some register => exact performs_modify _
  | none => exact performs_throw _

namespace Machine

variable {ε α : Type}

/-- Works on the memory of a machine. -/
def inMemory (operation : InPlace ε Memory α) : InPlace ε Machine α :=
  within (fun ⟨registers, memory⟩ => (memory, fun memory => ⟨registers, memory⟩)) operation

/-- Works on the registers of a machine. -/
def inRegisters (operation : InPlace ε Registers α) : InPlace ε Machine α :=
  within (fun ⟨registers, memory⟩ => (registers, fun registers => ⟨registers, memory⟩)) operation

theorem performs_inMemory {operation : InPlace ε Memory Unit} {change : Memory → Except ε Memory}
    (h : Performs operation change) :
    Performs (inMemory operation) fun m => (change m.memory).map m.withMemory :=
  Performs.within (fun _ => rfl) h

theorem performs_inRegisters {operation : InPlace ε Registers Unit}
    {change : Registers → Except ε Registers} (h : Performs operation change) :
    Performs (inRegisters operation) fun m => (change m.registers).map m.withRegisters :=
  Performs.within (fun _ => rfl) h

/-- An operation that loads a machine in place. -/
abbrev Loader := InPlace Memory.Error Machine

def Loader.loadProgram (start : Nat) (words : List Nat) : Loader Unit :=
  inMemory (Memory.Access.loadWords start words)

theorem performs_loadProgram (start : Nat) (words : List Nat) :
    Performs (Loader.loadProgram start words) fun m => m.loadProgram start words :=
  performs_inMemory (Memory.Access.performs_loadWords start words)

end Machine

end SicMachine
