import SicMachine.Machine.Trace
import SicMachine.Snapshot

/-!
A machine in use: it is changed by commands, one after the other, and its
state can be saved as text and brought back. Commands work on the machine in
place, and one that fails reports why.
-/
namespace SicMachine

structure Session where
  machine : Machine
  /-- The text of the state saved last; before the first time it is empty and cannot be read. -/
  saved : String

namespace Session

def initial : Session := ⟨.zero, ""⟩

inductive Command where
  | set (register : Register) (value : Nat)
  | setNamed (name : String) (value : Nat)
  | setConditionCode (cc : ConditionCode)
  | resetRegisters
  | writeByte (address value : Nat)
  | writeWord (address value : Nat)
  | loadWords (start : Nat) (words : List Nat)
  | loadProgram (start : Nat) (words : List Nat)
  | loadImage (text : String)
  | clear
  | reset
  /-- Replaces the machine by a fresh one. -/
  | renew
  | step
  | run (steps : Nat)
  | trace (steps : Nat)
  | save
  | restore
  | restoreMachine (text : String)
  | restoreMemory (text : String)
  | restoreRegisters (text : String)

inductive Error where
  | register (error : UnknownRegister)
  | memory (error : Memory.Error)
  | fault (fault : Fault)
  | json (failure : Json.Failure)
  /-- The text of an image cannot be read. -/
  | image (failure : Json.Failure)
  deriving DecidableEq

inductive Reply where
  | done
  | failed (error : Error)
  | executed (instruction : Instruction)
  | traced (entries : List TraceEntry) (fault : Option Fault)
  /-- The bytes of the saved text. -/
  | saved (size : Nat)

/-- Works on the machine in place and reports how that went. -/
def work (session : Session) (operation : InPlace Error Machine Unit) : Session × Reply :=
  match operation.on session.machine with
  | (machine, .ok ()) => ({ session with machine }, .done)
  | (machine, .error error) => ({ session with machine }, .failed error)

section

variable {session : Session} {ε : Type}

theorem work_of_ok {operation : InPlace Error Machine Unit}
    {change : Machine → Except Error Machine}
    (h : operation.Performs change) {m : Machine} (hchange : change session.machine = .ok m) :
    session.work operation = ({ session with machine := m }, .done) := by
  rw [work, h.on_of_ok hchange]

theorem work_of_error {operation : InPlace Error Machine Unit}
    {change : Machine → Except Error Machine} (h : operation.Performs change) {error : Error}
    (hchange : change session.machine = .error error) :
    session.work operation = (session, .failed error) := by
  rw [work, h.on_of_error hchange]

theorem work_inMemory_of_ok {operation : InPlace ε Memory Unit} {change : Memory → Except ε Memory}
    (h : operation.Performs change) (report : ε → Error) {memory : Memory}
    (hchange : change session.machine.memory = .ok memory) :
    session.work ((Machine.inMemory operation).adaptExcept report) =
      ({ session with machine := session.machine.withMemory memory }, .done) := by
  apply work_of_ok ((Machine.performs_inMemory h).adaptExcept report)
  rw [hchange]
  rfl

theorem work_inMemory_of_error {operation : InPlace ε Memory Unit}
    {change : Memory → Except ε Memory} (h : operation.Performs change) (report : ε → Error)
    {error : ε} (hchange : change session.machine.memory = .error error) :
    session.work ((Machine.inMemory operation).adaptExcept report) =
      (session, .failed (report error)) := by
  apply work_of_error ((Machine.performs_inMemory h).adaptExcept report)
  rw [hchange]
  rfl

end

/-- The machine that a text stands for. -/
def restored (text : String) : Except Error Machine := (Machine.codec.decode text).mapError .json

open Machine in
def perform (session : Session) : Command → Session × Reply
  | .set register value => session.work (inRegisters (modify fun r => r.set register value))
  | .setNamed name value =>
    session.work ((inRegisters (Registers.setNamedInPlace name value)).adaptExcept .register)
  | .setConditionCode cc => session.work (inRegisters (modify fun r => r.setConditionCode cc))
  | .resetRegisters => session.work (inRegisters (set Registers.zero))
  | .writeByte address value =>
    session.work ((inMemory (Memory.Access.writeByte address value)).adaptExcept .memory)
  | .writeWord address value =>
    session.work ((inMemory (Memory.Access.writeWord address value)).adaptExcept .memory)
  | .loadWords start words =>
    session.work ((inMemory (Memory.Access.loadWords start words)).adaptExcept .memory)
  | .loadProgram start words =>
    session.work ((Loader.loadProgram start words).adaptExcept .memory)
  | .loadImage text => session.work do
    let image ← ofExcept ((Image.ofJson text).mapError .image)
    (Loader.loadImage image).adaptExcept .memory
  | .clear => session.work (inMemory (modify Memory.clear))
  | .reset => session.work do
    inRegisters (set Registers.zero)
    inMemory (modify Memory.clear)
  | .renew => session.work (set Machine.zero)
  | .step =>
    match session.machine.step with
    | (machine, .ok instruction) => ({ session with machine }, .executed instruction)
    | (machine, .error fault) => ({ session with machine }, .failed (.fault fault))
  | .run steps =>
    match session.machine.run steps with
    | (machine, .ok ()) => ({ session with machine }, .done)
    | (machine, .error fault) => ({ session with machine }, .failed (.fault fault))
  | .trace steps =>
    let trace := session.machine.trace true steps
    ({ session with machine := trace.machine }, .traced trace.entries (trace.fault.map Prod.snd))
  | .save =>
    let text := Machine.codec.encode session.machine
    ({ session with saved := text }, .saved text.utf8ByteSize)
  | .restore => session.work do set (← ofExcept (restored session.saved))
  | .restoreMachine text => session.work do set (← ofExcept (restored text))
  | .restoreMemory text => session.work do
    let memory ← ofExcept ((Memory.codec.decode text).mapError .json)
    inMemory (set memory)
  | .restoreRegisters text => session.work do
    let registers ← ofExcept ((Registers.codec.decode text).mapError .json)
    inRegisters (set registers)

/-- Whether the machine is in the state that was saved last. -/
def isSaved (session : Session) : Except Error Bool :=
  (restored session.saved).map fun machine => machine == session.machine

/-- The bytes that differ below an address, before the runs already found above it. -/
def changesBelow (before after : Memory) :
    Nat → List (Nat × List UInt8) → List (Nat × List UInt8)
  | 0, runs => runs
  | address + 1, runs =>
    if before.byte address = after.byte address then changesBelow before after address runs
    else
      changesBelow before after address <|
        match runs with
        | [] => [(address, [after.byte address])]
        | (start, bytes) :: rest =>
          if start = address + 1 then (address, after.byte address :: bytes) :: rest
          else (address, [after.byte address]) :: (start, bytes) :: rest

/-- What is new in memory, as runs of changed bytes that are as long as possible. -/
def changes (before after : Memory) : List (Nat × List UInt8) :=
  changesBelow before after (max before.bytes.size after.bytes.size) []

end Session

end SicMachine
