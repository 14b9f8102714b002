import SicMachine.Machine.Execution
import SicMachine.Disassembly

/-!
Runs that are counted and, if asked for, recorded. Recording does not change
what is executed.
-/
namespace SicMachine

/-- An executed instruction, the PC from which it was fetched, and the registers after it. -/
structure TraceEntry where
  pc : Nat
  instruction : Instruction
  registers : Registers
  deriving DecidableEq

namespace TraceEntry

def address (entry : TraceEntry) : String := Text.hex 6 entry.pc ++ ": "

def disassembly (entry : TraceEntry) : String := Disassembly.ofWord entry.instruction.word

/-- The entry with its parts in columns. -/
def row (entry : TraceEntry) : String :=
  entry.address ++ Text.padRight 20 entry.disassembly ++ " " ++ entry.registers.text

/-- The entry with a bar before the registers. -/
def summary (entry : TraceEntry) : String :=
  entry.address ++ entry.disassembly ++ " | " ++ entry.registers.text

end TraceEntry

/-- How a run ended. -/
structure Trace where
  machine : Machine
  executed : Nat
  /-- The executed instructions in order, if they were recorded. -/
  entries : List TraceEntry
  /-- The failed step, if there was one: PC before it, and why it failed. -/
  fault : Option (Nat × Fault)
  deriving DecidableEq

namespace Machine

/-- Executes up to as many instructions as given, after those already counted and recorded, last
first. -/
def follow (recording : Bool) (executed : Nat) (entries : List TraceEntry) :
    Machine → Nat → Trace
  | m, 0 => ⟨m, executed, entries.reverse, none⟩
  | m, steps + 1 =>
    let pc := m.registers.pc
    match m.step with
    | (next, .ok i) =>
      follow recording (executed + 1)
        (if recording then ⟨pc, i, next.registers⟩ :: entries else entries) next steps
    | (next, .error fault) => ⟨next, executed, entries.reverse, some (pc, fault)⟩

/-- Executes up to `steps` instructions. -/
def trace (m : Machine) (recording : Bool) (steps : Nat) : Trace := follow recording 0 [] m steps

end Machine

end SicMachine
