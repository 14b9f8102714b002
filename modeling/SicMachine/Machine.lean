import SicMachine.Register
import SicMachine.Memory

/-!
A machine is its registers and its memory. In a well-formed machine every
register holds a word and memory has its full size; every operation of the
library keeps it so.
-/
namespace SicMachine

structure Machine where
  registers : Registers
  memory : Memory
  deriving DecidableEq

namespace Machine

/-- A machine after power-up. -/
def zero : Machine := ⟨.zero, .zero⟩

def WellFormed (m : Machine) : Prop :=
  m.registers.InRange ∧ m.memory.bytes.size = memorySize

instance (m : Machine) : Decidable m.WellFormed := by unfold WellFormed; infer_instance

/-- The machine with other registers. -/
def withRegisters (m : Machine) (registers : Registers) : Machine := { m with registers }

/-- The machine with another memory. -/
def withMemory (m : Machine) (memory : Memory) : Machine := { m with memory }

/-- Registers and memory back at zero. -/
def reset (m : Machine) : Machine := ⟨.zero, m.memory.clear⟩

/-- Writes consecutive words to memory and leaves the registers alone. -/
def loadProgram (m : Machine) (start : Nat) (words : List Nat) : Except Memory.Error Machine :=
  (m.memory.loadWords start words).map m.withMemory

/-- The machine as a named record. -/
def recordText (m : Machine) : String :=
  "Machine \x7b registers: " ++ m.registers.recordText ++ ", memory: " ++ m.memory.recordText ++
    " \x7d"

/-- The record of the processor, which works on the registers and the memory of the machine. -/
def cpuText (m : Machine) : String :=
  "Cpu \x7b regs: " ++ m.registers.recordText ++ ", mem: " ++ m.memory.recordText ++ " \x7d"

end Machine

end SicMachine
