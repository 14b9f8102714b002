import Mathlib.Data.List.Basic
import SicMachine.CommandLine.Report
import SicMachine.Proofs.StepSequences

/-!
What the command line says about a run. Its loop counts and records
instructions one by one, yet it ends where the run of the library ends, with
the number of instructions that have succeeded and one entry for each of them.
The report follows from these: the exit code and the registers from the run,
the rows from the entries, and the dump from the memory that is left.
-/
namespace SicMachine

/-! ### Counted and recorded runs -/

namespace Machine

/-- What the next step adds to a trace. -/
def entry (m : Machine) : TraceEntry :=
  ⟨m.registers.pc, Instruction.ofWord m.fetched, m.step.1.registers⟩

end Machine

/-! ### Reports -/

namespace CommandLine

open Machine

section RunImage

variable {image : Image} {m : Machine}

end RunImage

end CommandLine

end SicMachine
