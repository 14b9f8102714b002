import SicMachine.Machine.InPlace
import SicMachine.Instruction
import SicMachine.Mnemonic

/-!
Executing instructions. A step fetches the word at PC, moves PC on to the next
word, and executes the instruction on registers and memory in place. It stops
where something fails, and what has been changed until then stays changed.
-/
namespace SicMachine

/-- Why a step can fail. -/
inductive Fault where
  | memory (error : Memory.Error)
  | invalidWord (error : InvalidWord)
  /-- The opcode at this address belongs to no instruction that can be executed. -/
  | unimplementedOpcode (opcode : UInt8) (address : Nat)
  /-- The instruction at this address divides by zero. -/
  | divisionByZero (address : Nat)
  deriving DecidableEq

def Fault.message : Fault → String
  | .memory error => "memory error: " ++ error.message
  | .invalidWord error => "decode error: " ++ error.message
  | .unimplementedOpcode opcode address =>
    "unimplemented opcode " ++ Text.marked 2 opcode.toNat ++ " at " ++ Text.marked 4 address
  | .divisionByZero address => "division by zero at " ++ Text.marked 4 address

namespace Machine

/-- The instruction at PC. -/
def fetch (m : Machine) : Except Fault Instruction :=
  match m.memory.readWord m.registers.pc with
  | .ok word => (Instruction.decode word).mapError .invalidWord
  | .error error => .error (.memory error)

end Machine

/-- A piece of work of the processor, which works on a machine in place. -/
abbrev Processor := InPlace Fault Machine

namespace Processor

/-! ### Registers and memory -/

def register (read : Register) : Processor Nat := return (← get).registers.get read

def setRegister (written : Register) (value : Nat) : Processor Unit :=
  Machine.inRegisters (modify fun registers => registers.set written value)

def setConditionCode (cc : ConditionCode) : Processor Unit := setRegister .sw cc.toWord

def readByte (address : Nat) : Processor UInt8 := do
  ofExcept (((← get).memory.readByte address).mapError .memory)

def readWord (address : Nat) : Processor Nat := do
  ofExcept (((← get).memory.readWord address).mapError .memory)

def writeByte (address value : Nat) : Processor Unit :=
  (Machine.inMemory (Memory.Access.writeByte address value)).adaptExcept .memory

def writeWord (address value : Nat) : Processor Unit :=
  (Machine.inMemory (Memory.Access.writeWord address value)).adaptExcept .memory

/-! ### What instructions do -/

/-- Loads a word into a register. -/
def load (written : Register) (address : Nat) : Processor Unit := do
  let value ← readWord address
  setRegister written value

/-- Stores a register as a word. -/
def store (read : Register) (address : Nat) : Processor Unit := do
  writeWord address (← register read)

/-- Puts a byte into the low eight bits of A. -/
def loadByte (address : Nat) : Processor Unit := do
  let byte ← readByte address
  let a ← register .a
  setRegister .a (Word.withLowByte a byte)

/-- Stores the low eight bits of A. -/
def storeByte (address : Nat) : Processor Unit := do
  writeByte address (← register .a)

/-- Calculates with A and a word; A takes the result. -/
def calculate (operation : Nat → Nat → Nat) (address : Nat) : Processor Unit := do
  let operand ← readWord address
  let a ← register .a
  setRegister .a (operation a operand)

/-- Divides A by a word. The instruction at `origin` is reported when the word is zero. -/
def divide (origin address : Nat) : Processor Unit := do
  let divisor ← readWord address
  if divisor = 0 then throw (.divisionByZero origin)
  else do
    let a ← register .a
    setRegister .a (a / divisor)

/-- Compares A with a word. -/
def compare (address : Nat) : Processor Unit := do
  let operand ← readWord address
  setConditionCode (ConditionCode.compare (← register .a) operand)

/-- Counts X up and compares it with a word. X is read again once it has been written, so it is
compared as it wraps around. -/
def countUp (address : Nat) : Processor Unit := do
  let operand ← readWord address
  let x ← register .x
  setRegister .x (x + 1)
  setConditionCode (ConditionCode.compare (← register .x) operand)

def jump (address : Nat) : Processor Unit := setRegister .pc address

/-- Jumps when the last comparison came out as given. -/
def jumpIf (cc : ConditionCode) (address : Nat) : Processor Unit := do
  if (← get).registers.conditionCode? = some cc then jump address else pure ()

/-- Jumps and keeps the way back in L. -/
def jumpToSubroutine (address : Nat) : Processor Unit := do
  let back ← register .pc
  setRegister .l back
  jump address

def returnFromSubroutine : Processor Unit := do
  let back ← register .l
  jump back

/-- Executes the instruction with this opcode. It stands at `origin`, and its address field has
been resolved to `address`. There are no devices, so their instructions are as unknown as others. -/
def dispatch (opcode : UInt8) (origin address : Nat) : Processor Unit :=
  match Mnemonic.ofOpcode? opcode with
  | some .lda => load .a address
  | some .ldx => load .x address
  | some .ldl => load .l address
  | some .sta => store .a address
  | some .stx => store .x address
  | some .stl => store .l address
  | some .stsw => store .sw address
  | some .ldch => loadByte address
  | some .stch => storeByte address
  | some .add => calculate Wide.sum address
  | some .sub => calculate Wide.difference address
  | some .mul => calculate Wide.product address
  | some .div => divide origin address
  | some .and => calculate Nat.land address
  | some .or => calculate Nat.lor address
  | some .comp => compare address
  | some .tix => countUp address
  | some .j => jump address
  | some .jeq => jumpIf .equal address
  | some .jgt => jumpIf .greater address
  | some .jlt => jumpIf .less address
  | some .jsub => jumpToSubroutine address
  | some .rsub => returnFromSubroutine
  | some .rd | some .td | some .wd | none => throw (.unimplementedOpcode opcode origin)

/-- Executes an instruction from `origin`; PC has already been moved on. -/
def execute (i : Instruction) (origin : Nat) : Processor Unit := do
  let address := (← get).registers.effectiveAddress i.address.val i.indexed
  dispatch i.opcode origin address

/-- Executes one instruction and returns it. -/
def step : Processor Instruction := do
  let pc ← register .pc
  let i ← ofExcept (← get).fetch
  setRegister .pc (pc + wordBytes)
  execute i pc
  return i

end Processor

namespace Machine

/-- Executes one instruction and returns it. -/
def step (m : Machine) : Machine × Except Fault Instruction := Processor.step.on m

/-- Executes instructions one after the other, up to the first that fails. -/
def run : Machine → Nat → Machine × Except Fault Unit
  | m, 0 => (m, .ok ())
  | m, steps + 1 =>
    match m.step with
    | (next, .ok _) => next.run steps
    | (next, .error fault) => (next, .error fault)

end Machine

end SicMachine
