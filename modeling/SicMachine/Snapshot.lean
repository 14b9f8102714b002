import SicMachine.Image
import SicMachine.Instruction
import SicMachine.PassOne

/-!
How the state of the machine and the results of an assembly are kept as JSON.
Register values are wrapped when they are read, and memory must have exactly
its size.
-/
namespace SicMachine

open Json

def Register.variantName : Register → String
  | .a => "A"
  | .x => "X"
  | .l => "L"
  | .pc => "Pc"
  | .sw => "Sw"

def Register.codec : Codec Register := .ofVariants Register.variantName Register.all

def ConditionCode.codec : Codec ConditionCode := .ofVariants ConditionCode.name ConditionCode.all

/-- An instruction is kept as its word. -/
def Instruction.codec : Codec Instruction where
  tokens i := [Token.ofNat i.word]
  reader := .ofScalar fun token =>
    match Reader.wide token with
    | .error failure => .error failure
    | .ok word =>
      (Instruction.decode word).mapError fun error => .mismatch (.refused error.message)

namespace Registers

/-- Registers with the low 24 bits of these values. -/
def ofValues (values : List Nat) : Registers where
  a := wrap (values.getD 0 0)
  x := wrap (values.getD 1 0)
  l := wrap (values.getD 2 0)
  pc := wrap (values.getD 3 0)
  sw := wrap (values.getD 4 0)

def tokens (r : Registers) : List Token :=
  objectTokens [("values", arrayTokens (r.toList.map fun value => [Token.ofNat value]))]

def record : Record Registers where
  name := "RegisterSnapshot"
  blank := .zero
  fields := [.of "values" .required (.fixedArray Reader.wide 5) fun _ values => .ofValues values]

def codec : Codec Registers := ⟨tokens, record.reader⟩

end Registers

namespace Memory

def tokens (memory : Memory) : List Token :=
  objectTokens
    [("bytes", arrayTokens (memory.bytes.toList.map fun byte => [Token.ofNat byte.toNat]))]

def record : Record (List UInt8) where
  name := "MemorySnapshot"
  blank := []
  fields := [.of "bytes" .required (.array Reader.byte) fun _ bytes => bytes]

/-- The size is looked at when the whole snapshot has been read. -/
def reader : Reader Memory := fun tokens =>
  match record.reader tokens with
  | .error failure => .error failure
  | .ok (bytes, rest) =>
    match ofBytes bytes with
    | .ok memory => .ok (memory, rest)
    | .error error => .error (.mismatch (.refused error.message))

def codec : Codec Memory := ⟨tokens, reader⟩

end Memory

namespace Machine

def tokens (m : Machine) : List Token :=
  objectTokens [("registers", m.registers.tokens), ("memory", m.memory.tokens)]

def record : Record Machine where
  name := "Machine"
  blank := .zero
  fields := [
    .of "registers" .required Registers.record.reader fun m registers => { m with registers },
    .of "memory" .required Memory.reader fun m memory => { m with memory }]

def codec : Codec Machine := ⟨tokens, record.reader⟩

end Machine

namespace PassOne.Summary

def tokens (summary : Summary) : List Token :=
  objectTokens [
    ("program_name", optionalTokens (fun name => [Token.ofString name]) summary.programName),
    ("start_address", [Token.ofNat summary.startAddress]),
    ("program_length", [Token.ofNat summary.programLength]),
    ("execution_start_address", [Token.ofNat summary.executionStart])]

def record : Record Summary where
  name := "PassOneResult"
  blank := ⟨none, 0, 0, 0⟩
  fields := [
    .of "program_name" .nullable (.ofScalar (Reader.optional Reader.string))
      fun summary programName => { summary with programName },
    .of "start_address" .required (.ofScalar Reader.wide) fun summary startAddress =>
      { summary with startAddress },
    .of "program_length" .required (.ofScalar Reader.wide) fun summary programLength =>
      { summary with programLength },
    .of "execution_start_address" .required (.ofScalar Reader.wide) fun summary executionStart =>
      { summary with executionStart }]

def codec : Codec Summary := ⟨tokens, record.reader⟩

end PassOne.Summary

end SicMachine
