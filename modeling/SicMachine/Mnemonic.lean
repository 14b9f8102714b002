import SicMachine.Text.UpperCase

/-!
The instruction set: 26 mnemonics, each with an opcode of its own.
-/
namespace SicMachine

inductive Mnemonic where
  | add
  | and
  | comp
  | div
  | j
  | jeq
  | jgt
  | jlt
  | jsub
  | lda
  | ldch
  | ldl
  | ldx
  | mul
  | or
  | rd
  | rsub
  | sta
  | stch
  | stl
  | stsw
  | stx
  | sub
  | td
  | tix
  | wd
  deriving DecidableEq, Repr

/-- A name that belongs to no instruction. -/
structure UnknownMnemonic where
  name : String
  deriving DecidableEq, Repr

def UnknownMnemonic.message (error : UnknownMnemonic) : String :=
  "unknown mnemonic: " ++ error.name

namespace Mnemonic

def all : List Mnemonic :=
  [add, and, comp, div, j, jeq, jgt, jlt, jsub, lda, ldch, ldl, ldx, mul, or, rd, rsub, sta, stch,
    stl, stsw, stx, sub, td, tix, wd]

def name : Mnemonic → String
  | add => "ADD"
  | and => "AND"
  | comp => "COMP"
  | div => "DIV"
  | j => "J"
  | jeq => "JEQ"
  | jgt => "JGT"
  | jlt => "JLT"
  | jsub => "JSUB"
  | lda => "LDA"
  | ldch => "LDCH"
  | ldl => "LDL"
  | ldx => "LDX"
  | mul => "MUL"
  | or => "OR"
  | rd => "RD"
  | rsub => "RSUB"
  | sta => "STA"
  | stch => "STCH"
  | stl => "STL"
  | stsw => "STSW"
  | stx => "STX"
  | sub => "SUB"
  | td => "TD"
  | tix => "TIX"
  | wd => "WD"

def opcode : Mnemonic → UInt8
  | add => 0x18
  | and => 0x40
  | comp => 0x28
  | div => 0x24
  | j => 0x3C
  | jeq => 0x30
  | jgt => 0x34
  | jlt => 0x38
  | jsub => 0x48
  | lda => 0x00
  | ldch => 0x50
  | ldl => 0x08
  | ldx => 0x04
  | mul => 0x20
  | or => 0x44
  | rd => 0xD8
  | rsub => 0x4C
  | sta => 0x0C
  | stch => 0x54
  | stl => 0x14
  | stsw => 0xE8
  | stx => 0x10
  | sub => 0x1C
  | td => 0xE0
  | tix => 0x2C
  | wd => 0xDC

/-- The mnemonic of an opcode, if the instruction set has it. -/
def ofOpcode? (opcode : UInt8) : Option Mnemonic :=
  match opcode.toNat with
  | 0x00 => some lda
  | 0x04 => some ldx
  | 0x08 => some ldl
  | 0x0C => some sta
  | 0x10 => some stx
  | 0x14 => some stl
  | 0x18 => some add
  | 0x1C => some sub
  | 0x20 => some mul
  | 0x24 => some div
  | 0x28 => some comp
  | 0x2C => some tix
  | 0x30 => some jeq
  | 0x34 => some jgt
  | 0x38 => some jlt
  | 0x3C => some j
  | 0x40 => some and
  | 0x44 => some or
  | 0x48 => some jsub
  | 0x4C => some rsub
  | 0x50 => some ldch
  | 0x54 => some stch
  | 0xD8 => some rd
  | 0xDC => some wd
  | 0xE0 => some td
  | 0xE8 => some stsw
  | _ => none

theorem ofOpcode?_opcode (m : Mnemonic) : ofOpcode? m.opcode = some m := by
  cases m <;> rfl

theorem opcode_of_ofOpcode? {opcode : UInt8} {m : Mnemonic} (h : ofOpcode? opcode = some m) :
    m.opcode = opcode := by
  apply UInt8.toNat_inj.1
  simp only [ofOpcode?] at h
  split at h <;> cases h <;> (symm; assumption)

theorem ofOpcode?_eq_some_iff {opcode : UInt8} {m : Mnemonic} :
    ofOpcode? opcode = some m ↔ m.opcode = opcode :=
  ⟨opcode_of_ofOpcode?, fun h => h ▸ ofOpcode?_opcode m⟩

theorem opcode_injective {m n : Mnemonic} (h : m.opcode = n.opcode) : m = n :=
  Option.some.inj ((ofOpcode?_opcode m).symm.trans (ofOpcode?_eq_some_iff.2 h.symm))

/-- The mnemonic of that name, whatever its case. -/
def ofName? (s : String) : Option Mnemonic :=
  let upper := Text.upperCase s
  all.find? fun m => m.name == upper

theorem ofName?_eq_some_iff {s : String} {m : Mnemonic} :
    ofName? s = some m ↔ m.name = Text.upperCase s := by
  constructor
  · intro h
    have hname := List.find?_some h
    exact eq_of_beq hname
  · intro h
    unfold ofName?
    rw [← h]
    cases m <;> rfl

/-- The opcode of the mnemonic of that name. -/
def opcodeOf (s : String) : Except UnknownMnemonic UInt8 :=
  match ofName? s with
  | some m => .ok m.opcode
  | none => .error ⟨s⟩

end Mnemonic

end SicMachine
