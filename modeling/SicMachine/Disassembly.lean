import SicMachine.Instruction
import SicMachine.Mnemonic

/-!
Words written back as assembly text. A word whose opcode has no mnemonic is
listed as a constant, and a number too wide for a word is only marked. A
listing ends early when its addresses leave 32 bits.
-/
namespace SicMachine.Disassembly

/-- The text of a decoded instruction. -/
def ofInstruction (i : Instruction) : String :=
  match Mnemonic.ofOpcode? i.opcode with
  | some .rsub => Mnemonic.rsub.name
  | some mnemonic =>
    mnemonic.name ++ " " ++ Text.marked 4 i.address.val ++ (if i.indexed then ",X" else "")
  | none => "WORD " ++ Text.marked 6 i.word

def ofWord (word : Nat) : String :=
  match Instruction.decode word with
  | .ok i => ofInstruction i
  | .error error => "??? ; " ++ Text.marked 0 error.word

theorem ofWord_of_wide {word : Nat} (h : wordLimit ≤ word) :
    ofWord word = "??? ; " ++ Text.marked 0 word := by
  rw [ofWord, Instruction.decode, if_neg (Nat.not_lt.2 h)]

/-- One line: the address, the text and the word. -/
def row (address word : Nat) : String :=
  Text.hex 6 address ++ ": " ++ Text.padRight 20 (ofWord word) ++ " ; " ++ Text.hex 6 word

/-- The lines of consecutive words from an address on. -/
def rows : Nat → List Nat → List String
  | _, [] => []
  | address, word :: rest =>
    if address < wideLimit then row address word :: rows (address + wordBytes) rest
    else ["; address overflow, listing truncated"]

def header : List String := ["; SIC Disassembly", "; ---------------", ""]

/-- The listing of consecutive words, each line ended by a line feed. -/
def listing (start : Nat) (words : List Nat) : String :=
  String.join ((header ++ rows start words).map (· ++ "\n"))

end SicMachine.Disassembly
