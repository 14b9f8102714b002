import SicMachine.Directive
import SicMachine.Mnemonic
import SicMachine.Text.Blank

/-!
One line of assembly source: a label, a mnemonic and an operand, separated by
white space, then a comment. A line that begins with white space has no label,
and neither has one whose first field is a mnemonic or a directive. A quoted
operand may hold blanks and ends at its closing quote.
-/
namespace SicMachine

structure Statement where
  label : Option String
  mnemonic : Option String
  operand : Option String
  deriving DecidableEq, Repr

namespace Statement

open Text

def trimFront (text : List Char) : List Char := text.dropWhile isBlank

/-- The first field of a text and what follows the white space behind it. -/
def splitField (text : List Char) : List Char × List Char :=
  let text := trimFront text
  (text.takeWhile (!isBlank ·), trimFront (text.dropWhile (!isBlank ·)))

/-- Whether a field is a mnemonic or the name of a directive. -/
def isKeyword (field : String) : Bool :=
  (Mnemonic.ofName? field).isSome || (Directive.ofName? field).isSome

/-- An operand whose second character is a quote reaches up to the next quote, if there is one and
the first character is an ASCII character. -/
def quotedOperand? : List Char → Option (List Char)
  | kind :: '\'' :: rest =>
    if kind.toNat < 0x80 ∧ '\'' ∈ rest then
      some (kind :: '\'' :: rest.takeWhile (· ≠ '\'') ++ ['\''])
    else none
  | _ => none

/-- The operand at the front of what follows the mnemonic. -/
def operandField (text : List Char) : Option (List Char) :=
  match trimFront text with
  | [] => none
  | text => (quotedOperand? text).orElse fun _ => some (splitField text).1

/-- The mnemonic and the operand of what follows the label. -/
def ofFields (label : Option String) (text : List Char) : Statement :=
  let (mnemonic, rest) := splitField text
  { label
    mnemonic := if mnemonic.isEmpty then none else some (String.ofList mnemonic)
    operand := (operandField rest).map String.ofList }

/-- Blank lines and lines that begin with a period hold no statement. -/
def isComment (line : List Char) : Bool :=
  match trimFront line with
  | [] => true
  | c :: _ => c == '.'

def parseChars (line : List Char) : Option Statement :=
  if isComment line then none
  else
    let (first, rest) := splitField line
    let atMargin := !(line.head?.any isBlank)
    if atMargin && !isKeyword (String.ofList first) then
      some (ofFields (some (String.ofList first)) rest)
    else some (ofFields none line)

/-- The statement on a line, if there is one. -/
def parse (line : String) : Option Statement := parseChars line.toList

end Statement

end SicMachine
