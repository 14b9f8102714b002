import SicMachine.Word
import SicMachine.Text.Numeral
import SicMachine.Text.UpperCase

/-!
Assembler directives and the storage that each reserves. RESB and RESW take a
decimal count. BYTE takes characters between quotes after `C`, or pairs of
hexadecimal digits after `X`; an odd last digit reserves nothing.
-/
namespace SicMachine

inductive Directive where
  /-- Program name and load address. -/
  | start
  /-- End of the source; the operand names the first instruction. -/
  | finish
  /-- A character or hexadecimal constant. -/
  | byte
  /-- A constant of one word. -/
  | word
  /-- Reserved bytes. -/
  | resb
  /-- Reserved words. -/
  | resw
  deriving DecidableEq, Repr

namespace Directive

def all : List Directive := [start, finish, byte, word, resb, resw]

def name : Directive → String
  | start => "START"
  | finish => "END"
  | byte => "BYTE"
  | word => "WORD"
  | resb => "RESB"
  | resw => "RESW"

inductive Error where
  | unknown (name : String)
  | missingOperand (directive : Directive)
  | invalidOperand (directive : Directive) (operand : String)
  deriving DecidableEq, Repr

def Error.message : Error → String
  | .unknown name => "unknown directive: " ++ name
  | .missingOperand directive => directive.name ++ " requires an operand"
  | .invalidOperand directive operand =>
    "invalid " ++ directive.name ++ " operand: " ++ operand

/-- The directive of that name, whatever its case. -/
def ofName? (s : String) : Option Directive :=
  let upper := Text.upperCase s
  all.find? fun directive => directive.name == upper

theorem ofName?_eq_some_iff {s : String} {d : Directive} :
    ofName? s = some d ↔ d.name = Text.upperCase s := by
  constructor
  · intro h
    have hname := List.find?_some h
    exact eq_of_beq hname
  · intro h
    unfold ofName?
    rw [← h]
    cases d <;> rfl

def ofName (s : String) : Except Error Directive :=
  match ofName? s with
  | some directive => .ok directive
  | none => .error (.unknown s)

/-- A constant in quotes: the letter of its kind and the text between the quotes. -/
def constant? : List Char → Option (Char × List Char)
  | kind :: '\'' :: rest =>
    if rest.getLast? = some '\'' then some (kind.toUpper, rest.dropLast) else none
  | _ => none

def isHexDigit (c : Char) : Bool := (Text.digitValue? 16 c).isSome

/-- The bytes of a constant; its length is counted in 32 bits. -/
def constantSize? (operand : String) : Option Nat :=
  match constant? operand.toList with
  | some ('C', body) => some (body.length % wideLimit)
  | some ('X', body) =>
    if body.all isHexDigit then some (body.length % wideLimit / 2) else none
  | _ => none

/-- The decimal operand of RESB and RESW. -/
def count (directive : Directive) (operand : String) : Except Error Nat :=
  match Text.readNumeral 10 wideLimit operand.toList with
  | .ok value => .ok value
  | .error _ => .error (.invalidOperand directive operand)

/-- The bytes that a directive with this operand adds to the program. -/
def size (directive : Directive) (operand : Option String) : Except Error Nat :=
  match directive, operand with
  | start, _ => .ok 0
  | finish, _ => .ok 0
  | word, _ => .ok wordBytes
  | resw, some operand => do
    let words ← count resw operand
    if words * wordBytes < wideLimit then .ok (words * wordBytes)
    else .error (.invalidOperand resw (toString words))
  | resb, some operand => count resb operand
  | byte, some operand =>
    match constantSize? operand with
    | some bytes => .ok bytes
    | none => .error (.invalidOperand byte operand)
  | directive, none => .error (.missingOperand directive)

end Directive

end SicMachine
