import SicMachine.Word
import SicMachine.Text.Numeral

/-!
The part of memory to be listed after a run, given as a hexadecimal address, a
colon and a decimal count. The address may begin with any number of marks
`0x`; the count has 64 bits.
-/
namespace SicMachine.CommandLine

structure DumpRange where
  address : Nat
  count : Nat
  deriving DecidableEq, Repr

/-- Counts stay below this bound. -/
def countLimit : Nat := 18446744073709551616

namespace DumpRange

inductive Error where
  | withoutColon (argument : String)
  | address (written : String) (cause : Text.NumeralError)
  | count (written : String) (cause : Text.NumeralError)
  deriving DecidableEq, Repr

def Error.message : Error → String
  | .withoutColon argument => "expected HEXADDR:COUNT, got " ++ argument
  | .address written cause => "bad address " ++ written ++ ": " ++ cause.message
  | .count written cause => "bad count " ++ written ++ ": " ++ cause.message

/-- Drops the marks in front of a hexadecimal number. -/
def dropMarks : List Char → List Char
  | '0' :: 'x' :: rest => dropMarks rest
  | digits => digits

def parseParts (address count : List Char) : Except Error DumpRange :=
  match Text.readNumeral 16 wideLimit (dropMarks address) with
  | .error cause => .error (.address (String.ofList address) cause)
  | .ok value =>
    match Text.readNumeral 10 countLimit count with
    | .error cause => .error (.count (String.ofList count) cause)
    | .ok words => .ok ⟨value, words⟩

/-- The colon in question is the first one. -/
def parse (argument : String) : Except Error DumpRange :=
  match argument.toList.dropWhile (· != ':') with
  | [] => .error (.withoutColon argument)
  | _ :: count => parseParts (argument.toList.takeWhile (· != ':')) count

end DumpRange

end SicMachine.CommandLine
