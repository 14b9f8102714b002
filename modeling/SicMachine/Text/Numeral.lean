/-!
Reading unsigned numbers below a limit: an optional plus sign, then digits.
Characters are taken from the left and the first one that is refused decides
the error; a character that is no digit is refused before the value is
compared with the limit. A sign alone has no digits and is refused as such.
-/
namespace SicMachine.Text

inductive NumeralError where
  | empty
  | invalidDigit
  | tooLarge
  deriving DecidableEq, Repr

namespace NumeralError

def message : NumeralError → String
  | empty => "cannot parse integer from empty string"
  | invalidDigit => "invalid digit found in string"
  | tooLarge => "number too large to fit in target type"

end NumeralError

/-- The value of a digit of either case, when it is one in the base. -/
def digitValue? (base : Nat) (c : Char) : Option Nat :=
  let code := c.toNat
  let value? :=
    if 48 ≤ code ∧ code ≤ 57 then some (code - 48)
    else if 65 ≤ code ∧ code ≤ 90 then some (code - 55)
    else if 97 ≤ code ∧ code ≤ 122 then some (code - 87)
    else none
  value?.filter (· < base)

/-- Continues a value with further digits, keeping it below the limit. -/
def readDigits (base limit : Nat) : Nat → List Char → Except NumeralError Nat
  | value, [] => .ok value
  | value, c :: rest =>
    match digitValue? base c with
    | none => .error .invalidDigit
    | some digit =>
      if value * base + digit < limit then readDigits base limit (value * base + digit) rest
      else .error .tooLarge

/-- A number below `limit` written in `base`. -/
def readNumeral (base limit : Nat) : List Char → Except NumeralError Nat
  | [] => .error .empty
  | ['+'] => .error .invalidDigit
  | '+' :: digits => readDigits base limit 0 digits
  | digits => readDigits base limit 0 digits

end SicMachine.Text
