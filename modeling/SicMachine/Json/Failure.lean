import SicMachine.Json.Quantity
import SicMachine.Json.Token
import SicMachine.Text.Quoted

/-!
Why a text cannot be read as a value of some type. Either the text is no JSON
at the place reached, or the JSON there has the wrong shape; whatever comes
first in the text decides.
-/
namespace SicMachine.Json

/-- What stands where something else was expected. -/
inductive Found where
  | integer (n : Int)
  | float (digits : String)
  | bool (value : Bool)
  | text (s : String)
  | null
  | sequence
  | map
  deriving DecidableEq, Repr

def Found.description : Found → String
  | .integer n => "integer `" ++ toString n ++ "`"
  | .float digits => "floating point `" ++ digits ++ "`"
  | .bool value => "boolean `" ++ toString value ++ "`"
  | .text s => "string " ++ Text.quoted s
  | .null => "null"
  | .sequence => "sequence"
  | .map => "map"

inductive Mismatch where
  | missingField (name : String)
  | duplicateField (name : String)
  | invalidType (found : Found) (expected : String)
  | invalidValue (found : Found) (expected : String)
  | invalidLength (length : Nat) (expected : String)
  | unknownVariant (name : String) (known : List String)
  /-- The shape is right, but the type refuses the value. -/
  | refused (reason : String)
  deriving DecidableEq, Repr

/-- A name between backquotes. -/
def backquoted (name : String) : String := "`" ++ name ++ "`"

def Mismatch.message : Mismatch → String
  | .missingField name => "missing field " ++ backquoted name
  | .duplicateField name => "duplicate field " ++ backquoted name
  | .invalidType found expected =>
    "invalid type: " ++ found.description ++ ", expected " ++ expected
  | .invalidValue found expected =>
    "invalid value: " ++ found.description ++ ", expected " ++ expected
  | .invalidLength length expected =>
    "invalid length " ++ toString length ++ ", expected " ++ expected
  | .unknownVariant name known =>
    "unknown variant " ++ backquoted name ++ ", expected one of " ++
      ", ".intercalate (known.map backquoted)
  | .refused reason => reason

inductive Failure where
  /-- The text is no JSON, or goes on where it should end. -/
  | malformed
  | mismatch (cause : Mismatch)
  deriving DecidableEq, Repr

/-- A number of the wrong type; one without a value is no JSON. -/
def wrongNumber (expected : String) : Option Quantity → Failure
  | some (.natural n) => .mismatch (.invalidType (.integer n) expected)
  | some (.negative n) => .mismatch (.invalidType (.integer (-n)) expected)
  | some (.float x) => .mismatch (.invalidType (.float (Quantity.floatText x)) expected)
  | none => .malformed

/-- The failure of a value that begins with this token where another type is expected. -/
def wrongType (expected : String) : Token → Failure
  | .null => .mismatch (.invalidType .null expected)
  | .bool value => .mismatch (.invalidType (.bool value) expected)
  | .number written => wrongNumber expected (Quantity.ofWritten? written)
  | .text units =>
    match textOf? units with
    | some s => .mismatch (.invalidType (.text s) expected)
    | none => .malformed
  | .beginArray => .mismatch (.invalidType .sequence expected)
  | .beginObject => .mismatch (.invalidType .map expected)
  | _ => .malformed

end SicMachine.Json
