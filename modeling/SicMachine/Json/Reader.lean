import SicMachine.Json.Failure
import SicMachine.Json.Scanner
import SicMachine.Word

/-!
Reading typed values from tokens, strictly from left to right. A reader takes
the tokens of one value from the front and returns what is left. The elements
of arrays and maps read here are single tokens.
-/
namespace SicMachine.Json

/-- A value read from the front of a list of tokens, and the tokens behind it. -/
abbrev Reader (α : Type) := List Token → Except Failure (α × List Token)

/-- A value of one token. -/
abbrev Scalar (α : Type) := Token → Except Failure α

namespace Reader

def ofScalar {α : Type} (scalar : Scalar α) : Reader α
  | token :: rest => (scalar token).map (·, rest)
  | [] => .error .malformed

/-- A natural number below `limit`, as the type `expected`. -/
def natural (limit : Nat) (expected : String) : Scalar Nat
  | .number written =>
    match Quantity.ofWritten? written with
    | some (.natural n) =>
      if n < limit then .ok n else .error (.mismatch (.invalidValue (.integer n) expected))
    | some (.negative n) => .error (.mismatch (.invalidValue (.integer (-n)) expected))
    | other => .error (wrongNumber expected other)
  | token => .error (wrongType expected token)

/-- A 32-bit number. -/
def wide : Scalar Nat := natural wideLimit "u32"

/-- A byte. -/
def byte : Scalar UInt8 := fun token => (natural byteLimit "u8" token).map UInt8.ofNat

def string : Scalar String
  | .text units =>
    match textOf? units with
    | some s => .ok s
    | none => .error .malformed
  | token => .error (wrongType "a string" token)

/-- A value that may be null. -/
def optional {α : Type} (scalar : Scalar α) : Scalar (Option α)
  | .null => .ok none
  | token => (scalar token).map some

/-- The elements of an array behind the first, added to those already read, last first. -/
def moreElements {α : Type} (element : Scalar α) : List α → Reader (List α)
  | done, .endArray :: rest => .ok (done.reverse, rest)
  | done, .comma :: token :: rest =>
    match element token with
    | .ok value => moreElements element (value :: done) rest
    | .error failure => .error failure
  | _, _ => .error .malformed

/-- An array of any length. -/
def array {α : Type} (element : Scalar α) : Reader (List α)
  | .beginArray :: .endArray :: rest => .ok ([], rest)
  | .beginArray :: token :: rest =>
    match element token with
    | .ok value => moreElements element [value] rest
    | .error failure => .error failure
  | [.beginArray] => .error .malformed
  | token :: _ => .error (wrongType "a sequence" token)
  | [] => .error .malformed

/-- The type of an array of a fixed length in messages. -/
def lengthName (length : Nat) : String := "an array of length " ++ toString length

/-- The elements of an array that are still due, and its end. -/
def dueElements {α : Type} (element : Scalar α) (length : Nat) :
    Nat → List α → Reader (List α)
  | 0, done, .endArray :: rest => .ok (done.reverse, rest)
  | _ + 1, done, .endArray :: _ =>
    .error (.mismatch (.invalidLength done.length (lengthName length)))
  | due + 1, done, .comma :: token :: rest =>
    match element token with
    | .ok value => dueElements element length due (value :: done) rest
    | .error failure => .error failure
  | _, _, _ => .error .malformed

/-- An array of `length` elements. -/
def fixedArray {α : Type} (element : Scalar α) (length : Nat) : Reader (List α)
  | .beginArray :: .endArray :: rest =>
    if length = 0 then .ok ([], rest)
    else .error (.mismatch (.invalidLength 0 (lengthName length)))
  | .beginArray :: token :: rest =>
    if length = 0 then .error .malformed
    else
      match element token with
      | .ok value => dueElements element length (length - 1) [value] rest
      | .error failure => .error failure
  | [.beginArray] => .error .malformed
  | token :: _ => .error (wrongType (lengthName length) token)
  | [] => .error .malformed

/-- A key and its value. -/
def entry {α : Type} (value : Scalar α) (units : List TextUnit) (token : Token) :
    Except Failure (String × α) :=
  match textOf? units with
  | some key => (value token).map (key, ·)
  | none => .error .malformed

/-- The entries of a map behind the first, added to those already read, last first. -/
def moreEntries {α : Type} (value : Scalar α) : List (String × α) → Reader (List (String × α))
  | done, .endObject :: rest => .ok (done.reverse, rest)
  | done, .comma :: .text units :: .colon :: token :: rest =>
    match entry value units token with
    | .ok entry => moreEntries value (entry :: done) rest
    | .error failure => .error failure
  | _, _ => .error .malformed

/-- A map in the order of its entries, repeated keys included. -/
def map {α : Type} (value : Scalar α) : Reader (List (String × α))
  | .beginObject :: .endObject :: rest => .ok ([], rest)
  | .beginObject :: .text units :: .colon :: token :: rest =>
    match entry value units token with
    | .ok entry => moreEntries value [entry] rest
    | .error failure => .error failure
  | .beginObject :: _ => .error .malformed
  | token :: _ => .error (wrongType "a map" token)
  | [] => .error .malformed

/-- The variant of that name among the known ones. -/
def named {α : Type} (name : α → String) (all : List α) (s : String) : Except Failure α :=
  match all.find? fun value => name value == s with
  | some value => .ok value
  | none => .error (.mismatch (.unknownVariant s (all.map name)))

/-- A variant without contents: its name, or an object with its name as the only key and null as
the value. -/
def variant {α : Type} (name : α → String) (all : List α) : Reader α
  | .text units :: rest =>
    match textOf? units with
    | some s => (named name all s).map (·, rest)
    | none => .error .malformed
  | .beginObject :: .text units :: rest =>
    match textOf? units with
    | none => .error .malformed
    | some s =>
      match named name all s, rest with
      | .error failure, _ => .error failure
      | .ok value, .colon :: .null :: .endObject :: rest => .ok (value, rest)
      | .ok _, .colon :: .null :: _ => .error .malformed
      | .ok _, .colon :: token :: _ => .error (wrongType "unit" token)
      | .ok _, _ => .error .malformed
  | _ => .error .malformed

/-- The whole of a text as one value. -/
def readText {α : Type} (reader : Reader α) (text : String) : Except Failure α :=
  match reader (scan text.toList) with
  | .ok (value, []) => .ok value
  | .ok (_, _ :: _) => .error .malformed
  | .error failure => .error failure

end Reader

end SicMachine.Json
