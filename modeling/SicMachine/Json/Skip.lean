import SicMachine.Json.Token

/-!
Passing over a value whose contents do not matter. Nesting may be as deep as
it likes: what is open is kept on a stack. Numbers may be out of range and
surrogates without a partner.
-/
namespace SicMachine.Json

inductive Bracket where
  | array
  | object
  deriving DecidableEq, Repr

/-- What the value in hand goes on with. -/
inductive Wanted where
  | value
  | valueOrEnd
  | key
  | keyOrEnd
  | colon
  | separator
  deriving DecidableEq, Repr

namespace Skip

/-- Whether a value of one token begins and ends here. -/
def isScalar : Token → Bool
  | .null | .bool _ | .number _ | .text _ => true
  | _ => false

/-- Passes over the rest of the open brackets, the innermost of which comes first. -/
def rest : List Bracket → Wanted → List Token → Option (List Token)
  | _, _, [] => none
  | opened, wanted, token :: tokens =>
    let closed (outer : List Bracket) : Option (List Token) :=
      match outer with
      | [] => some tokens
      | _ :: _ => rest outer .separator tokens
    match wanted, token, opened with
    | .valueOrEnd, .endArray, .array :: outer => closed outer
    | .value, .beginArray, _ => rest (.array :: opened) .valueOrEnd tokens
    | .valueOrEnd, .beginArray, _ => rest (.array :: opened) .valueOrEnd tokens
    | .value, .beginObject, _ => rest (.object :: opened) .keyOrEnd tokens
    | .valueOrEnd, .beginObject, _ => rest (.object :: opened) .keyOrEnd tokens
    | .value, token, _ => if isScalar token then closed opened else none
    | .valueOrEnd, token, _ => if isScalar token then closed opened else none
    | .keyOrEnd, .endObject, .object :: outer => closed outer
    | .keyOrEnd, .text _, _ => rest opened .colon tokens
    | .key, .text _, _ => rest opened .colon tokens
    | .colon, .colon, _ => rest opened .value tokens
    | .separator, .comma, .array :: _ => rest opened .value tokens
    | .separator, .comma, .object :: _ => rest opened .key tokens
    | .separator, .endArray, .array :: outer => closed outer
    | .separator, .endObject, .object :: outer => closed outer
    | _, _, _ => none

end Skip

/-- The tokens behind the value at the front. -/
def skipValue (tokens : List Token) : Option (List Token) := Skip.rest [] .value tokens

end SicMachine.Json
