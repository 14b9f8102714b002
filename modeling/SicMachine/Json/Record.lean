import SicMachine.Json.Reader
import SicMachine.Json.Skip

/-!
Records with named fields. A record is written as an object whose keys may
come in any order, each at most once, among keys of no meaning; or as an array
of its fields in their order. The fields are filled in one after the other,
starting from a blank value.
-/
namespace SicMachine.Json

/-- When a field may be left out. -/
inductive Presence where
  | required
  /-- It may be left out of an object, and then counts as null. -/
  | nullable
  /-- It may be left out of an object, and at the end of an array. -/
  | defaulted
  deriving DecidableEq, Repr

structure Field (α : Type) where
  name : String
  presence : Presence
  /-- Reads the field into a record. -/
  fill : α → Reader α

structure Record (α : Type) where
  name : String
  blank : α
  fields : List (Field α)

namespace Field

/-- A field that is put into the record when it has been read. -/
def of {α β : Type} (name : String) (presence : Presence) (reader : Reader β)
    (put : α → β → α) : Field α :=
  ⟨name, presence, fun record tokens =>
    match reader tokens with
    | .ok (value, rest) => .ok (put record value, rest)
    | .error failure => .error failure⟩

end Field

namespace Record

/-- The record as a type in messages. -/
def typeName {α : Type} (record : Record α) : String := "struct " ++ record.name

/-- The record with its number of fields, which counts one field as an element. -/
def arrayName {α : Type} (record : Record α) : String :=
  record.typeName ++ " with " ++ toString record.fields.length ++
    (if record.fields.length = 1 then " element" else " elements")

/-- At the end of an object, the first required field that has not been seen is missing. -/
def endObject {α : Type} (record : Record α) (seen : List String) (value : α) :
    Except Failure α :=
  let missing? := record.fields.find? fun field =>
    field.presence == .required && !seen.contains field.name
  match missing? with
  | some field => .error (.mismatch (.missingField field.name))
  | none => .ok value

/-- Reads the member that begins with a key. -/
def member {α : Type} (record : Record α) (seen : List String) (value : α) (key : String)
    (tokens : List Token) : Except Failure (List String × α × List Token) :=
  match record.fields.find? fun field => field.name == key with
  | some field =>
    if seen.contains key then .error (.mismatch (.duplicateField key))
    else
      match tokens with
      | .colon :: tokens =>
        (field.fill value tokens).map fun (value, rest) => (key :: seen, value, rest)
      | _ => .error .malformed
  | none =>
    match tokens with
    | .colon :: tokens =>
      match skipValue tokens with
      | some rest => .ok (seen, value, rest)
      | none => .error .malformed
    | _ => .error .malformed

/-- Reads the members of an object from a key on. Every member takes tokens away, so the number
of tokens bounds the number of members. -/
def members {α : Type} (record : Record α) :
    Nat → List String → α → List Token → Except Failure (α × List Token)
  | 0, _, _, _ => .error .malformed
  | fuel + 1, seen, value, .text units :: tokens =>
    match textOf? units with
    | none => .error .malformed
    | some key =>
      match record.member seen value key tokens with
      | .error failure => .error failure
      | .ok (seen, value, .comma :: rest) => members record fuel seen value rest
      | .ok (seen, value, .endObject :: rest) => (record.endObject seen value).map (·, rest)
      | .ok _ => .error .malformed
  | _, _, _, _ => .error .malformed

/-- At the end of an array, the first of the fields still due that has no default is missing. -/
def endArray {α : Type} (record : Record α) (due : List (Field α)) (value : α) :
    Except Failure α :=
  match due.findIdx? fun field => field.presence != .defaulted with
  | some index =>
    .error (.mismatch
      (.invalidLength (record.fields.length - due.length + index) record.arrayName))
  | none => .ok value

/-- Reads the fields still due behind an element of an array. -/
def elements {α : Type} (record : Record α) :
    List (Field α) → α → List Token → Except Failure (α × List Token)
  | due, value, .endArray :: rest => (record.endArray due value).map (·, rest)
  | field :: due, value, .comma :: tokens =>
    match field.fill value tokens with
    | .ok (value, rest) => elements record due value rest
    | .error failure => .error failure
  | _, _, _ => .error .malformed

/-- Reads a record in either form. -/
def reader {α : Type} (record : Record α) : Reader α
  | .beginObject :: .endObject :: rest => (record.endObject [] record.blank).map (·, rest)
  | .beginObject :: tokens => record.members tokens.length [] record.blank tokens
  | .beginArray :: .endArray :: rest => (record.endArray record.fields record.blank).map (·, rest)
  | .beginArray :: tokens =>
    match record.fields with
    | field :: due =>
      match field.fill record.blank tokens with
      | .ok (value, rest) => record.elements due value rest
      | .error failure => .error failure
    | [] => .error .malformed
  | token :: _ => .error (wrongType record.typeName token)
  | [] => .error .malformed

end Record

/-- Parts with a comma between each two. -/
def separated (parts : List (List Token)) : List Token := [Token.comma].intercalate parts

@[simp] theorem separated_nil : separated [] = [] := rfl

theorem separated_cons (part : List Token) (rest : List (List Token)) :
    separated (part :: rest) = part ++ rest.flatMap (Token.comma :: ·) := by
  induction rest generalizing part with
  | nil => simp [separated]
  | cons next rest ih =>
    show part ++ ([Token.comma] ++ separated (next :: rest)) = _
    rw [ih]
    rfl

/-- The tokens of an array with these elements. -/
def arrayTokens (elements : List (List Token)) : List Token :=
  .beginArray :: separated elements ++ [.endArray]

/-- The tokens of an object with these members. -/
def objectTokens (members : List (String × List Token)) : List Token :=
  let parts := members.map fun member => Token.ofString member.1 :: .colon :: member.2
  .beginObject :: separated parts ++ [.endObject]

end SicMachine.Json
