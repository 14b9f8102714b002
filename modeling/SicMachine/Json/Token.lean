/-!
The tokens of JSON text. A string literal is kept as the units that it spells,
because an escape may name half of a surrogate pair; only literals whose
halves meet in pairs stand for text. A number is kept as it is written.
-/
namespace SicMachine.Json

inductive TextUnit where
  | char (c : Char)
  /-- A code between D800 and DFFF, which only an escape can name. -/
  | surrogate (code : Nat)
  deriving DecidableEq, Repr

inductive Token where
  | beginArray
  | endArray
  | beginObject
  | endObject
  | comma
  | colon
  | null
  | bool (value : Bool)
  | number (written : List Char)
  | text (units : List TextUnit)
  /-- The place where the text stops being JSON. -/
  | invalid
  deriving DecidableEq, Repr

/-- The character of a high and a low surrogate. -/
def joinPair (high low : Nat) : Char :=
  Char.ofNat (0x10000 + (high - 0xD800) * 0x400 + (low - 0xDC00))

/-- Adds the characters of further units to those already read, last first. -/
def joinUnits : List Char → List TextUnit → Option (List Char)
  | done, [] => some done.reverse
  | done, .char c :: rest => joinUnits (c :: done) rest
  | done, .surrogate high :: .surrogate low :: rest =>
    if high < 0xDC00 ∧ 0xDC00 ≤ low then joinUnits (joinPair high low :: done) rest else none
  | _, .surrogate _ :: _ => none

/-- The text of a literal; there is none when a surrogate has no partner. -/
def textOf? (units : List TextUnit) : Option String := (joinUnits [] units).map String.ofList

namespace Token

def ofNat (n : Nat) : Token := number (Nat.toDigits 10 n)

def ofString (s : String) : Token := text (s.toList.map .char)

/-- The escape of a control character without a letter of its own. -/
def controlEscape (code : Nat) : List Char :=
  ['\\', 'u', '0', '0', Nat.digitChar (code / 16), Nat.digitChar (code % 16)]

/-- How a character is written in a string literal. -/
def escape (c : Char) : List Char :=
  match c with
  | '"' => ['\\', '"']
  | '\\' => ['\\', '\\']
  | '\x08' => ['\\', 'b']
  | '\x0c' => ['\\', 'f']
  | '\n' => ['\\', 'n']
  | '\r' => ['\\', 'r']
  | '\t' => ['\\', 't']
  | c => if c.toNat < 0x20 then controlEscape c.toNat else [c]

/-- A surrogate is written as an escape of four digits. -/
def writeUnit : TextUnit → List Char
  | .char c => escape c
  | .surrogate code => ['\\', 'u'] ++ (Nat.toDigits 16 code).leftpad 4 '0'

/-- A token in writing; an invalid one has none. -/
def written : Token → List Char
  | beginArray => ['[']
  | endArray => [']']
  | beginObject => ['\x7b']
  | endObject => ['\x7d']
  | comma => [',']
  | colon => [':']
  | null => ['n', 'u', 'l', 'l']
  | bool true => ['t', 'r', 'u', 'e']
  | bool false => ['f', 'a', 'l', 's', 'e']
  | number written => written
  | text units => '"' :: units.flatMap writeUnit ++ ['"']
  | invalid => []

end Token

end SicMachine.Json
