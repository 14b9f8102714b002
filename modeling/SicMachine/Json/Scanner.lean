import SicMachine.Json.Token
import SicMachine.Text.Numeral

/-!
Cutting text into tokens, one character at a time. The scanner is a machine
whose state says in which kind of token it stands; at the first character that
no JSON text can have there it stops for good and leaves an invalid token.
-/
namespace SicMachine.Json

/-- How far a number has been written. -/
inductive Phase where
  | sign
  | zero
  | whole
  | point
  | fraction
  | mark
  | markSign
  | exponent
  deriving DecidableEq, Repr

namespace Phase

/-- The phase after a further character of the number. -/
def next? : Phase → Char → Option Phase
  | sign, c => if c = '0' then some zero else if c.isDigit then some whole else none
  | zero, c => if c = '.' then some point else if c = 'e' ∨ c = 'E' then some mark else none
  | whole, c =>
    if c.isDigit then some whole
    else if c = '.' then some point
    else if c = 'e' ∨ c = 'E' then some mark
    else none
  | point, c => if c.isDigit then some fraction else none
  | fraction, c =>
    if c.isDigit then some fraction else if c = 'e' ∨ c = 'E' then some mark else none
  | mark, c =>
    if c.isDigit then some exponent else if c = '+' ∨ c = '-' then some markSign else none
  | markSign, c => if c.isDigit then some exponent else none
  | exponent, c => if c.isDigit then some exponent else none

/-- Whether a number may end here. -/
def complete : Phase → Bool
  | zero | whole | fraction | exponent => true
  | sign | point | mark | markSign => false

end Phase

/-- Where the scanner stands. Characters already read are kept last first. -/
inductive Position where
  | between
  /-- Inside `null`, `true` or `false`, with the characters that must follow. -/
  | word (rest : List Char) (token : Token)
  | number (phase : Phase) (done : List Char)
  | text (done : List TextUnit)
  /-- After a backslash. -/
  | escape (done : List TextUnit)
  /-- Inside an escape by number: the digits still due and the value so far. -/
  | code (done : List TextUnit) (due value : Nat)
  | stopped
  deriving DecidableEq, Repr

/-- The tokens found so far, last first, and where the scanner stands. -/
structure Scan where
  position : Position
  tokens : List Token
  deriving DecidableEq, Repr

namespace Scan

def start : Scan := ⟨.between, []⟩

def stop (tokens : List Token) : Scan := ⟨.stopped, .invalid :: tokens⟩

def emit (token : Token) (tokens : List Token) : Scan := ⟨.between, token :: tokens⟩

def isSpace (c : Char) : Bool := c == ' ' || c == '\n' || c == '\t' || c == '\r'

/-- A character that stands outside the tokens before it. -/
def outside (c : Char) (tokens : List Token) : Scan :=
  if isSpace c then ⟨.between, tokens⟩
  else if c = '-' then ⟨.number .sign [c], tokens⟩
  else if c = '0' then ⟨.number .zero [c], tokens⟩
  else if c.isDigit then ⟨.number .whole [c], tokens⟩
  else
    match c with
    | '[' => emit .beginArray tokens
    | ']' => emit .endArray tokens
    | '\x7b' => emit .beginObject tokens
    | '\x7d' => emit .endObject tokens
    | ',' => emit .comma tokens
    | ':' => emit .colon tokens
    | '"' => ⟨.text [], tokens⟩
    | 'n' => ⟨.word ['u', 'l', 'l'] .null, tokens⟩
    | 't' => ⟨.word ['r', 'u', 'e'] (.bool true), tokens⟩
    | 'f' => ⟨.word ['a', 'l', 's', 'e'] (.bool false), tokens⟩
    | _ => stop tokens

/-- The character that a letter after a backslash stands for. -/
def escaped? : Char → Option Char
  | '"' => some '"'
  | '\\' => some '\\'
  | '/' => some '/'
  | 'b' => some '\x08'
  | 'f' => some '\x0c'
  | 'n' => some '\n'
  | 'r' => some '\r'
  | 't' => some '\t'
  | _ => none

def unitOf (code : Nat) : TextUnit :=
  if 0xD800 ≤ code ∧ code ≤ 0xDFFF then .surrogate code else .char (Char.ofNat code)

def step (scan : Scan) (c : Char) : Scan :=
  match scan with
  | ⟨.between, tokens⟩ => outside c tokens
  | ⟨.word [] token, tokens⟩ => outside c (token :: tokens)
  | ⟨.word [last] token, tokens⟩ => if c = last then emit token tokens else stop tokens
  | ⟨.word (due :: rest) token, tokens⟩ =>
    if c = due then ⟨.word rest token, tokens⟩ else stop tokens
  | ⟨.number phase done, tokens⟩ =>
    match phase.next? c with
    | some phase => ⟨.number phase (c :: done), tokens⟩
    | none =>
      if phase.complete && !(phase == .zero && c.isDigit) then
        outside c (.number done.reverse :: tokens)
      else stop tokens
  | ⟨.text done, tokens⟩ =>
    if c = '"' then emit (.text done.reverse) tokens
    else if c = '\\' then ⟨.escape done, tokens⟩
    else if c.toNat < 0x20 then stop tokens
    else ⟨.text (.char c :: done), tokens⟩
  | ⟨.escape done, tokens⟩ =>
    if c = 'u' then ⟨.code done 3 0, tokens⟩
    else
      match escaped? c with
      | some c => ⟨.text (.char c :: done), tokens⟩
      | none => stop tokens
  | ⟨.code done due value, tokens⟩ =>
    match Text.digitValue? 16 c, due with
    | some digit, 0 => ⟨.text (unitOf (value * 16 + digit) :: done), tokens⟩
    | some digit, due + 1 => ⟨.code done due (value * 16 + digit), tokens⟩
    | none, _ => stop tokens
  | ⟨.stopped, tokens⟩ => ⟨.stopped, tokens⟩

/-- The tokens of the text that ends here, in order. -/
def finish (scan : Scan) : List Token :=
  match scan with
  | ⟨.between, tokens⟩ => tokens.reverse
  | ⟨.stopped, tokens⟩ => tokens.reverse
  | ⟨.number phase done, tokens⟩ =>
    if phase.complete then (Token.number done.reverse :: tokens).reverse
    else (Token.invalid :: tokens).reverse
  | ⟨_, tokens⟩ => (Token.invalid :: tokens).reverse

end Scan

/-- The tokens of a text, up to the first place that is no JSON. -/
def scan (text : List Char) : List Token := (text.foldl Scan.step .start).finish

end SicMachine.Json
