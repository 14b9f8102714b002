/-!
Text without controls and control sequences, for messages that repeat what
somebody has typed. A sequence begins with an escape; what comes next decides
whether it ends at a final character or holds a string up to a terminator.
White space within a sequence is kept and interrupts it: the characters behind
it are kept too, until a control goes on with the sequence.
-/
namespace SicMachine.Text

/-- What a character is read as part of. -/
inductive SequencePart where
  | outside
  | escape
  /-- Characters between the escape and a final character. -/
  | intermediate
  /-- The parameters of a control sequence. -/
  | control
  /-- The three parts of the head of a device string. -/
  | deviceEntry
  | deviceParameters
  | deviceIntermediate
  /-- A string up to its terminator. -/
  | string
  /-- A command to the operating system, up to a bell. -/
  | command
  deriving DecidableEq, Repr

/-- The byte that ends a string, alone or within the encoding of a character. -/
def stringTerminator : UInt8 := 0x9C

namespace SequencePart

/-- The part behind a character that follows the escape. -/
def ofIntroducer : Char → SequencePart
  | '[' => control
  | ']' => command
  | 'P' => deviceEntry
  | 'X' => string
  | '^' => string
  | '_' => string
  | _ => outside

/-- The part behind a character from the blank to the tilde. -/
def nextGraphic (part : SequencePart) (c : Char) : SequencePart :=
  match part with
  | outside => outside
  | escape => if c.toNat < 0x30 then intermediate else ofIntroducer c
  | intermediate => if c.toNat < 0x30 then intermediate else outside
  | control => if c.toNat < 0x40 then control else outside
  | deviceEntry =>
    if c.toNat < 0x30 then deviceIntermediate
    else if c.toNat < 0x40 then deviceParameters
    else string
  | deviceParameters =>
    if c.toNat < 0x30 then deviceIntermediate
    else if c.toNat < 0x3C then deviceParameters
    else string
  | deviceIntermediate => if c.toNat < 0x30 then deviceIntermediate else string
  | string => string
  | command => command

/-- The part behind a character. Two controls end every sequence, and an escape begins a new one. -/
def next (part : SequencePart) (c : Char) : SequencePart :=
  if c = '\x1b' then escape
  else if c = '\x18' ∨ c = '\x1a' then outside
  else if 0x20 ≤ c.toNat ∧ c.toNat < 0x7F then part.nextGraphic c
  else
    match part with
    | command => if c = '\x07' then outside else command
    | string => if (String.utf8EncodeChar c).contains stringTerminator then outside else string
    | part => part

/-- Whether white space in this part is kept. -/
def allowsSpace : SequencePart → Bool
  | outside => true
  | escape => true
  | intermediate => true
  | control => true
  | _ => false

end SequencePart

/-- The white space among the controls. -/
def isSpaceControl (c : Char) : Bool := c == '\t' || c == '\n' || c == '\x0c' || c == '\r'

/-- The characters that are kept outside of sequences. -/
def isPlain (c : Char) : Bool := (0x20 ≤ c.toNat && c != '\x7f') || isSpaceControl c

/-- How far a text has been read: the part of a sequence, and whether white space has interrupted
it. -/
structure PlainState where
  part : SequencePart
  interrupted : Bool
  deriving DecidableEq, Repr

namespace PlainState

def start : PlainState := ⟨.outside, false⟩

def keeps (state : PlainState) (c : Char) : Bool :=
  if state.interrupted || state.part == .outside then isPlain c
  else state.part.allowsSpace && isSpaceControl c

/-- A character outside the ASCII range ends an interrupted sequence for good. -/
def advance (state : PlainState) (c : Char) : PlainState :=
  if state.interrupted then
    if !isPlain c then ⟨state.part.next c, false⟩
    else if c.toNat < 0x80 then state
    else start
  else if state.keeps c && state.part != .outside then ⟨state.part, true⟩
  else ⟨state.part.next c, false⟩

end PlainState

/-- The characters that are kept of those behind a state. -/
def plainFrom : PlainState → List Char → List Char
  | _, [] => []
  | state, c :: rest =>
    if state.keeps c then c :: plainFrom (state.advance c) rest
    else plainFrom (state.advance c) rest

def plain (s : String) : String := String.ofList (plainFrom .start s.toList)

end SicMachine.Text
