import SicMachine.Statement
import SicMachine.SymbolTable

/-!
Pass One of the assembler: walks through the source once, gives every label
the address of its statement, and finds the length of the program. The first
line at fault ends the pass. The operand of END is looked up when the source
has been read, and an error there counts for the line of END.
-/
namespace SicMachine.PassOne

/-- What is known about the program besides its symbols. -/
structure Summary where
  /-- The label of START. -/
  programName : Option String
  startAddress : Nat
  /-- The bytes from the start address on. -/
  programLength : Nat
  /-- The address that END names, or else the start address. -/
  executionStart : Nat
  deriving DecidableEq, Repr

inductive Cause where
  | missingMnemonic
  | misplacedStart
  | startWithoutAddress
  | invalidStart (operand : String)
  | unknownMnemonic (mnemonic : String)
  | symbol (error : SymbolTable.Error)
  | directive (error : Directive.Error)
  | programTooLarge
  deriving DecidableEq, Repr

/-- What went wrong, and on which line; lines count from one. -/
structure Error where
  line : Nat
  cause : Cause
  deriving DecidableEq, Repr

def Error.message (error : Error) : String :=
  let line := toString error.line
  match error.cause with
  | .missingMnemonic => "syntax error on line " ++ line ++ ": missing mnemonic"
  | .misplacedStart => "syntax error on line " ++ line ++ ": START must be the first statement"
  | .startWithoutAddress => "syntax error on line " ++ line ++ ": START requires an address"
  | .invalidStart operand =>
    "syntax error on line " ++ line ++ ": invalid START address: " ++ operand
  | .unknownMnemonic mnemonic => "unknown mnemonic on line " ++ line ++ ": " ++ mnemonic
  | .symbol error => "line " ++ line ++ ": " ++ error.message
  | .directive error => "line " ++ line ++ ": " ++ error.message
  | .programTooLarge => "program exceeds memory on line " ++ line

/-- What has been found out from the lines read so far. -/
structure Progress where
  symbols : SymbolTable
  programName : Option String
  startAddress : Nat
  /-- The address of the next statement. -/
  location : Nat
  /-- No statement has been read yet. -/
  fresh : Bool
  deriving DecidableEq

def Progress.initial : Progress := ⟨.empty, none, 0, 0, true⟩

/-- A START address: a hexadecimal number inside memory. -/
def startAddress : Option String → Except Cause Nat
  | none => .error .startWithoutAddress
  | some operand =>
    match Text.readNumeral 16 wideLimit operand.toList with
    | .ok address => if address < memorySize then .ok address else .error (.invalidStart operand)
    | .error _ => .error (.invalidStart operand)

/-- START sets the location and must come first. -/
def applyStart (progress : Progress) (directive : Option Directive) (operand : Option String) :
    Except Cause Progress :=
  if directive = some .start then
    if progress.fresh then do
      let address ← startAddress operand
      .ok { progress with startAddress := address, location := address, fresh := false }
    else .error .misplacedStart
  else .ok { progress with fresh := false }

/-- A label gets the current location; that of START names the program. -/
def define (progress : Progress) (directive : Option Directive) :
    Option String → Except Cause Progress
  | none => .ok progress
  | some label =>
    match progress.symbols.add label progress.location with
    | .error error => .error (.symbol error)
    | .ok symbols =>
      .ok { progress with
        symbols
        programName :=
          if directive = some .start then some (Text.upperCase label) else progress.programName }

/-- The bytes of a statement. -/
def storage (mnemonic : String) (directive : Option Directive) (operand : Option String) :
    Except Cause Nat :=
  match directive with
  | some directive => (directive.size operand).mapError .directive
  | none =>
    if (Mnemonic.ofName? mnemonic).isSome then .ok wordBytes else .error (.unknownMnemonic mnemonic)

/-- Moves the location past a statement; it may reach the end of memory. -/
def reserve (progress : Progress) (bytes : Nat) : Except Cause Progress :=
  if progress.location + bytes ≤ memorySize then
    .ok { progress with location := progress.location + bytes }
  else .error .programTooLarge

/-- Reads one statement. The flag tells whether it was END. -/
def place (progress : Progress) (statement : Statement) : Except Cause (Progress × Bool) :=
  match statement.mnemonic with
  | none => .error .missingMnemonic
  | some mnemonic => do
    let directive := Directive.ofName? mnemonic
    let progress ← applyStart progress directive statement.operand
    let progress ← define progress directive statement.label
    if directive = some .finish then .ok (progress, true)
    else
      let bytes ← storage mnemonic directive statement.operand
      let progress ← reserve progress bytes
      .ok (progress, false)

/-- Reads lines up to END, whose line and operand are kept. -/
def scan : Progress → Nat → List String → Except Error (Progress × Option (Nat × String))
  | progress, _, [] => .ok (progress, none)
  | progress, line, text :: rest =>
    match Statement.parse text with
    | none => scan progress (line + 1) rest
    | some statement =>
      match place progress statement with
      | .error cause => .error ⟨line, cause⟩
      | .ok (progress, true) => .ok (progress, statement.operand.map (line, ·))
      | .ok (progress, false) => scan progress (line + 1) rest

/-- The address at which execution starts. -/
def executionStart (progress : Progress) : Option (Nat × String) → Except Error Nat
  | none => .ok progress.startAddress
  | some (line, label) => (progress.symbols.get label).mapError fun error => ⟨line, .symbol error⟩

def run (lines : List String) : Except Error (SymbolTable × Summary) := do
  let (progress, finish) ← scan .initial 1 lines
  let address ← executionStart progress finish
  .ok (progress.symbols,
    { programName := progress.programName
      startAddress := progress.startAddress
      programLength := progress.location - progress.startAddress
      executionStart := address })

end SicMachine.PassOne
