import SicMachine.CommandLine.Usage

/-!
Reading the arguments. A switch may be followed by its value as the next
argument, or hold it behind an equals sign, or, for a letter, directly. The
value of the next argument is looked at only when a later argument has been
accepted, so an argument that does not belong to the command is reported
first. Two hyphens end the switches. An argument that begins with a hyphen is
never a value of its own.
-/
namespace SicMachine.CommandLine

/-- A command with its arguments. -/
inductive Command where
  | run (image : String) (steps : Nat) (trace : Bool) (dump : Option DumpRange)
  | passOne (source : String) (json : Bool)
  | disassemble (image : String)
  deriving DecidableEq, Repr

/-- The file that a command reads. -/
def Command.path : Command → String
  | run image .. => image
  | passOne source _ => source
  | disassemble image => image

/-- The steps of a run that names no number of them. -/
def defaultSteps : Nat := 100

/-- The arguments accepted so far. -/
structure Given where
  file : Option String
  steps : Option Nat
  dump : Option DumpRange
  trace : Bool
  json : Bool
  deriving DecidableEq, Repr

namespace Given

def none : Given := ⟨.none, .none, .none, false, false⟩

/-- Accepts a switch with its value. -/
def accept (given : Given) (switch : Switch) (value : Option String) : Except Interrupt Given :=
  match switch, value with
  | .steps, some value =>
    if given.steps.isSome then .error (.usage (.repeated .steps))
    else
      match Text.readNumeral 10 countLimit value.toList with
      | .ok steps => .ok { given with steps := some steps }
      | .error cause => .error (.usage (.invalidValue value .steps cause.message))
  | .dump, some value =>
    if given.dump.isSome then .error (.usage (.repeated .dump))
    else
      match DumpRange.parse value with
      | .ok dump => .ok { given with dump := some dump }
      | .error cause => .error (.usage (.invalidValue value .dump cause.message))
  | .steps, .none => .error (.usage (.valueRequired .steps))
  | .dump, .none => .error (.usage (.valueRequired .dump))
  | .trace, _ =>
    if given.trace then .error (.usage (.repeated .trace)) else .ok { given with trace := true }
  | .json, _ =>
    if given.json then .error (.usage (.repeated .json)) else .ok { given with json := true }
  | .help, _ => .error .help
  | .version, _ => .error .version

/-- The command when all arguments have been accepted. -/
def command (given : Given) (subcommand : Subcommand) : Except Interrupt Command :=
  match given.file with
  | .none => .error (.usage .missingFile)
  | some file =>
    .ok <|
      match subcommand with
      | .run => .run file (given.steps.getD defaultSteps) given.trace given.dump
      | .passOne => .passOne file given.json
      | .disassemble => .disassemble file

end Given

/-- The arguments accepted so far, a switch that waits for its value or for the value to be looked
at, and whether the switches have ended. -/
structure Parse where
  given : Given
  pending : Option (Switch × Option String)
  ended : Bool
  deriving DecidableEq, Repr

namespace Parse

def start : Parse := ⟨.none, none, false⟩

/-- Looks at the value of the pending switch. -/
def settle (parse : Parse) : Except Interrupt Parse :=
  match parse.pending with
  | none => .ok parse
  | some (switch, value) =>
    (parse.given.accept switch value).map fun given => { parse with given, pending := none }

/-- Accepts a switch, after the one before it. -/
def accept (parse : Parse) (switch : Switch) (value : Option String) : Except Interrupt Parse := do
  let parse ← parse.settle
  let given ← parse.given.accept switch value
  .ok { parse with given }

/-- Lets a switch wait for its value. -/
def await (parse : Parse) (switch : Switch) : Except Interrupt Parse := do
  let parse ← parse.settle
  .ok { parse with pending := some (switch, none) }

/-- An argument that is no switch: the file, which is given once. -/
def file (parse : Parse) (argument : String) : Except Interrupt Parse :=
  if parse.given.file.isSome then .error (.usage (.unexpectedArgument argument))
  else do
    let parse ← parse.settle
    .ok { parse with given := { parse.given with file := some argument } }

/-- A switch by its long name, and what stands behind the equals sign. -/
def long (parse : Parse) (subcommand : Option Subcommand) (name : String)
    (value : Option String) : Except Interrupt Parse :=
  match (switchesOf subcommand).find? fun switch => switch.longName == name with
  | none => .error (.usage (.unknownSwitch name subcommand))
  | some switch =>
    match switch.takesValue, value with
    | true, some value => parse.accept switch (some value)
    | true, none => parse.await switch
    | false, some value => .error (.usage (.unexpectedValue value switch))
    | false, none => parse.accept switch none

/-- The value behind a letter, if there is one. -/
def attached? : List Char → Option String
  | [] => none
  | '=' :: value => some (String.ofList value)
  | value => some (String.ofList value)

/-- Switches by their letters; the first that takes a value takes what is left. -/
def letters (parse : Parse) (switches : List Switch) : List Char → Except Interrupt Parse
  | [] => .ok parse
  | c :: rest =>
    match switches.find? fun switch => switch.letter? == some c with
    | none => .error (.usage (.unexpectedArgument (String.ofList ['-', c])))
    | some switch =>
      if switch.takesValue then
        match attached? rest with
        | some value => parse.accept switch (some value)
        | none => parse.await switch
      else
        match parse.accept switch none with
        | .ok parse => letters parse switches rest
        | .error interrupt => .error interrupt

/-- A long switch taken apart at the equals sign. -/
def splitLong (characters : List Char) : String × Option String :=
  let name := String.ofList (characters.takeWhile (· != '='))
  match characters.dropWhile (· != '=') with
  | [] => (name, none)
  | _ :: value => (name, some (String.ofList value))

def argument (subcommand : Option Subcommand) (parse : Parse) (argument : String) :
    Except Interrupt Parse :=
  if parse.ended then parse.file argument
  else
    match argument.toList with
    | ['-', '-'] => .ok { parse with ended := true }
    | '-' :: '-' :: characters =>
      let (name, value) := splitLong characters
      parse.long subcommand name value
    | '-' :: c :: rest => parse.letters (switchesOf subcommand) (c :: rest)
    | _ =>
      match parse.pending with
      | some (switch, none) => .ok { parse with pending := some (switch, some argument) }
      | _ => parse.file argument

end Parse

/-- The arguments of a subcommand. -/
def parseSubcommand (subcommand : Subcommand) (arguments : List String) :
    Except Interrupt Command := do
  let parse ← arguments.foldlM (Parse.argument (some subcommand)) .start
  let parse ← parse.settle
  parse.given.command subcommand

/-- Whether a name stands for a subcommand, `help` among them. -/
def isSubcommandName (s : String) : Bool := s == "help" || (Subcommand.ofName? s).isSome

/-- The arguments of `help` name a subcommand, if any. -/
def parseHelp : List String → Interrupt
  | [] => .help
  | name :: rest =>
    if isSubcommandName name then
      match rest with
      | [] => .help
      | extra :: _ => .usage (.unrecognizedSubcommand extra)
    else .usage (.unrecognizedSubcommand name)

/-- An argument in front of the subcommand that begins with a hyphen. -/
def parseLeading (argument : String) : Interrupt :=
  match Parse.argument none .start argument with
  | .error interrupt => interrupt
  | .ok _ => .noCommand

/-- Whether an argument is read as switches. -/
def isSwitch (argument : String) : Bool :=
  match argument.toList with
  | '-' :: _ :: _ => true
  | _ => false

/-- The command that the arguments stand for. -/
def parse : List String → Except Interrupt Command
  | [] => .error .noCommand
  | ["--"] => .error .noCommand
  | "--" :: argument :: _ =>
    .error <| .usage <|
      if isSubcommandName argument then .unexpectedArgument argument
      else .unrecognizedSubcommand argument
  | first :: rest =>
    if isSwitch first then .error (parseLeading first)
    else if first == "help" then .error (parseHelp rest)
    else
      match Subcommand.ofName? first with
      | some subcommand => parseSubcommand subcommand rest
      | none => .error (.usage (.unrecognizedSubcommand first))

end SicMachine.CommandLine
