import SicMachine.CommandLine.DumpRange
import SicMachine.Text.Plain
import SicMachine.Text.Similar

/-!
What the command line offers: three subcommands with their switches, and the
errors of arguments that do not fit. A message that repeats an argument shows
it as plain text, and a sequence left open in the argument does not reach
beyond it.
-/
namespace SicMachine.CommandLine

def programName : String := "sic-emu"

def versionText : String := programName ++ " 0.1.0"

inductive Subcommand where
  | run
  | passOne
  | disassemble
  deriving DecidableEq, Repr

namespace Subcommand

def all : List Subcommand := [run, passOne, disassemble]

def name : Subcommand → String
  | run => "run"
  | passOne => "pass1"
  | disassemble => "disasm"

/-- The name of the file argument. -/
def fileName : Subcommand → String
  | passOne => "SOURCE"
  | _ => "IMAGE"

def ofName? (s : String) : Option Subcommand := all.find? fun subcommand => subcommand.name == s

end Subcommand

inductive Switch where
  | steps
  | trace
  | dump
  | json
  | help
  | version
  deriving DecidableEq, Repr

namespace Switch

def longName : Switch → String
  | steps => "steps"
  | trace => "trace"
  | dump => "dump"
  | json => "json"
  | help => "help"
  | version => "version"

def letter? : Switch → Option Char
  | steps => some 's'
  | trace => some 't'
  | dump => some 'd'
  | json => none
  | help => some 'h'
  | version => some 'V'

/-- The name of the value that the switch takes, if it takes one. -/
def valueName? : Switch → Option String
  | steps => some "STEPS"
  | dump => some "DUMP"
  | _ => none

def takesValue (switch : Switch) : Bool := switch.valueName?.isSome

/-- The switch as it is named in messages. -/
def display (switch : Switch) : String :=
  "--" ++ switch.longName ++
    match switch.valueName? with
    | some value => " <" ++ value ++ ">"
    | none => ""

end Switch

def Subcommand.switches : Subcommand → List Switch
  | run => [.steps, .trace, .dump, .help]
  | passOne => [.json, .help]
  | disassemble => [.help]

/-- The switches in front of the subcommand. -/
def leadingSwitches : List Switch := [.help, .version]

/-- The switches behind a subcommand, or in front of it. -/
def switchesOf (subcommand : Option Subcommand) : List Switch :=
  (subcommand.map Subcommand.switches).getD leadingSwitches

inductive UsageError where
  | unrecognizedSubcommand (argument : String)
  | unexpectedArgument (argument : String)
  /-- A long switch that is not known there. -/
  | unknownSwitch (name : String) (subcommand : Option Subcommand)
  | unexpectedValue (value : String) (switch : Switch)
  | repeated (switch : Switch)
  | valueRequired (switch : Switch)
  | invalidValue (value : String) (switch : Switch) (reason : String)
  | missingFile
  deriving DecidableEq, Repr

namespace UsageError

/-- What may have been meant by an unknown switch, in stretches: a known switch with a similar
name, or else the file of a subcommand. -/
def advice (name : String) (subcommand : Option Subcommand) : List String :=
  match (switchesOf subcommand).find? fun switch => Text.isSimilar name switch.longName with
  | some switch =>
    ["\n\n  ", "tip:", " a similar argument exists: '", "--" ++ switch.longName, "'"]
  | none =>
    if subcommand.isNone then []
    else
      ["\n\n  ", "tip:", " to pass '", "--" ++ name, "' as a value, use '", "-- --" ++ name, "'"]

/-- The message in stretches that are set off from each other. -/
def stretches : UsageError → List String
  | unrecognizedSubcommand argument => ["unrecognized subcommand '", argument, "'"]
  | unexpectedArgument argument => ["unexpected argument '", argument, "' found"]
  | unknownSwitch name subcommand =>
    ["unexpected argument '", "--" ++ name, "' found"] ++ advice name subcommand
  | unexpectedValue value switch =>
    ["unexpected value '", value, "' for '", switch.display, "' found; no more were expected"]
  | repeated switch => ["the argument '", switch.display, "' cannot be used multiple times"]
  | valueRequired switch =>
    ["a value is required for '", switch.display, "' but none was supplied"]
  | invalidValue value switch reason =>
    ["invalid value '", value, "' for '", switch.display, "': " ++ reason]
  | missingFile => ["the following required arguments were not provided:"]

/-- Appends to the last of the stretches. -/
def extendLast (tail : String) : List String → List String
  | [] => [tail]
  | [last] => [last ++ tail]
  | first :: rest => first :: extendLast tail rest

/-- The text of the error as it is displayed, with a hint where to read more. -/
def text (error : UsageError) : String :=
  let shown := extendLast "\n\nFor more information, try '" error.stretches ++ ["--help", "'."]
  "error: " ++ String.join (shown.map Text.plain)

end UsageError

/-- Why arguments end without a command to execute. -/
inductive Interrupt where
  | version
  /-- Help is asked for. -/
  | help
  /-- No subcommand is named. -/
  | noCommand
  | usage (error : UsageError)
  deriving DecidableEq, Repr

/-- A summary of the command line. -/
def helpLines : List String :=
  ["Usage: " ++ programName ++ " <COMMAND>", "", "Commands:"] ++
    Subcommand.all.map fun subcommand =>
      "  " ++ subcommand.name ++ " [OPTIONS] <" ++ subcommand.fileName ++ ">"

end SicMachine.CommandLine
