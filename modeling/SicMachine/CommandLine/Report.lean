import SicMachine.CommandLine.Arguments
import SicMachine.FileTree
import SicMachine.Machine.Trace
import SicMachine.Snapshot

/-!
Executing a command on the contents of its file: what is printed, and the exit
code. A run prints its registers whether or not it failed, and the dump only
when it did not. The log of events, which goes to standard error beside the
messages for the user, is no part of a report.
-/
namespace SicMachine.CommandLine

/-- The exit code of a command, and what it prints for the user and about errors. -/
structure Report where
  exitCode : Nat
  output : List String
  errors : List String
  deriving DecidableEq, Repr

namespace Report

def success (output : List String) : Report := ⟨0, output, []⟩

def failure (output : List String) (error : String) : Report := ⟨1, output, ["❌ " ++ error]⟩

/-- Lines as text, each ended by a line feed. -/
def text (lines : List String) : String := String.join (lines.map (· ++ "\n"))

end Report

/-- Why an image cannot be loaded from a file. -/
inductive ImageError where
  | unreadable (error : FileError)
  | malformed (failure : Json.Failure)
  deriving DecidableEq, Repr

def ImageError.message : ImageError → String
  | .unreadable error => "I/O error: " ++ error.message
  | .malformed .malformed => "malformed image: the text is no JSON of an image"
  | .malformed (.mismatch cause) => "malformed image: " ++ cause.message

def loadImage (content : Except FileError String) : Except ImageError Image :=
  match content with
  | .error error => .error (.unreadable error)
  | .ok text => (Image.ofJson text).mapError .malformed

/-- The command goes on with the image, or reports why there is none. -/
def withImage (content : Except FileError String) (use : Image → Report) : Report :=
  match loadImage content with
  | .error error => .failure [] ("Failed to load image: " ++ error.message)
  | .ok image => use image

/-- The registers after a run, below the number of executed instructions. -/
def resultLines (registers : Registers) (executed : Nat) : List String :=
  ["", "━━━ Result ━━━", "Steps: " ++ toString executed] ++
    Register.all.map fun register =>
      Text.padRight 3 register.name ++ " " ++ Text.hex 6 (registers.get register)

def dumpLines (memory : Memory) (dump : DumpRange) : List String :=
  "" :: (memory.dumpWords dump.address dump.count).map fun entry =>
    Text.hex 6 entry.1 ++ ": " ++ Text.hex 6 entry.2

def loadedLine (image : Image) : String :=
  "📂 Loaded " ++ toString image.words.length ++ " words at " ++ Text.hex 6 image.startAddress

/-- Runs an image on a fresh machine. -/
def runImage (steps : Nat) (trace : Bool) (dump : Option DumpRange) (image : Image) : Report :=
  match Machine.zero.loadImage image with
  | .error error => .failure [loadedLine image] ("Failed to load program: " ++ error.message)
  | .ok machine =>
    let run := machine.trace trace steps
    let output :=
      loadedLine image :: run.entries.map TraceEntry.row ++
        resultLines run.machine.registers run.executed
    match run.fault with
    | some (pc, fault) =>
      .failure output ("CPU error at PC=" ++ Text.hex 6 pc ++ ": " ++ fault.message)
    | none => .success (output ++ (dump.map (dumpLines run.machine.memory)).getD [])

open Json in
/-- The results of an assembly as one object, with the members of each object in order. -/
def assemblyTokens (symbols : SymbolTable) (summary : PassOne.Summary) : List Token :=
  objectTokens [
    ("result", objectTokens [
      ("execution_start_address", [Token.ofNat summary.executionStart]),
      ("program_length", [Token.ofNat summary.programLength]),
      ("program_name", optionalTokens (fun name => [Token.ofString name]) summary.programName),
      ("start_address", [Token.ofNat summary.startAddress])]),
    ("symbols", objectTokens (symbols.labels.bindings.map fun binding =>
      (binding.1, [Token.ofNat binding.2])))]

/-- The results of an assembly as a listing. -/
def assemblyLines (symbols : SymbolTable) (summary : PassOne.Summary) : List String :=
  ["Program:  " ++ summary.programName.getD "(unnamed)",
    "Start:    " ++ Text.hex 6 summary.startAddress,
    "Length:   " ++ Text.hex 6 summary.programLength,
    "Entry:    " ++ Text.hex 6 summary.executionStart,
    "",
    "━━━ SYMTAB ━━━"] ++
    symbols.entries.map fun entry => Text.padRight 8 entry.1 ++ " " ++ Text.hex 6 entry.2

/-- Runs Pass One over the lines of a source file. -/
def assemble (json : Bool) (content : Except FileError String) : Report :=
  match content with
  | .error error => .failure [] ("Failed to read file: " ++ error.message)
  | .ok text =>
    match PassOne.run (TextFile.lines text) with
    | .error error => .failure [] ("Assembly error: " ++ error.message)
    | .ok (symbols, summary) =>
      .success <|
        if json then [Json.pretty (assemblyTokens symbols summary)]
        else assemblyLines symbols summary

/-- What a command does with the contents of its file. -/
def Command.execute (command : Command) (content : Except FileError String) : Report :=
  match command with
  | .run _ steps trace dump => withImage content (runImage steps trace dump)
  | .passOne _ json => assemble json content
  | .disassemble _ =>
    withImage content fun image => .success [Disassembly.listing image.startAddress image.words]

/-- What is printed when there is no command to execute. -/
def Interrupt.report : Interrupt → Report
  | .version => .success [versionText]
  | .help => .success helpLines
  | .noCommand => ⟨2, [], helpLines⟩
  | .usage error => ⟨2, [], [error.text]⟩

/-- What the program does with its arguments in a tree of files. -/
def reportIn (tree : FileTree ByteArray) (arguments : List String) : Report :=
  match parse arguments with
  | .error interrupt => interrupt.report
  | .ok command => command.execute ((tree.find command.path).bind TextFile.decode)

end SicMachine.CommandLine
