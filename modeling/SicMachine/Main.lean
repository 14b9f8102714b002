import SicMachine.CommandLine.Report

/-!
The program: reads the arguments and the file that they name, and prints the
report.
-/
namespace SicMachine.CommandLine

/-- The text of a file, or why there is none. -/
def readTextFile (path : String) : IO (Except FileError String) := do
  try
    let bytes ← IO.FS.readBinFile path
    return TextFile.decode bytes
  catch error =>
    match error with
    | .noFileOrDirectory .. => return .error .missing
    | .inappropriateType (some _) .. => return .error .notDirectory
    | .inappropriateType none .. => return .error .isDirectory
    | .invalidArgument .. => return .error .nameTooLong
    | error => return .error (.other (toString error))

/-- The report of the command that the arguments stand for. -/
def reportOf (arguments : List String) : IO Report :=
  match parse arguments with
  | .error interrupt => return interrupt.report
  | .ok command => return command.execute (← readTextFile command.path)

end SicMachine.CommandLine

def main (arguments : List String) : IO UInt32 := do
  let report ← SicMachine.CommandLine.reportOf arguments
  for line in report.output do
    IO.println line
  for line in report.errors do
    IO.eprintln line
  return report.exitCode.toUInt32
