/-!
Text files: UTF-8 bytes, and the lines of a text. A line ends at a line feed,
and a carriage return right before it belongs to the end. The text behind the
last line feed is a line of its own unless it is empty.
-/
namespace SicMachine

/-- Why a file gives no text. -/
inductive FileError where
  | missing
  /-- A file stands where the path needs a directory. -/
  | notDirectory
  /-- The path leads to a directory. -/
  | isDirectory
  /-- The path or one of its names is too long. -/
  | nameTooLong
  | notText
  | other (description : String)
  deriving DecidableEq, Repr

def FileError.message : FileError → String
  | .missing => "No such file or directory (os error 2)"
  | .notDirectory => "Not a directory (os error 20)"
  | .isDirectory => "Is a directory (os error 21)"
  | .nameTooLong => "File name too long (os error 36)"
  | .notText => "stream did not contain valid UTF-8"
  | .other description => description

namespace TextFile

def decode (bytes : ByteArray) : Except FileError String :=
  match String.fromUTF8? bytes with
  | some text => .ok text
  | none => .error .notText

/-- A line without the carriage return at its end; its characters come last first. -/
def endLine : List Char → String
  | '\r' :: done => String.ofList done.reverse
  | done => String.ofList done.reverse

/-- Continues with a text after the lines and characters already read, last first. -/
def linesFrom (lines : List String) : List Char → List Char → List String
  | [], [] => lines.reverse
  | done, [] => (String.ofList done.reverse :: lines).reverse
  | done, '\n' :: rest => linesFrom (endLine done :: lines) [] rest
  | done, c :: rest => linesFrom lines (c :: done) rest

def lines (text : String) : List String := linesFrom [] [] text.toList

end TextFile

end SicMachine
