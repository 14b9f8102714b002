import SicMachine.Json.Codec
import SicMachine.SymbolTable
import SicMachine.Machine.InPlace

/-!
Program images: the words of a program, the address of the first of them, the
address at which execution begins, and the symbols of the assembly. Words may
be wider than 24 bits; loading wraps them. Labels stand as they were written
into the image, and a look-up asks for the upper-case form of a label.
-/
namespace SicMachine

structure Image where
  startAddress : Nat
  /-- The address at which execution begins, unless it is the start address. -/
  entry : Option Nat
  words : List Nat
  symbols : LabelMap
  deriving DecidableEq

namespace Image

def ofWords (startAddress : Nat) (words : List Nat) : Image := ⟨startAddress, none, words, .empty⟩

/-- The image with the symbols of an assembly. -/
def withSymbols (image : Image) (table : SymbolTable) : Image :=
  { image with symbols := .ofList table.entries }

def entryAddress (image : Image) : Nat := image.entry.getD image.startAddress

/-- The address recorded for the upper-case form of a label. -/
def symbol? (image : Image) (label : String) : Option Nat :=
  image.symbols.find? (Text.upperCase label)

open Json in
def tokens (image : Image) : List Token :=
  objectTokens <|
    [("start_address", [Token.ofNat image.startAddress])] ++
    (image.entry.map fun entry => ("entry", [Token.ofNat entry])).toList ++
    [("words", arrayTokens (image.words.map fun word => [Token.ofNat word]))] ++
    (if image.symbols.bindings.isEmpty then []
      else [("symbols", objectTokens (image.symbols.bindings.map fun binding =>
        (binding.1, [Token.ofNat binding.2])))])

open Json in
def record : Record Image where
  name := "ProgramImage"
  blank := ofWords 0 []
  fields := [
    .of "start_address" .required (.ofScalar Reader.wide) fun image startAddress =>
      { image with startAddress },
    .of "entry" .defaulted (.ofScalar (Reader.optional Reader.wide)) fun image entry =>
      { image with entry },
    .of "words" .required (.array Reader.wide) fun image words => { image with words },
    .of "symbols" .defaulted (.map Reader.wide) fun image bindings =>
      { image with symbols := .ofList bindings }]

def codec : Json.Codec Image := ⟨tokens, record.reader⟩

def ofJson (text : String) : Except Json.Failure Image := codec.decode text

def toJson (image : Image) : String := codec.encodePretty image

end Image

namespace Machine

/-- Loads the words of an image and points PC at its entry. -/
def loadImage (m : Machine) (image : Image) : Except Memory.Error Machine :=
  match m.loadProgram image.startAddress image.words with
  | .ok loaded => .ok { loaded with registers := loaded.registers.set .pc image.entryAddress }
  | .error error => .error error

def Loader.loadImage (image : Image) : Loader Unit := do
  loadProgram image.startAddress image.words
  inRegisters (modify fun registers => registers.set .pc image.entryAddress)

/-- PC is written once nothing can fail any more. -/
theorem performs_loadImage (image : Image) :
    InPlace.Performs (Loader.loadImage image) fun m => m.loadImage image := by
  have hentry : InPlace.Performs
      (inRegisters (modify fun registers => registers.set .pc image.entryAddress))
      fun loaded : Machine => (.ok
        { loaded with registers := loaded.registers.set .pc image.entryAddress } :
          Except Memory.Error Machine) := fun _ => rfl
  apply ((performs_loadProgram image.startAddress image.words).andThen hentry).congr
  intro m
  unfold loadImage
  cases m.loadProgram image.startAddress image.words with
  | ok loaded => rfl
  | error error => rfl

end Machine

end SicMachine
