import SicMachine.Json.Printer
import SicMachine.Json.Record

/-!
A codec writes the values of a type as JSON and reads them back.
-/
namespace SicMachine.Json

structure Codec (α : Type) where
  tokens : α → List Token
  reader : Reader α

namespace Codec

def encode {α : Type} (codec : Codec α) (value : α) : String := compact (codec.tokens value)

/-- The layout with one member or element to a line. -/
def encodePretty {α : Type} (codec : Codec α) (value : α) : String := pretty (codec.tokens value)

def decode {α : Type} (codec : Codec α) (text : String) : Except Failure α :=
  codec.reader.readText text

/-- The text of the value that a text stands for. -/
def normalize {α : Type} (codec : Codec α) (text : String) : Except Failure String :=
  (codec.decode text).map codec.encode

/-- Variants written by name. -/
def ofVariants {α : Type} (name : α → String) (all : List α) : Codec α where
  tokens value := [Token.ofString (name value)]
  reader := .variant name all

end Codec

/-- The tokens of a value that may be absent. -/
def optionalTokens {α : Type} (tokens : α → List Token) : Option α → List Token
  | some value => tokens value
  | none => [.null]

end SicMachine.Json
