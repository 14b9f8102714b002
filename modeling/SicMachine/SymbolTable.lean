import SicMachine.InPlace
import SicMachine.LabelMap
import SicMachine.Text.UpperCase

/-!
The symbol table of an assembly. Labels are kept in upper case and each is
defined at most once.
-/
namespace SicMachine

structure SymbolTable where
  labels : LabelMap
  deriving DecidableEq

namespace SymbolTable

inductive Error where
  | duplicate (label : String)
  | undefined (label : String)
  deriving DecidableEq, Repr

def Error.message : Error → String
  | .duplicate label => "duplicate symbol found: " ++ label
  | .undefined label => "undefined symbol: " ++ label

def empty : SymbolTable := ⟨.empty⟩

def size (table : SymbolTable) : Nat := table.labels.size

/-- The address of a label in any case. -/
def find? (table : SymbolTable) (label : String) : Option Nat :=
  table.labels.find? (Text.upperCase label)

def has (table : SymbolTable) (label : String) : Bool := (table.find? label).isSome

/-- The address of a label in any case; the error names the label as it was asked for. -/
def get (table : SymbolTable) (label : String) : Except Error Nat :=
  match table.find? label with
  | some address => .ok address
  | none => .error (.undefined label)

/-- Defines a label that is not yet defined. -/
def add (table : SymbolTable) (label : String) (address : Nat) : Except Error SymbolTable :=
  let upper := Text.upperCase label
  if (table.labels.find? upper).isSome then .error (.duplicate upper)
  else .ok ⟨table.labels.insert upper address⟩

/-- Defines a label in place. -/
def define (label : String) (address : Nat) : InPlace Error SymbolTable Unit := do
  let upper := Text.upperCase label
  let table ← getThe SymbolTable
  if (table.labels.find? upper).isSome then throw (.duplicate upper)
  else modify fun table => ⟨table.labels.insert upper address⟩

/-- A label is looked up before it is put into the table. -/
theorem performs_define (label : String) (address : Nat) :
    InPlace.Performs (define label address) fun table => table.add label address := by
  intro table
  show InPlace.on (if (table.labels.find? (Text.upperCase label)).isSome then _ else _) table =
    InPlace.settle table (table.add label address)
  unfold add
  by_cases h : (table.labels.find? (Text.upperCase label)).isSome
  · simp only [h, if_true]
    rfl
  · simp only [h, Bool.false_eq_true, if_false]
    rfl

/-- Lower addresses come first, and labels of one address in their own order. -/
def precedes (left right : String × Nat) : Bool :=
  left.2 < right.2 || (left.2 == right.2 && left.1 ≤ right.1)

/-- All symbols by address and then by label. -/
def entries (table : SymbolTable) : List (String × Nat) :=
  table.labels.bindings.mergeSort precedes

end SymbolTable

end SicMachine
