import SicMachine.Word
import SicMachine.Text.Digits

/-!
The five registers of the machine and the condition codes kept in the status
word. A register is read as it stands and written with the low 24 bits of a
value, so registers that start in range stay in range.
-/
namespace SicMachine

inductive Register where
  | a
  | x
  | l
  | pc
  | sw
  deriving DecidableEq, Repr

namespace Register

/-- Every register, in the order in which register files are written. -/
def all : List Register := [a, x, l, pc, sw]

def name : Register → String
  | a => "A"
  | x => "X"
  | l => "L"
  | pc => "PC"
  | sw => "SW"

/-- The place of a register in `all`. -/
def index : Register → Nat
  | a => 0
  | x => 1
  | l => 2
  | pc => 3
  | sw => 4

/-- The register of that name, whatever the case of its ASCII letters. -/
def ofName? (s : String) : Option Register :=
  all.find? fun register => register.name.toList == s.toList.map Char.toUpper

end Register

/-- A name that belongs to no register. -/
structure UnknownRegister where
  name : String
  deriving DecidableEq, Repr

def UnknownRegister.message (error : UnknownRegister) : String :=
  "unknown register: " ++ error.name

/-- How the last comparison came out. -/
inductive ConditionCode where
  | less
  | equal
  | greater
  deriving DecidableEq, Repr

namespace ConditionCode

def all : List ConditionCode := [less, equal, greater]

def name : ConditionCode → String
  | less => "Less"
  | equal => "Equal"
  | greater => "Greater"

def compare (left right : Nat) : ConditionCode :=
  if left < right then less else if left = right then equal else greater

/-- The status word of a condition: the character code of its sign. -/
def toWord : ConditionCode → Nat
  | less => 0x3C
  | equal => 0x3D
  | greater => 0x3E

/-- Any status word other than the three signs holds no condition. -/
def ofWord? (word : Nat) : Option ConditionCode :=
  if word = 0x3C then some less
  else if word = 0x3D then some equal
  else if word = 0x3E then some greater
  else none

theorem toWord_lt (cc : ConditionCode) : cc.toWord < wordLimit := by
  cases cc <;> decide

theorem ofWord?_toWord (cc : ConditionCode) : ofWord? cc.toWord = some cc := by
  cases cc <;> rfl

theorem ofWord?_eq_some_iff {word : Nat} {cc : ConditionCode} :
    ofWord? word = some cc ↔ word = cc.toWord := by
  constructor
  · intro h
    unfold ofWord? at h
    split at h
    · cases h
      assumption
    · split at h
      · cases h
        assumption
      · split at h <;> cases h
        assumption
  · rintro rfl
    exact ofWord?_toWord cc

end ConditionCode

/-- The values of the five registers. -/
structure Registers where
  a : Nat
  x : Nat
  l : Nat
  pc : Nat
  sw : Nat
  deriving DecidableEq, Repr

namespace Registers

/-- All registers at zero, as after power-up. -/
def zero : Registers := ⟨0, 0, 0, 0, 0⟩

/-- Every register holds a word. -/
def InRange (r : Registers) : Prop :=
  r.a < wordLimit ∧ r.x < wordLimit ∧ r.l < wordLimit ∧ r.pc < wordLimit ∧ r.sw < wordLimit

instance (r : Registers) : Decidable r.InRange := by unfold InRange; infer_instance

def get (r : Registers) : Register → Nat
  | .a => r.a
  | .x => r.x
  | .l => r.l
  | .pc => r.pc
  | .sw => r.sw

/-- Writes the low 24 bits of a value. -/
def set (r : Registers) (register : Register) (value : Nat) : Registers :=
  match register with
  | .a => { r with a := wrap value }
  | .x => { r with x := wrap value }
  | .l => { r with l := wrap value }
  | .pc => { r with pc := wrap value }
  | .sw => { r with sw := wrap value }

theorem get_set (r : Registers) (written read : Register) (value : Nat) :
    (r.set written value).get read = if written = read then wrap value else r.get read := by
  cases written <;> cases read <;> rfl

theorem InRange.set {r : Registers} (h : r.InRange) (register : Register) (value : Nat) :
    (r.set register value).InRange := by
  obtain ⟨ha, hx, hl, hpc, hsw⟩ := h
  cases register <;> simp [Registers.set, InRange, wrap_lt, *]

def getNamed (r : Registers) (name : String) : Except UnknownRegister Nat :=
  match Register.ofName? name with
  | some register => .ok (r.get register)
  | none => .error ⟨name⟩

def setNamed (r : Registers) (name : String) (value : Nat) : Except UnknownRegister Registers :=
  match Register.ofName? name with
  | some register => .ok (r.set register value)
  | none => .error ⟨name⟩

/-- The values in the order of `Register.all`. -/
def toList (r : Registers) : List Nat := Register.all.map r.get

/-- The condition that the status word holds, if it holds one. -/
def conditionCode? (r : Registers) : Option ConditionCode := ConditionCode.ofWord? r.sw

def setConditionCode (r : Registers) (cc : ConditionCode) : Registers := r.set .sw cc.toWord

/-- An indexed address is moved on by X. The sum may lie outside memory, where the access that
uses it fails, and stops at the largest 32-bit number. -/
def effectiveAddress (r : Registers) (address : Nat) (indexed : Bool) : Nat :=
  if indexed then min (address + r.x) (wideLimit - 1) else address

/-- All registers on one line. -/
def text (r : Registers) : String :=
  " ".intercalate (Register.all.map fun register =>
    register.name ++ "=" ++ Text.hex 6 (r.get register))

/-- All registers as a named record. -/
def recordText (r : Registers) : String :=
  "Registers \x7b " ++ ", ".intercalate (Register.all.map fun register =>
    register.name ++ ": " ++ Text.hex 6 (r.get register)) ++ " \x7d"

end Registers

end SicMachine
