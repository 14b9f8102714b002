import SicMachine.PassOne
import Mathlib.Algebra.Ring.Nat

/-!
What an assembly source means, said without reading it in order. The
statements that count end with the first END. Each takes up a number of bytes
of its own, so the address of a statement is the start address and the bytes
of all statements before it, and a label stands for the address of its
statement.
-/
namespace SicMachine

namespace Statement

/-- The directive that a statement is, if it is one. -/
def directive? (s : Statement) : Option Directive := s.mnemonic.bind Directive.ofName?

theorem directive?_eq_some_iff {s : Statement} {directive : Directive} :
    s.directive? = some directive ↔
      ∃ mnemonic, s.mnemonic = some mnemonic ∧ directive.name = Text.upperCase mnemonic := by
  simp only [directive?, Option.bind_eq_some_iff, Directive.ofName?_eq_some_iff]

/-- There is a mnemonic, and in upper case it names a directive or an instruction. -/
def Known (s : Statement) : Prop :=
  ∃ mnemonic, s.mnemonic = some mnemonic ∧
    ((∃ directive : Directive, directive.name = Text.upperCase mnemonic) ∨
      ∃ instruction : Mnemonic, instruction.name = Text.upperCase mnemonic)

/-- The operand as a hexadecimal address inside memory. -/
def address? (s : Statement) : Option Nat :=
  s.operand.bind fun operand =>
    (Text.readNumeral 16 wideLimit operand.toList).toOption.filter (· < memorySize)

/-- A directive other than END has an operand from which its bytes can be told. -/
def Sized (s : Statement) : Prop :=
  ∀ directive, s.directive? = some directive → directive ≠ .finish →
    ∃ bytes, directive.size s.operand = .ok bytes

/-- The bytes that a statement takes up. -/
def bytes (s : Statement) : Nat :=
  match s.directive? with
  | some directive => (directive.size s.operand).toOption.getD 0
  | none => wordBytes

/-- The label as it stands in a symbol table. -/
def key? (s : Statement) : Option String := s.label.map Text.upperCase

theorem known_of_directive {s : Statement} {directive : Directive}
    (h : s.directive? = some directive) : s.Known := by
  obtain ⟨mnemonic, hmnemonic, hname⟩ := directive?_eq_some_iff.1 h
  exact ⟨mnemonic, hmnemonic, Or.inl ⟨directive, hname⟩⟩

theorem sized_of_finish {s : Statement} (h : s.directive? = some .finish) : s.Sized := by
  intro directive hsome hother
  rw [h] at hsome
  cases hsome
  exact absurd rfl hother

theorem bytes_of_finish {s : Statement} (h : s.directive? = some .finish) : s.bytes = 0 := by
  rw [bytes, h]
  rfl

end Statement

namespace Source

/-- The statements up to the first END, and that END. -/
def upToFinish : List Statement → List Statement
  | [] => []
  | s :: rest => if s.directive? = some .finish then [s] else s :: upToFinish rest

/-- The statements of a source that count. -/
def statements (lines : List String) : List Statement :=
  upToFinish (lines.filterMap Statement.parse)

/-- The bytes of all statements together. -/
def extent (S : List Statement) : Nat := (S.map Statement.bytes).sum

/-- The labels of all statements, as they stand in a symbol table. -/
def keys (S : List Statement) : List String := S.filterMap Statement.key?

/-- The start address: a START in front gives it, otherwise it is zero. -/
def origin : List Statement → Nat
  | [] => 0
  | s :: _ => if s.directive? = some .start then s.address?.getD 0 else 0

/-- The label of a START in front. -/
def title? : List Statement → Option String
  | [] => none
  | s :: _ => if s.directive? = some .start then s.key? else none

/-- The operand of END. -/
def finishLabel? (S : List Statement) : Option String :=
  (S.find? fun s => s.directive? = some .finish).bind Statement.operand

/-- Statements laid out from a location on bind a label to an address. -/
def Binds (location : Nat) (S : List Statement) (key : String) (address : Nat) : Prop :=
  ∃ before s after, S = before ++ s :: after ∧ s.key? = some key ∧
    address = location + extent before

/-- The sources that can be assembled. -/
structure Acceptable (S : List Statement) : Prop where
  known : ∀ s ∈ S, s.Known
  /-- START comes first or not at all. -/
  startFirst : ∀ s ∈ S.tail, s.directive? ≠ some .start
  startAddress : ∀ s ∈ S.head?, s.directive? = some .start → s.address?.isSome
  sized : ∀ s ∈ S, s.Sized
  distinct : (keys S).Nodup
  /-- No statement goes beyond memory. -/
  fits : ∀ count, origin S + extent (S.take count) ≤ memorySize
  /-- The operand of END is a label. -/
  entry : ∀ operand, finishLabel? S = some operand → Text.upperCase operand ∈ keys S

/-- What the assembly of a source finds out. -/
structure Layout (S : List Statement) (table : SymbolTable) (summary : PassOne.Summary) :
    Prop where
  symbols : ∀ key address, table.labels.find? key = some address ↔ Binds (origin S) S key address
  programName : summary.programName = title? S
  startAddress : summary.startAddress = origin S
  programLength : summary.programLength = extent S
  /-- Execution starts at the label that END names, or else at the start address. -/
  executionStart :
    (∀ operand, finishLabel? S = some operand →
      Binds (origin S) S (Text.upperCase operand) summary.executionStart) ∧
    (finishLabel? S = none → summary.executionStart = origin S)

theorem extent_cons (s : Statement) (rest : List Statement) :
    extent (s :: rest) = s.bytes + extent rest := by
  rw [extent, List.map_cons, List.sum_cons]
  rfl

theorem extent_append (before after : List Statement) :
    extent (before ++ after) = extent before + extent after := by
  rw [extent, List.map_append, List.sum_append]
  rfl

theorem mem_keys_cons_iff {s : Statement} {rest : List Statement} {key : String} :
    key ∈ keys (s :: rest) ↔ s.key? = some key ∨ key ∈ keys rest := by
  simp [keys, List.mem_filterMap]

theorem nodup_keys_cons_iff {s : Statement} {rest : List Statement} :
    (keys (s :: rest)).Nodup ↔
      (∀ key, s.key? = some key → key ∉ keys rest) ∧ (keys rest).Nodup := by
  unfold keys
  cases hkey : s.key? with
  | none => simp [hkey]
  | some key => simp [hkey]

theorem mem_keys_iff {S : List Statement} {key : String} :
    key ∈ keys S ↔ ∃ s ∈ S, s.key? = some key := by
  rw [keys, List.mem_filterMap]

theorem binds_cons_iff {location : Nat} {s : Statement} {rest : List Statement} {key : String}
    {address : Nat} :
    Binds location (s :: rest) key address ↔
      (s.key? = some key ∧ address = location) ∨ Binds (location + s.bytes) rest key address := by
  constructor
  · intro h
    obtain ⟨before, t, after, hsplit, hkey, haddress⟩ := h
    cases before with
    | nil =>
      cases hsplit
      exact Or.inl ⟨hkey, haddress⟩
    | cons first before =>
      cases hsplit
      rw [extent_cons] at haddress
      exact Or.inr ⟨before, t, after, rfl, hkey, by omega⟩
  · intro h
    rcases h with ⟨hkey, haddress⟩ | ⟨before, t, after, hsplit, hkey, haddress⟩
    · exact ⟨[], s, rest, rfl, hkey, haddress⟩
    · refine ⟨s :: before, t, after, by rw [hsplit]; rfl, hkey, ?_⟩
      rw [extent_cons]
      omega

theorem key_of_binds {location : Nat} {S : List Statement} {key : String} {address : Nat}
    (h : Binds location S key address) : key ∈ keys S := by
  obtain ⟨before, s, after, rfl, hkey, -⟩ := h
  exact mem_keys_iff.2 ⟨s, by simp, hkey⟩

theorem exists_binds {location : Nat} {S : List Statement} {key : String} (h : key ∈ keys S) :
    ∃ address, Binds location S key address := by
  obtain ⟨s, hs, hkey⟩ := mem_keys_iff.1 h
  obtain ⟨before, after, rfl⟩ := List.append_of_mem hs
  exact ⟨_, before, s, after, rfl, hkey, rfl⟩

/-- The room that all statements need is enough for the first of them. -/
theorem fits_take_iff {location : Nat} {S : List Statement} :
    (∀ count, location + extent (S.take count) ≤ memorySize) ↔
      location + extent S ≤ memorySize := by
  constructor
  · intro h
    have hall := h S.length
    rwa [List.take_length] at hall
  · intro h count
    have hsplit : extent (S.take count) + extent (S.drop count) = extent S := by
      rw [← extent_append, List.take_append_drop]
    omega

end Source

end SicMachine
