import SicMachine.PassOne
import SicMachine.Text.Runs

/-!
Pass One for a source whose lines are given as runs of characters. Of a
constant only the length counts, so the assembly of a long constant writes
nothing out. Everything else is as for lines of text.
-/
namespace SicMachine

/-- A statement with its operand in runs. -/
structure LongStatement where
  label : Option String
  mnemonic : Option String
  operand : Option (List Text.Run)

namespace LongStatement

open Text Run

def written (text : List Run) : String := String.ofList (spell text)

def writtenOut (s : LongStatement) : Statement := ⟨s.label, s.mnemonic, s.operand.map written⟩

/-! ### Reading a line -/

def trimFront (text : List Run) : List Run := text.dropWhile fun run => isBlank run.char

/-- The first field of a text and what follows the white space behind it. -/
def splitField (text : List Run) : List Run × List Run :=
  let text := trimFront text
  (text.takeWhile fun run => !isBlank run.char,
    trimFront (text.dropWhile fun run => !isBlank run.char))

/-- The first character and what follows the quote behind it, if there is a quote. -/
def unquote? (text : List Run) : Option (Char × List Run) :=
  match pop text with
  | none => none
  | some (kind, rest) =>
    match pop rest with
    | some ('\'', rest) => some (kind, rest)
    | _ => none

/-- An operand in quotes, as for text. -/
def quotedOperand? (text : List Run) : Option (List Run) :=
  match unquote? text with
  | none => none
  | some (kind, rest) =>
    if kind.toNat < 0x80 ∧ rest.any fun run => run.char == '\'' then
      some (push kind (push '\'' (rest.takeWhile (fun run => run.char ≠ '\'') ++ [⟨'\'', 0⟩])))
    else none

/-- The operand at the front of what follows the mnemonic. -/
def operandField (text : List Run) : Option (List Run) :=
  match trimFront text with
  | [] => none
  | text => (quotedOperand? text).orElse fun _ => some (splitField text).1

/-- The mnemonic and the operand of what follows the label. -/
def ofFields (label : Option String) (text : List Run) : LongStatement :=
  let (mnemonic, rest) := splitField text
  { label
    mnemonic := if mnemonic.isEmpty then none else some (written mnemonic)
    operand := operandField rest }

def isComment (line : List Run) : Bool :=
  match trimFront line with
  | [] => true
  | run :: _ => run.char == '.'

/-- The statement on a line, if there is one. -/
def parse (line : List Run) : Option LongStatement :=
  if isComment line then none
  else
    let (first, rest) := splitField line
    let atMargin := !(line.head?.any fun run => isBlank run.char)
    if atMargin && !Statement.isKeyword (written first) then
      some (ofFields (some (written first)) rest)
    else some (ofFields none line)

variable {text rest : List Run} {kind : Char}

theorem spell_trimFront (text : List Run) :
    spell (trimFront text) = Statement.trimFront (spell text) :=
  spell_dropWhile isBlank text

theorem spell_splitField (text : List Run) :
    Statement.splitField (spell text) =
      (spell (splitField text).1, spell (splitField text).2) := by
  simp only [Statement.splitField, splitField, ← spell_trimFront,
    ← spell_takeWhile fun c => !isBlank c, ← spell_dropWhile fun c => !isBlank c]

theorem spell_of_unquote? (h : unquote? text = some (kind, rest)) :
    spell text = kind :: '\'' :: spell rest := by
  unfold unquote? at h
  split at h
  · cases h
  · next hpop =>
    split at h
    · next hmark =>
      cases h
      rw [spell_of_pop hpop, spell_of_pop hmark]
    · cases h

theorem spell_ne_of_unquote? (h : unquote? text = none) (kind : Char) (rest : List Char) :
    spell text ≠ kind :: '\'' :: rest := by
  intro hspell
  unfold unquote? at h
  cases hpop : pop text with
  | none =>
    rw [pop_eq_none_iff.1 hpop] at hspell
    cases hspell
  | some parts =>
    obtain ⟨first, behind⟩ := parts
    rw [spell_of_pop hpop, List.cons.injEq] at hspell
    cases hmark : pop behind with
    | none =>
      rw [pop_eq_none_iff.1 hmark] at hspell
      cases hspell.2
    | some parts =>
      obtain ⟨mark, more⟩ := parts
      rw [spell_of_pop hmark, List.cons.injEq] at hspell
      rw [hpop] at h
      simp only [hmark, hspell.2.1] at h
      cases h

theorem spell_quotedOperand? (text : List Run) :
    Statement.quotedOperand? (spell text) = (quotedOperand? text).map spell := by
  unfold quotedOperand?
  cases hquote : unquote? text with
  | none =>
    unfold Statement.quotedOperand?
    split
    · next hspell => exact absurd hspell (spell_ne_of_unquote? hquote _ _)
    · rfl
  | some parts =>
    obtain ⟨kind, rest⟩ := parts
    have hmem : (rest.any fun run => run.char == '\'') = true ↔ '\'' ∈ spell rest := by
      simp [mem_spell_iff]
    rw [spell_of_unquote? hquote]
    simp only [Statement.quotedOperand?, hmem]
    split
    · rw [Option.map_some, spell_push, spell_push, spell_append,
        spell_takeWhile fun c => decide (c ≠ '\'')]
      rfl
    · rfl

theorem spell_operandField (text : List Run) :
    Statement.operandField (spell text) = (operandField text).map spell := by
  unfold operandField Statement.operandField
  rw [← spell_trimFront]
  cases htrim : trimFront text with
  | nil => rfl
  | cons run rest =>
    obtain ⟨more, hspell⟩ : ∃ more, spell (run :: rest) = run.char :: more := ⟨_, rfl⟩
    simp only [hspell]
    rw [← hspell, spell_quotedOperand?, spell_splitField]
    cases quotedOperand? (run :: rest) <;> rfl

theorem writtenOut_ofFields (label : Option String) (text : List Run) :
    Statement.ofFields label (spell text) = (ofFields label text).writtenOut := by
  have hempty : (spell (splitField text).1).isEmpty = (splitField text).1.isEmpty := by
    rw [Bool.eq_iff_iff, List.isEmpty_iff, List.isEmpty_iff, spell_eq_nil_iff]
  simp only [Statement.ofFields, ofFields, writtenOut, spell_splitField, spell_operandField,
    Option.map_map, hempty]
  rfl

theorem isComment_spell (line : List Run) : Statement.isComment (spell line) = isComment line := by
  unfold isComment Statement.isComment
  rw [← spell_trimFront]
  cases trimFront line <;> rfl

/-- A line in runs is read as its text. -/
theorem parse_spell (line : List Run) :
    Statement.parse (written line) = (parse line).map writtenOut := by
  rw [Statement.parse, written, String.toList_ofList, Statement.parseChars, parse, isComment_spell,
    spell_splitField, head?_spell, Option.any_map]
  obtain ⟨first, rest⟩ := splitField line
  cases isComment line with
  | true => rfl
  | false =>
    have hwritten : ∀ text, String.ofList (spell text) = written text := fun _ => rfl
    simp only [Bool.false_eq_true, if_false, hwritten, writtenOut_ofFields]
    rw [apply_ite (Option.map writtenOut)]
    rfl

/-! ### Constants -/

/-- A constant in quotes: the letter of its kind and the text between the quotes. -/
def constant? (text : List Run) : Option (Char × List Run) :=
  match unquote? text with
  | none => none
  | some (kind, rest) =>
    match popLast rest with
    | some (body, '\'') => some (kind.toUpper, body)
    | _ => none

/-- The bytes of a constant, as for text. -/
def constantSize? (text : List Run) : Option Nat :=
  match constant? text with
  | none => none
  | some (kind, body) =>
    if kind = 'C' then some (total body % wideLimit)
    else if kind = 'X' ∧ body.all fun run => Directive.isHexDigit run.char then
      some (total body % wideLimit / 2)
    else none

theorem spell_constant? (text : List Run) :
    Directive.constant? (spell text) =
      (constant? text).map fun constant => (constant.1, spell constant.2) := by
  unfold constant?
  cases hquote : unquote? text with
  | none =>
    unfold Directive.constant?
    split
    · next hspell => exact absurd hspell (spell_ne_of_unquote? hquote _ _)
    · rfl
  | some parts =>
    obtain ⟨kind, rest⟩ := parts
    rw [spell_of_unquote? hquote]
    simp only [Directive.constant?]
    cases hlast : popLast rest with
    | none =>
      rw [popLast_eq_none_iff.1 hlast]
      rfl
    | some parts =>
      obtain ⟨body, last⟩ := parts
      rw [spell_of_popLast hlast, List.getLast?_concat, List.dropLast_concat]
      by_cases hmark : last = '\''
      · rw [hmark]
        rfl
      · rw [if_neg (by simpa using hmark)]
        split
        · next hsome =>
          cases hsome
          exact absurd rfl hmark
        · rfl

theorem constantSize?_written (text : List Run) :
    Directive.constantSize? (written text) = constantSize? text := by
  rw [Directive.constantSize?, written, String.toList_ofList, spell_constant?, constantSize?]
  cases constant? text with
  | none => rfl
  | some constant =>
    obtain ⟨kind, body⟩ := constant
    simp only [Option.map_some, ← length_spell, ← all_spell]
    split
    · next hsome =>
      cases hsome
      rfl
    · next hsome =>
      cases hsome
      simp
    · next hc hx =>
      have hkind : kind ≠ 'C' ∧ kind ≠ 'X' :=
        ⟨fun h => hc (spell body) (by rw [h]), fun h => hx (spell body) (by rw [h])⟩
      simp [hkind]

/-- The bytes of a statement that is a constant. -/
def constantBytes? (s : LongStatement) : Option Nat :=
  if s.mnemonic.bind Directive.ofName? = some .byte then s.operand.bind constantSize? else none

end LongStatement

namespace PassOne

/-- Reads one statement; a constant is not written out. -/
def placeLong (progress : Progress) (statement : LongStatement) :
    Except Cause (Progress × Bool) :=
  match statement.constantBytes? with
  | none => place progress statement.writtenOut
  | some bytes => do
    let progress ← define { progress with fresh := false } (some .byte) statement.label
    let progress ← reserve progress bytes
    .ok (progress, false)

/-- Reads lines up to END, whose line and operand are kept. -/
def scanLong :
    Progress → Nat → List (List Text.Run) → Except Error (Progress × Option (Nat × String))
  | progress, _, [] => .ok (progress, none)
  | progress, line, text :: rest =>
    match LongStatement.parse text with
    | none => scanLong progress (line + 1) rest
    | some statement =>
      match placeLong progress statement with
      | .error cause => .error ⟨line, cause⟩
      | .ok (progress, true) => .ok (progress, statement.writtenOut.operand.map (line, ·))
      | .ok (progress, false) => scanLong progress (line + 1) rest

def runLong (lines : List (List Text.Run)) : Except Error (SymbolTable × Summary) := do
  let (progress, finish) ← scanLong .initial 1 lines
  let address ← executionStart progress finish
  .ok (progress.symbols,
    { programName := progress.programName
      startAddress := progress.startAddress
      programLength := progress.location - progress.startAddress
      executionStart := address })

theorem placeLong_eq (progress : Progress) (statement : LongStatement) :
    placeLong progress statement = place progress statement.writtenOut := by
  unfold placeLong
  split
  · rfl
  · next bytes hbytes =>
    unfold LongStatement.constantBytes? at hbytes
    split at hbytes
    · next hbyte =>
      obtain ⟨name, hname, hdirective⟩ := Option.bind_eq_some_iff.1 hbyte
      obtain ⟨operand, hoperand, hsize⟩ := Option.bind_eq_some_iff.1 hbytes
      have hwritten : statement.writtenOut =
          ⟨statement.label, some name, some (LongStatement.written operand)⟩ := by
        rw [LongStatement.writtenOut, hname, hoperand]
        rfl
      rw [← LongStatement.constantSize?_written] at hsize
      rw [hwritten]
      simp only [place, hdirective, applyStart, storage, Directive.size, hsize]
      rfl
    · cases hbytes

theorem scanLong_eq (progress : Progress) (line : Nat) (lines : List (List Text.Run)) :
    scanLong progress line lines = scan progress line (lines.map LongStatement.written) := by
  induction lines generalizing progress line with
  | nil => rfl
  | cons text rest ih =>
    rw [List.map_cons, scan, scanLong, LongStatement.parse_spell]
    cases LongStatement.parse text with
    | none => exact ih progress (line + 1)
    | some statement =>
      simp only [Option.map_some, placeLong_eq]
      cases place progress statement.writtenOut with
      | error cause => rfl
      | ok result =>
        obtain ⟨q, finished⟩ := result
        cases finished with
        | true => rfl
        | false => exact ih q (line + 1)

/-- Lines in runs are assembled as their text. -/
theorem runLong_eq (lines : List (List Text.Run)) :
    runLong lines = run (lines.map LongStatement.written) := by
  rw [runLong, run, scanLong_eq]

end PassOne

end SicMachine
