import Mathlib.Data.List.Forall2
import Mathlib.Tactic.IntervalCases
import SicMachine.Proofs.FieldLayout
import SicMachine.Proofs.FirstFaults
import SicMachine.Proofs.Numerals

/-!
The case of ASCII letters. Everything that reads a part of a source finds the
same in it when its ASCII letters are put in upper case, apart from the case of
the text that it hands on. So a source and its capitals have the same run, and
so have two sources with the same capitals. Only the text quoted by an error
keeps the case in which it was written.
-/
namespace SicMachine

namespace Text

/-- The text with its ASCII letters in upper case. -/
def capitals (s : String) : String := String.ofList (s.toList.map Char.toUpper)

/-- The same characters one by one, apart from the case of ASCII letters. -/
def Recased (s t : String) : Prop :=
  List.Forall₂ (fun c d => c.toUpper = d.toUpper) s.toList t.toList

theorem toList_capitals (s : String) : (capitals s).toList = s.toList.map Char.toUpper :=
  String.toList_ofList

theorem capitals_ofList (text : List Char) :
    capitals (String.ofList text) = String.ofList (text.map Char.toUpper) := by
  rw [capitals, String.toList_ofList]

theorem Recased.toList_map_toUpper {s t : String} (h : Recased s t) :
    s.toList.map Char.toUpper = t.toList.map Char.toUpper := by
  have hmap : List.Forall₂ Eq (s.toList.map Char.toUpper) (t.toList.map Char.toUpper) :=
    List.forall₂_map_left_iff.2 (List.forall₂_map_right_iff.2 h)
  rwa [List.forall₂_eq_eq_eq] at hmap

theorem Recased.capitals_eq {s t : String} (h : Recased s t) : capitals s = capitals t := by
  rw [capitals, capitals, h.toList_map_toUpper]

/-! ### Characters -/

/-- Only the lower-case letters of ASCII change. -/
theorem toUpper_cases (c : Char) :
    c.toUpper = c ∨ 97 ≤ c.toNat ∧ c.toNat ≤ 122 ∧ c.toUpper.toNat = c.toNat - 32 := by
  unfold Char.toUpper
  split
  · next h =>
    have hrange : 97 ≤ c.toNat ∧ c.toNat ≤ 122 := by
      simpa [UInt32.le_iff_toNat_le] using h
    have hcode : (c.val + ('A'.val - 'a'.val)).toNat = c.toNat - 32 := by
      rw [UInt32.toNat_add]
      show (c.toNat + 4294967264) % 4294967296 = _
      omega
    exact Or.inr ⟨hrange.1, hrange.2, hcode⟩
  · exact Or.inl rfl

theorem toUpper_toUpper (c : Char) : c.toUpper.toUpper = c.toUpper := by
  rcases toUpper_cases c with hsame | ⟨hfrom, hto, hcode⟩
  · rw [hsame, hsame]
  · rcases toUpper_cases c.toUpper with hsame | ⟨hagain, -, -⟩
    · exact hsame
    · omega

theorem isBlank_toUpper (c : Char) : isBlank c.toUpper = isBlank c := by
  rcases toUpper_cases c with hsame | ⟨hfrom, hto, hcode⟩
  · rw [hsame]
  · rw [isBlank_of_printed (by omega) (by omega), isBlank_of_printed (by omega) (by omega)]

/-- A character that comes before all letters is told from the others in either case. -/
theorem toUpper_eq_iff {c d : Char} (hd : d.toNat < 65) : c.toUpper = d ↔ c = d := by
  rcases toUpper_cases c with hsame | ⟨hfrom, hto, hcode⟩
  · rw [hsame]
  · constructor
    · rintro rfl
      omega
    · rintro rfl
      omega

theorem toUpper_ascii_iff (c : Char) : c.toUpper.toNat < 0x80 ↔ c.toNat < 0x80 := by
  rcases toUpper_cases c with hsame | ⟨hfrom, hto, hcode⟩
  · rw [hsame]
  · omega

theorem upperChar_toUpper (c : Char) : upperChar c.toUpper = upperChar c := by
  rcases toUpper_cases c with hsame | ⟨hfrom, hto, hcode⟩
  · rw [hsame]
  · rw [upperChar, upperChar, if_pos (by omega), if_pos (by omega),
      toUpper_toUpper]

theorem upperCase_capitals (s : String) : upperCase (capitals s) = upperCase s := by
  rw [upperCase, upperCase, toList_capitals, List.flatMap_map]
  simp only [upperChar_toUpper]

theorem digitValue?_toUpper (base : Nat) (c : Char) :
    digitValue? base c.toUpper = digitValue? base c := by
  rcases toUpper_cases c with hsame | ⟨hfrom, hto, hcode⟩
  · rw [hsame]
  · have hvalue : c.toNat - 32 - 55 = c.toNat - 87 := by omega
    unfold digitValue?
    simp only [hcode]
    rw [if_neg (by omega), if_pos (by omega), if_neg (by omega), if_neg (by omega),
      if_pos (by omega), hvalue]

theorem capitals_toString (n : Nat) : capitals (toString n) = toString n := by
  have hkept : ∀ c ∈ Nat.toDigits 10 n, c.toUpper = c := by
    intro c hc
    obtain ⟨d, hd, rfl⟩ := exists_digit_of_mem_toDigits (by decide) hc
    interval_cases d <;> rfl
  have hdigits : toString n = String.ofList (Nat.toDigits 10 n) := rfl
  rw [hdigits, capitals_ofList, List.map_congr_left hkept, List.map_id']

theorem readDigits_map_toUpper (base limit value : Nat) (text : List Char) :
    readDigits base limit value (text.map Char.toUpper) = readDigits base limit value text := by
  induction text generalizing value with
  | nil => rfl
  | cons c rest ih =>
    rw [List.map_cons, readDigits, readDigits, digitValue?_toUpper]
    simp only [ih]

theorem readNumeral_map_toUpper (base limit : Nat) (text : List Char) :
    readNumeral base limit (text.map Char.toUpper) = readNumeral base limit text := by
  cases text with
  | nil => rfl
  | cons c rest =>
    by_cases hsign : c = '+'
    · subst hsign
      cases rest with
      | nil => rfl
      | cons d rest => exact readDigits_map_toUpper base limit 0 (d :: rest)
    · have hcapital : c.toUpper ≠ '+' := mt (toUpper_eq_iff (by decide)).1 hsign
      rw [List.map_cons, readNumeral_of_ne_plus hcapital, readNumeral_of_ne_plus hsign,
        ← List.map_cons, readDigits_map_toUpper]

end Text

open Text

/-! ### Fields of a line -/

theorem Mnemonic.ofName?_capitals (name : String) :
    ofName? (Text.capitals name) = ofName? name := by
  simp only [ofName?, upperCase_capitals]

theorem Directive.ofName?_capitals (name : String) :
    ofName? (Text.capitals name) = ofName? name := by
  simp only [ofName?, upperCase_capitals]

namespace Statement

/-- The statement with the ASCII letters of its fields in upper case. -/
def capitals (s : Statement) : Statement where
  label := s.label.map Text.capitals
  mnemonic := s.mnemonic.map Text.capitals
  operand := s.operand.map Text.capitals

theorem isBlank_comp_toUpper : isBlank ∘ Char.toUpper = isBlank :=
  funext isBlank_toUpper

theorem solid_comp_toUpper : (fun c => !isBlank c) ∘ Char.toUpper = fun c => !isBlank c :=
  funext fun c => congrArg (!·) (isBlank_toUpper c)

theorem trimFront_map (text : List Char) :
    trimFront (text.map Char.toUpper) = (trimFront text).map Char.toUpper := by
  rw [trimFront, List.dropWhile_map, isBlank_comp_toUpper]
  rfl

theorem splitField_map (text : List Char) :
    splitField (text.map Char.toUpper) =
      ((splitField text).1.map Char.toUpper, (splitField text).2.map Char.toUpper) := by
  unfold splitField
  simp only [trimFront_map, List.takeWhile_map, List.dropWhile_map, solid_comp_toUpper]

theorem quotedOperand?_of_ne {kind c : Char} {rest : List Char} (h : c ≠ '\'') :
    quotedOperand? (kind :: c :: rest) = none := by
  apply quotedOperand?_eq_none
  intro kind rest hsplit
  cases hsplit
  exact absurd rfl h

theorem quotedOperand?_map (text : List Char) :
    quotedOperand? (text.map Char.toUpper) = (quotedOperand? text).map (List.map Char.toUpper) := by
  rcases text with _ | ⟨kind, _ | ⟨c, rest⟩⟩
  · rfl
  · rfl
  · by_cases hc : c = '\''
    · subst hc
      have hquote : ∀ d : Char, d.toUpper = '\'' ↔ d = '\'' := fun d => toUpper_eq_iff (by decide)
      have hkept : (fun d : Char => decide (d ≠ '\'')) ∘ Char.toUpper =
          fun d => decide (d ≠ '\'') := by
        funext d
        simp only [Function.comp_apply, ne_eq, hquote]
      have hmem : '\'' ∈ rest.map Char.toUpper ↔ '\'' ∈ rest := by
        simp only [List.mem_map, hquote, exists_eq_right]
      have hmark : '\''.toUpper = '\'' := rfl
      simp only [List.map_cons, hmark, quotedOperand?, hmem, toUpper_ascii_iff,
        List.takeWhile_map, hkept]
      split
      · simp [hmark]
      · rfl
    · have hcapital : c.toUpper ≠ '\'' := mt (toUpper_eq_iff (by decide)).1 hc
      rw [List.map_cons, List.map_cons, quotedOperand?_of_ne hcapital, quotedOperand?_of_ne hc]
      rfl

theorem operandField_map (text : List Char) :
    operandField (text.map Char.toUpper) = (operandField text).map (List.map Char.toUpper) := by
  unfold operandField
  rw [trimFront_map]
  cases trimFront text with
  | nil => rfl
  | cons c rest =>
    simp only [List.map_cons]
    rw [← List.map_cons, quotedOperand?_map, splitField_map]
    cases quotedOperand? (c :: rest) <;> rfl

theorem ofFields_map (label : Option String) (text : List Char) :
    ofFields (label.map Text.capitals) (text.map Char.toUpper) =
      (ofFields label text).capitals := by
  simp only [ofFields, capitals, splitField_map, operandField_map, List.isEmpty_map, Option.map_map]
  congr 1
  · split
    · rfl
    · rw [Option.map_some, capitals_ofList]
  · simp only [Function.comp_def, capitals_ofList]

theorem isKeyword_capitals (field : String) :
    isKeyword (Text.capitals field) = isKeyword field := by
  rw [isKeyword, Mnemonic.ofName?_capitals, Directive.ofName?_capitals, isKeyword]

theorem isComment_map (line : List Char) : isComment (line.map Char.toUpper) = isComment line := by
  unfold isComment
  rw [trimFront_map]
  cases trimFront line with
  | nil => rfl
  | cons c rest =>
    simp only [List.map_cons]
    rw [Bool.eq_iff_iff, beq_iff_eq, beq_iff_eq, toUpper_eq_iff (by decide)]

theorem parse_capitals (line : String) :
    parse (Text.capitals line) = (parse line).map capitals := by
  have hmargin : (line.toList.map Char.toUpper).head?.any isBlank =
      line.toList.head?.any isBlank := by
    cases line.toList with
    | nil => rfl
    | cons c rest => exact isBlank_toUpper c
  simp only [parse, parseChars, toList_capitals, isComment_map, splitField_map, hmargin,
    ← capitals_ofList, isKeyword_capitals]
  split
  · rfl
  · split
    · exact congrArg some (ofFields_map (some _) _)
    · exact congrArg some (ofFields_map none _)

theorem parse_capitals_of_some {line : String} {s : Statement} (h : parse line = some s) :
    parse (Text.capitals line) = some s.capitals := by
  rw [parse_capitals, h, Option.map_some]

end Statement

/-! ### Errors and results -/

section Except

variable {ε ε' α β : Type}

theorem mapError_bind (first : Except ε α) (next : α → Except ε β) (f : ε → ε') :
    (first >>= next).mapError f = first.mapError f >>= fun value => (next value).mapError f := by
  cases first <;> rfl

/-- Results that are the same apart from what `f` hides of an error. -/
theorem cases_of_mapError_eq {left right : Except ε α} {f : ε → ε'}
    (h : left.mapError f = right.mapError f) :
    (∃ value, left = .ok value ∧ right = .ok value) ∨
      ∃ first second, left = .error first ∧ right = .error second ∧ f first = f second := by
  cases left with
  | ok value =>
    cases right with
    | ok other =>
      cases h
      exact Or.inl ⟨value, rfl, rfl⟩
    | error second => cases h
  | error first =>
    cases right with
    | ok value => cases h
    | error second => exact Or.inr ⟨first, second, rfl, rfl, Except.error.inj h⟩

end Except

/-- The error with the text that it quotes in upper case. -/
def SymbolTable.Error.capitals : SymbolTable.Error → SymbolTable.Error
  | .duplicate label => .duplicate label
  | .undefined label => .undefined (Text.capitals label)

namespace SymbolTable

theorem add_capitals (table : SymbolTable) (label : String) (address : Nat) :
    table.add (Text.capitals label) address = table.add label address := by
  simp only [add, upperCase_capitals]

theorem get_capitals (table : SymbolTable) (label : String) :
    table.get (Text.capitals label) = (table.get label).mapError Error.capitals := by
  simp only [get, find?, upperCase_capitals]
  split <;> rfl

end SymbolTable

namespace Directive

/-- The error with the text that it quotes in upper case. -/
def Error.capitals : Error → Error
  | .unknown name => .unknown (Text.capitals name)
  | .missingOperand directive => .missingOperand directive
  | .invalidOperand directive operand => .invalidOperand directive (Text.capitals operand)

theorem constant?_of_ne {kind c : Char} {rest : List Char} (h : c ≠ '\'') :
    constant? (kind :: c :: rest) = none := by
  unfold constant?
  split
  · next hsplit =>
    cases hsplit
    exact absurd rfl h
  · rfl

theorem constant?_map (text : List Char) :
    constant? (text.map Char.toUpper) =
      (constant? text).map fun constant => (constant.1, constant.2.map Char.toUpper) := by
  rcases text with _ | ⟨kind, _ | ⟨c, rest⟩⟩
  · rfl
  · rfl
  · by_cases hc : c = '\''
    · subst hc
      have hmark : '\''.toUpper = '\'' := rfl
      have hlast : (rest.map Char.toUpper).getLast? = some '\'' ↔ rest.getLast? = some '\'' := by
        rw [List.getLast?_map, Option.map_eq_some_iff]
        simp only [toUpper_eq_iff (show '\''.toNat < 65 by decide), exists_eq_right]
      simp only [List.map_cons, hmark, constant?, hlast, toUpper_toUpper]
      split
      · rw [Option.map_some, List.map_dropLast]
      · rfl
    · have hcapital : c.toUpper ≠ '\'' := mt (toUpper_eq_iff (by decide)).1 hc
      rw [List.map_cons, List.map_cons, constant?_of_ne hcapital, constant?_of_ne hc]
      rfl

theorem all_isHexDigit_map (body : List Char) :
    (body.map Char.toUpper).all isHexDigit = body.all isHexDigit := by
  rw [List.all_map]
  congr 1
  funext c
  rw [Function.comp_apply, isHexDigit, isHexDigit, digitValue?_toUpper]

theorem constantSize?_capitals (operand : String) :
    constantSize? (Text.capitals operand) = constantSize? operand := by
  unfold constantSize?
  rw [toList_capitals, constant?_map]
  cases constant? operand.toList with
  | none => rfl
  | some constant =>
    obtain ⟨kind, body⟩ := constant
    simp only [Option.map_some]
    split
    · next h =>
      cases h
      simp only [List.length_map]
    · next h =>
      cases h
      simp only [List.length_map, all_isHexDigit_map]
    · next hC hX =>
      split
      · next h =>
        cases h
        exact absurd rfl (hC _)
      · next h =>
        cases h
        exact absurd rfl (hX _)
      · rfl

theorem count_capitals (directive : Directive) (operand : String) :
    directive.count (Text.capitals operand) =
      (directive.count operand).mapError Error.capitals := by
  simp only [count, toList_capitals, readNumeral_map_toUpper]
  split <;> rfl

theorem size_capitals (directive : Directive) (operand : Option String) :
    directive.size (operand.map Text.capitals) =
      (directive.size operand).mapError Error.capitals := by
  cases operand with
  | none => cases directive <;> rfl
  | some operand =>
    cases directive with
    | start | finish | word => rfl
    | resb => exact count_capitals resb operand
    | byte =>
      simp only [Option.map_some, size, constantSize?_capitals]
      split <;> rfl
    | resw =>
      simp only [Option.map_some, size, count_capitals, mapError_bind]
      refine bind_congr fun words => ?_
      split
      · rfl
      · rw [Except.mapError, Error.capitals, capitals_toString]

end Directive

namespace PassOne

/-- The cause with the text that it quotes in upper case. -/
def Cause.capitals : Cause → Cause
  | .missingMnemonic => .missingMnemonic
  | .misplacedStart => .misplacedStart
  | .startWithoutAddress => .startWithoutAddress
  | .invalidStart operand => .invalidStart (Text.capitals operand)
  | .unknownMnemonic mnemonic => .unknownMnemonic (Text.capitals mnemonic)
  | .symbol error => .symbol error.capitals
  | .directive error => .directive error.capitals
  | .programTooLarge => .programTooLarge

/-- The error with the text that it quotes in upper case. Errors with the same capitals are of one
kind, on one line. -/
def Error.capitals (error : Error) : Error := ⟨error.line, error.cause.capitals⟩

section Statement

variable (p : Progress) (directive : Option Directive)

theorem startAddress_capitals (operand : Option String) :
    startAddress (operand.map Text.capitals) = (startAddress operand).mapError Cause.capitals := by
  cases operand with
  | none => rfl
  | some operand =>
    simp only [Option.map_some, startAddress, toList_capitals, readNumeral_map_toUpper]
    split
    · split <;> rfl
    · rfl

theorem applyStart_capitals (operand : Option String) :
    applyStart p directive (operand.map Text.capitals) =
      (applyStart p directive operand).mapError Cause.capitals := by
  unfold applyStart
  split
  · split
    · rw [startAddress_capitals, mapError_bind]
      rfl
    · rfl
  · rfl

theorem define_capitals (label : Option String) :
    define p directive (label.map Text.capitals) =
      (define p directive label).mapError Cause.capitals := by
  cases label with
  | none => rfl
  | some label =>
    simp only [Option.map_some, define, SymbolTable.add_capitals, upperCase_capitals]
    cases hadd : p.symbols.add label p.location with
    | ok symbols => rfl
    | error error =>
      have hduplicate : error.capitals = error := by
        simp only [SymbolTable.add] at hadd
        split at hadd <;> cases hadd
        rfl
      rw [Except.mapError, Cause.capitals, hduplicate]

theorem storage_capitals (mnemonic : String) (operand : Option String) :
    storage (Text.capitals mnemonic) directive (operand.map Text.capitals) =
      (storage mnemonic directive operand).mapError Cause.capitals := by
  cases directive with
  | some directive =>
    rw [storage, storage, Directive.size_capitals]
    cases directive.size operand <;> rfl
  | none =>
    simp only [storage, Mnemonic.ofName?_capitals]
    by_cases hfound : (Mnemonic.ofName? mnemonic).isSome = true
    · rw [if_pos hfound, if_pos hfound]
      rfl
    · rw [if_neg hfound, if_neg hfound]
      rfl

theorem reserve_mapError (bytes : Nat) :
    (reserve p bytes).mapError Cause.capitals = reserve p bytes := by
  unfold reserve
  split <;> rfl

theorem place_capitals (s : Statement) :
    place p s.capitals = (place p s).mapError Cause.capitals := by
  unfold place
  cases hmnemonic : s.mnemonic with
  | none =>
    simp only [Statement.capitals, hmnemonic]
    rfl
  | some mnemonic =>
    simp only [Statement.capitals, hmnemonic, Option.map_some, Directive.ofName?_capitals,
      applyStart_capitals, define_capitals, storage_capitals, mapError_bind]
    refine bind_congr fun started => ?_
    refine bind_congr fun defined => ?_
    split
    · rfl
    · simp only [mapError_bind, reserve_mapError]
      rfl

end Statement

section Run

variable {p q : Progress} {s : Statement} {lines : List String} {line : Nat}

theorem Reads.capitals (h : Reads p lines q) : Reads p (lines.map Text.capitals) q := by
  induction h with
  | done => exact .done
  | skip hparse hrest ih =>
    refine .skip ?_ ih
    rw [Statement.parse_capitals, hparse]
    rfl
  | @next p q r text s rest hparse hplace hrest ih =>
    have hplaced : place p s.capitals = .ok (q, false) := by
      rw [place_capitals, hplace]
      rfl
    exact .next (Statement.parse_capitals_of_some hparse) hplaced ih

theorem place_capitals_ne (h : ∀ next, place p s ≠ .ok (next, false)) (next : Progress) :
    place p s.capitals ≠ .ok (next, false) := by
  rw [place_capitals]
  intro hplace
  cases hresult : place p s with
  | error cause =>
    rw [hresult] at hplace
    cases hplace
  | ok result =>
    rw [hresult] at hplace
    cases hplace
    exact h next hresult

theorem conclude_capitals (p : Progress) (s : Statement) (line : Nat) :
    conclude p s.capitals line = (conclude p s line).mapError Error.capitals := by
  unfold conclude
  rw [place_capitals]
  cases place p s with
  | error cause => rfl
  | ok result =>
    cases hoperand : s.operand with
    | none =>
      simp only [Statement.capitals, hoperand]
      rfl
    | some label =>
      simp only [Statement.capitals, hoperand, Except.mapError, Option.map_some, executionStart,
        SymbolTable.get_capitals]
      cases result.1.symbols.get label <;> rfl

/-- The run of a source with its ASCII letters in upper case. -/
theorem run_capitals (lines : List String) :
    run (lines.map Text.capitals) = (run lines).mapError Error.capitals := by
  rcases reads_or_stops .initial lines with
    ⟨p, hread⟩ | ⟨before, text, s, after, p, rfl, hread, hparse, hstop⟩
  · rw [run_of_reads hread, run_of_reads hread.capitals]
    rfl
  · have hcapitals := Statement.parse_capitals_of_some hparse
    rw [List.map_append, List.map_cons,
      run_of_stops _ hread.capitals hcapitals (place_capitals_ne hstop), List.length_map,
      run_of_stops _ hread hparse hstop, conclude_capitals]

end Run

/-- Two sources that differ only in the case of ASCII letters are assembled alike: to the same
symbols and the same summary, or to errors on the same line that have the same cause, down to the
error of a symbol or a directive, and differ at most in the case of the text that they quote. -/
theorem run_ignores_case {lines others : List String}
    (h : List.Forall₂ Text.Recased lines others) :
    (∃ table summary, run lines = .ok (table, summary) ∧ run others = .ok (table, summary)) ∨
      ∃ error other, run lines = .error error ∧ run others = .error other ∧
        error.line = other.line ∧ error.cause.capitals = other.cause.capitals := by
  have hcapitals : lines.map Text.capitals = others.map Text.capitals := by
    rw [← List.forall₂_eq_eq_eq]
    refine List.forall₂_map_left_iff.2 (List.forall₂_map_right_iff.2 (h.imp ?_))
    intro text other hrecased
    exact hrecased.capitals_eq
  have hrun := run_capitals lines
  rw [hcapitals, run_capitals] at hrun
  rcases cases_of_mapError_eq hrun with
    ⟨result, hother, hrun⟩ | ⟨other, error, hother, hrun, hsame⟩
  · exact Or.inl ⟨_, _, hrun, hother⟩
  · exact Or.inr ⟨error, other, hrun, hother, (congrArg Error.line hsame).symm,
      (congrArg Error.cause hsame).symm⟩

/-- Letters have changed their case in labels, mnemonics and operands, and in the comment. -/
def copyingRecased : List String :=
  ["copy  start 1000", "First lda   Alpha", ". Comment", "ALPHA Resw  1", "      end   fIRST"]

def endingNowhereRecased : List String :=
  ["First lda alpha", ". COMMENT", "   end Alpha", "Alpha word"]

theorem recased_copying : List.Forall₂ Text.Recased copying copyingRecased := by
  unfold Text.Recased
  decide

theorem recased_endingNowhere : List.Forall₂ Text.Recased endingNowhere endingNowhereRecased := by
  unfold Text.Recased
  decide

theorem copying_ignores_case :
    List.Forall₂ Text.Recased copying copyingRecased ∧
      run copyingRecased = .ok (copyingTable, ⟨some "COPY", 0x1000, 6, 0x1000⟩) ∧
      List.Forall₂ Text.Recased endingNowhere endingNowhereRecased ∧
      ∃ error, run endingNowhereRecased = .error error ∧ error.line = 3 ∧
        error.cause.capitals = .symbol (.undefined "ALPHA") := by
  refine ⟨recased_copying, ?_, recased_endingNowhere, ?_⟩
  · rcases run_ignores_case recased_copying with
      ⟨table, summary, hrun, hother⟩ | ⟨error, other, hrun, -⟩
    · rw [run_copying] at hrun
      cases hrun
      exact hother
    · rw [run_copying] at hrun
      cases hrun
  · rcases run_ignores_case recased_endingNowhere with
      ⟨table, summary, hrun, -⟩ | ⟨error, other, hrun, hother, hline, hcause⟩
    · rw [run_endingNowhere] at hrun
      cases hrun
    · rw [run_endingNowhere] at hrun
      cases hrun
      exact ⟨other, hother, hline.symm, hcause.symm⟩

end PassOne

end SicMachine
