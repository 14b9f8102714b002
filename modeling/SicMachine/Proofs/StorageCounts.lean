import SicMachine.LongSource
import SicMachine.Proofs.FirstFaults
import SicMachine.Proofs.Numerals

/-!
The storage that statements ask for, against the length that the assembly
finds. The length of a constant is counted in 32 bits, and half of it in 31, so
the program has its length modulo 2^31. The length is exact, and the program
fits, when no constant has 2^32 characters, and otherwise it never is.
-/
namespace SicMachine

namespace Directive

/-- A constant between quotes, behind a letter of either case for its kind. -/
def Constant (kind : Char) (body : List Char) (operand : String) : Prop :=
  ∃ letter : Char, letter.toUpper = kind ∧ operand.toList = letter :: '\'' :: (body ++ ['\''])

/-- A decimal number, with or without a plus sign in front. -/
def Counts (n : Nat) (operand : String) : Prop :=
  ∃ digits, (operand.toList = digits ∨ operand.toList = '+' :: digits) ∧ digits ≠ [] ∧
    Text.Digits 10 digits ∧ Text.valueFrom 10 0 digits = n

end Directive

namespace Statement

open Directive

/-- The storage that a statement asks for. -/
inductive Stores (s : Statement) : Nat → Prop
  | instruction {name : String} {mnemonic : Mnemonic} (hname : s.mnemonic = some name)
      (hmnemonic : mnemonic.name = Text.upperCase name) : Stores s 3
  | start (h : s.directive? = some .start) : Stores s 0
  | finish (h : s.directive? = some .finish) : Stores s 0
  | word (h : s.directive? = some .word) : Stores s 3
  | bytes {operand : String} {n : Nat} (h : s.directive? = some .resb)
      (hoperand : s.operand = some operand) (hcount : Counts n operand) : Stores s n
  | words {operand : String} {n : Nat} (h : s.directive? = some .resw)
      (hoperand : s.operand = some operand) (hcount : Counts n operand) : Stores s (3 * n)
  | characters {operand : String} {body : List Char} (h : s.directive? = some .byte)
      (hoperand : s.operand = some operand) (hbody : Constant 'C' body operand) :
      Stores s body.length
  | digits {operand : String} {body : List Char} (h : s.directive? = some .byte)
      (hoperand : s.operand = some operand) (hbody : Constant 'X' body operand)
      (hdigits : Text.Digits 16 body) : Stores s (body.length / 2)

/-- The length of a constant, if the statement has one, can be counted in 32 bits. -/
def Short (s : Statement) : Prop :=
  ∀ operand kind body, s.directive? = some .byte → s.operand = some operand →
    Constant kind body operand → body.length < wideLimit

end Statement

/-! ### What an operand counts -/

namespace Directive

variable {kind : Char} {body : List Char} {operand : String} {bytes n : Nat}

theorem constant?_eq_some_iff {text : List Char} :
    constant? text = some (kind, body) ↔
      ∃ letter : Char, letter.toUpper = kind ∧ text = letter :: '\'' :: (body ++ ['\'']) := by
  constructor
  · intro h
    unfold constant? at h
    split at h
    · next letter rest =>
      split at h
      · next hlast =>
        cases h
        refine ⟨letter, rfl, ?_⟩
        rw [List.dropLast_append_getLast? '\'' hlast]
      · cases h
    · cases h
  · rintro ⟨letter, rfl, rfl⟩
    simp [constant?]

theorem constantSize?_eq_some_iff :
    constantSize? operand = some bytes ↔
      (∃ body, Constant 'C' body operand ∧ bytes = body.length % wideLimit) ∨
        ∃ body, Constant 'X' body operand ∧ Text.Digits 16 body ∧
          bytes = body.length % wideLimit / 2 := by
  have hdigits : ∀ body : List Char, body.all isHexDigit = true ↔ Text.Digits 16 body := by
    intro body
    rw [List.all_eq_true]
    rfl
  simp only [Constant, ← constant?_eq_some_iff]
  unfold constantSize?
  split
  · next body h =>
    simp only [h, Option.some.injEq, Prod.mk.injEq, Char.reduceEq, false_and, exists_false, or_false,
      true_and, exists_eq_left']
    exact eq_comm
  · next body h =>
    simp only [h, Option.some.injEq, Prod.mk.injEq, Char.reduceEq, false_and, exists_false, false_or,
      true_and, exists_eq_left', ← hdigits]
    split
    · next hall => simp only [hall, true_and, Option.some.injEq, eq_comm]
    · next hall => simp [hall]
  · next hc hx =>
    constructor
    · intro h
      cases h
    · rintro (⟨body, hbody, -⟩ | ⟨body, hbody, -⟩)
      · exact absurd hbody (hc body)
      · exact absurd hbody (hx body)

theorem count_eq_ok_iff {d : Directive} :
    count d operand = .ok n ↔ Counts n operand ∧ n < wideLimit := by
  have hread : Text.readNumeral 10 wideLimit operand.toList = .ok n ↔
      Counts n operand ∧ n < wideLimit := by
    rw [Text.readNumeral_eq_ok_iff (by decide) (by decide), Counts]
    simp only [← and_assoc, exists_and_right]
  rw [← hread, count]
  cases Text.readNumeral 10 wideLimit operand.toList <;> simp

/-- An operand counts one number. -/
theorem Counts.unique {m : Nat} (hn : Counts n operand) (hm : Counts m operand) : n = m := by
  obtain ⟨digits, htext, -, hdigits, rfl⟩ := hn
  obtain ⟨more, hother, -, hmore, rfl⟩ := hm
  rw [Text.digits_unique htext hother hdigits hmore]

theorem Constant.unique {other : Char} {more : List Char} (h : Constant kind body operand)
    (hother : Constant other more operand) : kind = other ∧ body = more := by
  have hboth := (constant?_eq_some_iff.2 h).symm.trans (constant?_eq_some_iff.2 hother)
  cases hboth
  exact ⟨rfl, rfl⟩

/-! ### What the directives that look at their operand accept -/

theorem size_resb_eq_ok_iff {operand : Option String} :
    resb.size operand = .ok bytes ↔
      ∃ text, operand = some text ∧ Counts bytes text ∧ bytes < wideLimit := by
  cases operand with
  | none => simp [size]
  | some text => simp [size, count_eq_ok_iff]

theorem size_resw_eq_ok_iff {operand : Option String} :
    resw.size operand = .ok bytes ↔
      ∃ text n, operand = some text ∧ Counts n text ∧ bytes = 3 * n ∧ bytes < wideLimit := by
  cases operand with
  | none => simp [size]
  | some text =>
    simp only [size, PassOne.ok_of_bind, count_eq_ok_iff, Option.some.injEq, exists_and_left,
      exists_eq_left', ← Nat.mul_comm wordBytes]
    constructor
    · rintro ⟨n, ⟨hcount, -⟩, hsize⟩
      split at hsize
      · next hless =>
        cases hsize
        exact ⟨n, hcount, rfl, hless⟩
      · cases hsize
    · rintro ⟨n, hcount, rfl, hless⟩
      exact ⟨n, ⟨hcount, by omega⟩, if_pos hless⟩

theorem size_byte_eq_ok_iff {operand : Option String} :
    byte.size operand = .ok bytes ↔ ∃ text, operand = some text ∧ constantSize? text = some bytes := by
  cases operand with
  | none => simp [size]
  | some text => cases hsize : constantSize? text <;> simp [size, hsize]

end Directive

namespace Statement

open Directive

variable {s : Statement} {n : Nat}

/-! ### The storage of one statement -/

theorem directive?_of_instruction {name : String} {mnemonic : Mnemonic}
    (hname : s.mnemonic = some name) (hmnemonic : mnemonic.name = Text.upperCase name) :
    s.directive? = none := by
  have hother : ∀ directive : Directive, directive.name ≠ mnemonic.name := by
    intro directive
    cases directive <;> cases mnemonic <;> decide
  rw [Option.eq_none_iff_forall_ne_some]
  intro directive h
  obtain ⟨other, hsame, hdirective⟩ := directive?_eq_some_iff.1 h
  rw [hname] at hsame
  cases hsame
  exact hother directive (hdirective.trans hmnemonic.symm)

/-- Every statement that can be assembled asks for some storage. -/
theorem exists_stores (hknown : s.Known) (hsized : s.Sized) : ∃ n, s.Stores n := by
  obtain ⟨name, hname, ⟨d, hd⟩ | ⟨mnemonic, hmnemonic⟩⟩ := hknown
  · have hsome : s.directive? = some d := directive?_eq_some_iff.2 ⟨name, hname, hd⟩
    cases d with
    | start => exact ⟨0, .start hsome⟩
    | finish => exact ⟨0, .finish hsome⟩
    | word => exact ⟨3, .word hsome⟩
    | byte =>
      obtain ⟨bytes, hsize⟩ := hsized .byte hsome (by decide)
      obtain ⟨text, htext, hconstant⟩ := size_byte_eq_ok_iff.1 hsize
      rcases constantSize?_eq_some_iff.1 hconstant with ⟨body, hbody, -⟩ | ⟨body, hbody, hdigits, -⟩
      · exact ⟨_, .characters hsome htext hbody⟩
      · exact ⟨_, .digits hsome htext hbody hdigits⟩
    | resb =>
      obtain ⟨bytes, hsize⟩ := hsized .resb hsome (by decide)
      obtain ⟨text, htext, hcount, -⟩ := size_resb_eq_ok_iff.1 hsize
      exact ⟨_, .bytes hsome htext hcount⟩
    | resw =>
      obtain ⟨bytes, hsize⟩ := hsized .resw hsome (by decide)
      obtain ⟨text, n, htext, hcount, -⟩ := size_resw_eq_ok_iff.1 hsize
      exact ⟨_, .words hsome htext hcount⟩
  · exact ⟨3, .instruction hname hmnemonic⟩

theorem short_of_ne (h : s.directive? ≠ some .byte) : s.Short :=
  fun _ _ _ hbyte => absurd hbyte h

theorem short_of_length (h : ∀ operand ∈ s.operand, operand.length < wideLimit) : s.Short := by
  rintro operand kind body - hoperand ⟨letter, -, hlist⟩
  have hlength := h operand hoperand
  rw [← String.length_toList, hlist, List.length_cons, List.length_cons, List.length_append] at hlength
  omega

theorem short_iff_of_constant {kind : Char} {body : List Char} {operand : String}
    (h : s.directive? = some .byte) (hoperand : s.operand = some operand)
    (hbody : Constant kind body operand) : s.Short ↔ body.length < wideLimit := by
  constructor
  · intro hshort
    exact hshort operand kind body h hoperand hbody
  · intro hlength other kind' more _ hother hmore
    rw [hoperand] at hother
    cases hother
    obtain ⟨-, rfl⟩ := hbody.unique hmore
    exact hlength

theorem bytes_of_size {d : Directive} {bytes : Nat} (h : s.directive? = some d)
    (hsize : d.size s.operand = .ok bytes) : s.bytes = bytes := by
  simp only [Statement.bytes, h, hsize, Except.toOption, Option.getD_some]

/-- How the bytes that are counted for a statement compare with the storage that it asks for. -/
structure Counted (s : Statement) (n : Nat) : Prop where
  congruent : s.bytes % 2 ^ 31 = n % 2 ^ 31
  exact : s.Short → s.bytes = n
  excess : ¬ s.Short → s.bytes + 2 ^ 31 ≤ n

theorem counted_of_short (hshort : s.Short) (h : s.bytes = n) : s.Counted n :=
  ⟨by rw [h], fun _ => h, fun hlong => absurd hshort hlong⟩

theorem Counted.le (h : s.Counted n) : s.bytes ≤ n := by
  by_cases hshort : s.Short
  · exact Nat.le_of_eq (h.exact hshort)
  · have hlarge := h.excess hshort
    omega

/-- A constant counts one character or two for a byte, and its length in 32 bits. -/
theorem counted_of_constant {kind : Char} {body : List Char} {operand : String} {unit : Nat}
    (h : s.directive? = some .byte) (hoperand : s.operand = some operand)
    (hbody : Constant kind body operand) (hunit : unit = 1 ∨ unit = 2)
    (hsize : byte.size s.operand = .ok (body.length % wideLimit / unit)) :
    s.Counted (body.length / unit) := by
  have hshort := short_iff_of_constant h hoperand hbody
  have hbytes := bytes_of_size h hsize
  rw [wideLimit] at hshort hbytes
  refine ⟨?_, ?_, ?_⟩
  · rcases hunit with rfl | rfl <;> omega
  · rw [hshort]
    rcases hunit with rfl | rfl <;> omega
  · rw [hshort]
    rcases hunit with rfl | rfl <;> omega

theorem Stores.counted (h : s.Stores n) (hsized : s.Sized) : s.Counted n := by
  cases h with
  | instruction hname hmnemonic =>
    have hnone := directive?_of_instruction hname hmnemonic
    refine counted_of_short (short_of_ne (by simp [hnone])) ?_
    simp [Statement.bytes, hnone, wordBytes]
  | start h => exact counted_of_short (short_of_ne (by simp [h])) (bytes_of_size h rfl)
  | finish h => exact counted_of_short (short_of_ne (by simp [h])) (bytes_of_size h rfl)
  | word h =>
    refine counted_of_short (short_of_ne (by simp [h])) (bytes_of_size h ?_)
    cases s.operand <;> rfl
  | bytes h hoperand hcount =>
    obtain ⟨bytes, hsize⟩ := hsized .resb h (by decide)
    obtain ⟨text, htext, hbytes, -⟩ := size_resb_eq_ok_iff.1 hsize
    rw [hoperand] at htext
    cases htext
    refine counted_of_short (short_of_ne (by simp [h])) ?_
    rw [bytes_of_size h hsize, hbytes.unique hcount]
  | words h hoperand hcount =>
    obtain ⟨bytes, hsize⟩ := hsized .resw h (by decide)
    obtain ⟨text, m, htext, hwords, hbytes, -⟩ := size_resw_eq_ok_iff.1 hsize
    rw [hoperand] at htext
    cases htext
    refine counted_of_short (short_of_ne (by simp [h])) ?_
    rw [bytes_of_size h hsize, hbytes, hwords.unique hcount]
  | @characters operand body h hoperand hbody =>
    have hsize : byte.size s.operand = .ok (body.length % wideLimit) :=
      size_byte_eq_ok_iff.2 ⟨operand, hoperand, constantSize?_eq_some_iff.2 (Or.inl ⟨body, hbody, rfl⟩)⟩
    rw [← Nat.div_one (body.length % wideLimit)] at hsize
    rw [← Nat.div_one body.length]
    exact counted_of_constant h hoperand hbody (Or.inl rfl) hsize
  | @digits operand body h hoperand hbody hdigits =>
    have hsize : byte.size s.operand = .ok (body.length % wideLimit / 2) :=
      size_byte_eq_ok_iff.2
        ⟨operand, hoperand, constantSize?_eq_some_iff.2 (Or.inr ⟨body, hbody, hdigits, rfl⟩)⟩
    exact counted_of_constant h hoperand hbody (Or.inr rfl) hsize

end Statement

namespace Source

variable {S : List Statement} {sizes : List Nat}

/-! ### The storage of a source -/

theorem exists_sizes (hknown : ∀ s ∈ S, s.Known) (hsized : ∀ s ∈ S, s.Sized) :
    ∃ sizes, List.Forall₂ Statement.Stores S sizes := by
  induction S with
  | nil => exact ⟨[], .nil⟩
  | cons s rest ih =>
    obtain ⟨hk, hknown⟩ := List.forall_mem_cons.1 hknown
    obtain ⟨hs, hsized⟩ := List.forall_mem_cons.1 hsized
    obtain ⟨n, hn⟩ := Statement.exists_stores hk hs
    obtain ⟨sizes, hsizes⟩ := ih hknown hsized
    exact ⟨n :: sizes, .cons hn hsizes⟩

/-- How the bytes of all statements compare with the storage that they ask for together. -/
theorem extent_counted (h : List.Forall₂ Statement.Stores S sizes) (hsized : ∀ s ∈ S, s.Sized) :
    extent S % 2 ^ 31 = sizes.sum % 2 ^ 31 ∧ ((∀ s ∈ S, s.Short) → extent S = sizes.sum) ∧
      ((¬ ∀ s ∈ S, s.Short) → extent S + 2 ^ 31 ≤ sizes.sum) := by
  induction h with
  | nil => simp [extent]
  | @cons s n rest sizes hstores _ ih =>
    obtain ⟨hs, hrest⟩ := List.forall_mem_cons.1 hsized
    obtain ⟨hcongruent, hexact, hexcess⟩ := ih hrest
    have hcounted := hstores.counted hs
    have hle : extent rest ≤ sizes.sum := by
      by_cases hshort : ∀ s ∈ rest, s.Short
      · exact Nat.le_of_eq (hexact hshort)
      · have hlarge := hexcess hshort
        omega
    have hlen := hcounted.le
    rw [extent_cons, List.sum_cons, List.forall_mem_cons]
    refine ⟨?_, ?_, ?_⟩
    · rw [Nat.add_mod, hcounted.congruent, hcongruent, ← Nat.add_mod]
    · rintro ⟨hfirst, hother⟩
      rw [hcounted.exact hfirst, hexact hother]
    · intro hlong
      by_cases hfirst : s.Short
      · have hlarge := hexcess fun hother => hlong ⟨hfirst, hother⟩
        omega
      · have hlarge := hcounted.excess hfirst
        omega

end Source

namespace PassOne

open Source

/-- The length of a program is the storage that its statements ask for, counted modulo 2^31. When no
constant has 2^32 characters it is exact and the program fits in memory, and otherwise the program
is too large for memory although it has been assembled. -/
theorem run_counts_storage (lines : List String) (table : SymbolTable) (summary : Summary)
    (h : run lines = .ok (table, summary)) :
    (∃ sizes, List.Forall₂ Statement.Stores (statements lines) sizes) ∧
      ∀ sizes, List.Forall₂ Statement.Stores (statements lines) sizes →
        summary.programLength = sizes.sum % 2 ^ 31 ∧
        ((∀ s ∈ statements lines, s.Short) →
          summary.startAddress + sizes.sum ≤ memorySize ∧
            summary.startAddress + sizes.sum = summary.startAddress + summary.programLength) ∧
        ((¬ ∀ s ∈ statements lines, s.Short) → memorySize < summary.startAddress + sizes.sum) := by
  obtain ⟨hall, address, hentry, rfl, rfl⟩ := run_eq_ok_iff.1 h
  have hlayout := layout_known hall hentry
  have hfits := hall.fits
  rw [Progress.reach_initial, ← hlayout.startAddress, ← hlayout.programLength] at hfits
  refine ⟨exists_sizes hall.known hall.sized, fun sizes hsizes => ?_⟩
  obtain ⟨hcongruent, hexact, hexcess⟩ := extent_counted hsizes hall.sized
  rw [← hlayout.programLength] at hcongruent hexact hexcess
  rw [memorySize] at hfits ⊢
  refine ⟨by omega, fun hshort => ?_, fun hlong => ?_⟩
  · rw [← hexact hshort]
    exact ⟨hfits, rfl⟩
  · have hlarge := hexcess hlong
    omega

/-- A statement of each kind; the last digit of the hexadecimal constant takes up nothing. -/
def storing : List String :=
  [" START 1000", " RSUB", " BYTE C'EOF'", " BYTE X'05A'", " RESB +4", " RESW 2", " WORD 5", " END"]

theorem storing_counts_storage :
    run storing = .ok (.empty, ⟨none, 0x1000, 20, 0x1000⟩) ∧
      List.Forall₂ Statement.Stores (statements storing) [0, 3, 3, 1, 4, 6, 3, 0] ∧
      0x1000 + 20 ≤ memorySize := by
  have hrun : run storing = .ok (.empty, ⟨none, 0x1000, 20, 0x1000⟩) := by
    rfl
  have hlengths : ∀ s ∈ statements storing, ∀ operand ∈ s.operand, operand.length < wideLimit := by
    decide
  have hrsub : Statement.Stores ⟨none, some "RSUB", none⟩ 3 :=
    .instruction rfl (show Mnemonic.rsub.name = _ from rfl)
  have heof : Statement.Stores ⟨none, some "BYTE", some "C'EOF'"⟩ ['E', 'O', 'F'].length :=
    .characters rfl rfl ⟨'C', rfl, rfl⟩
  have hpairs : Statement.Stores ⟨none, some "BYTE", some "X'05A'"⟩ (['0', '5', 'A'].length / 2) :=
    .digits rfl rfl ⟨'X', rfl, rfl⟩ (by decide)
  have hbytes : Statement.Stores ⟨none, some "RESB", some "+4"⟩ 4 :=
    .bytes rfl rfl ⟨['4'], Or.inr rfl, by decide, by decide, rfl⟩
  have hwords : Statement.Stores ⟨none, some "RESW", some "2"⟩ (3 * 2) :=
    .words rfl rfl ⟨['2'], Or.inl rfl, by decide, by decide, rfl⟩
  have hsizes : List.Forall₂ Statement.Stores (statements storing) [0, 3, 3, 1, 4, 6, 3, 0] :=
    .cons (.start rfl) (.cons hrsub (.cons heof (.cons hpairs (.cons hbytes (.cons hwords
      (.cons (.word rfl) (.cons (.finish rfl) .nil)))))))
  obtain ⟨-, hcounts⟩ := run_counts_storage storing _ _ hrun
  obtain ⟨-, hexact, -⟩ := hcounts _ hsizes
  exact ⟨hrun, hsizes, (hexact fun s hs => Statement.short_of_length (hlengths s hs)).1⟩

/-! ### A constant that is too long to be counted -/

/-- A line with a constant of 2^32 characters. -/
def overlong : List Text.Run :=
  Text.Run.ofChars " BYTE C'".toList ++ [⟨'A', wideLimit - 1⟩, ⟨'\'', 0⟩]

/-- The characters of the constant. -/
def overlongBody : List Text.Run := [⟨'A', wideLimit - 1⟩]

/-- The constant as an operand. -/
def overlongOperand : List Text.Run := [⟨'C', 0⟩, ⟨'\'', 0⟩] ++ overlongBody ++ [⟨'\'', 0⟩]

theorem statements_overlong :
    statements [LongStatement.written overlong] =
      [⟨none, some "BYTE", some (LongStatement.written overlongOperand)⟩] := by
  have hlong : LongStatement.parse overlong = some ⟨none, some "BYTE", some overlongOperand⟩ := by
    rfl
  have hparse := LongStatement.parse_spell overlong
  rw [hlong, Option.map_some] at hparse
  rw [statements_of_some hparse]
  exact if_neg (show Directive.ofName? "BYTE" ≠ some .finish by decide)

theorem run_overlong :
    run [LongStatement.written overlong] = .ok (.empty, ⟨none, 0, 0, 0⟩) := by
  have hlong : runLong [overlong] = .ok (.empty, ⟨none, 0, 0, 0⟩) := by
    rfl
  rwa [runLong_eq] at hlong

theorem stores_overlong :
    List.Forall₂ Statement.Stores (statements [LongStatement.written overlong]) [2 ^ 32] := by
  have hconstant : Directive.Constant 'C' (Text.Run.spell overlongBody)
      (LongStatement.written overlongOperand) := by
    have hlong : LongStatement.constant? overlongOperand = some ('C', overlongBody) := by
      rfl
    have hspell := LongStatement.spell_constant? overlongOperand
    rw [hlong, Option.map_some] at hspell
    rw [Directive.Constant, LongStatement.written, String.toList_ofList]
    exact Directive.constant?_eq_some_iff.1 hspell
  have hlength : (Text.Run.spell overlongBody).length = 2 ^ 32 := by
    rw [Text.Run.length_spell]
    rfl
  rw [statements_overlong, ← hlength]
  exact .cons (.characters rfl rfl hconstant) .nil

/-- A constant of 2^32 characters takes up nothing and is assembled, although no memory can hold
it. -/
theorem overlong_constant_assembled :
    ¬ ∀ lines table summary, run lines = .ok (table, summary) →
      ∀ sizes, List.Forall₂ Statement.Stores (statements lines) sizes →
        summary.startAddress + sizes.sum ≤ memorySize ∧
          summary.startAddress + sizes.sum = summary.startAddress + summary.programLength := by
  intro h
  obtain ⟨hfits, -⟩ := h _ _ _ run_overlong _ stores_overlong
  revert hfits
  decide

end PassOne

end SicMachine
