import SicMachine.CommandLine.DumpRange
import SicMachine.Proofs.OperandGrammars

/-!
The argument that asks for a dump. It is split at its first colon, the marks
are dropped from the front of the address, and both parts are read as numerals.
A numeral has no colon and does not begin with a mark, so a range in writing
can be taken apart in one way only, and the arguments that are accepted are the
ranges in writing. An address printed in hexadecimal and a count printed in
decimal make up such an argument.
-/
namespace SicMachine

namespace Text

variable {base n : Nat} {c : Char} {text : List Char}

theorem Numeral.of_mem (h : Numeral base n text) (hc : c ∈ text) :
    c = '+' ∨ c.toUpper ∈ digitRow := by
  obtain ⟨digits, rfl | rfl, -, hdigits, -⟩ := h
  · exact Or.inr (List.mem_of_mem_take (hdigits c hc))
  · rcases List.mem_cons.1 hc with rfl | hc
    · exact Or.inl rfl
    · exact Or.inr (List.mem_of_mem_take (hdigits c hc))

/-- A number in decimal is a numeral for it. -/
theorem numeral_toString (n : Nat) : Numeral 10 n (toString n).toList := by
  have hspell : ∀ d < 10, digitValue? 10 (id (Nat.digitChar d)) = some d := by decide
  have htext : (toString n).toList = (Nat.toDigits 10 n).map id := by
    rw [List.map_id]
    exact String.toList_ofList
  rw [numeral_iff (Or.inl rfl), htext]
  refine ⟨_, Or.inl rfl, ?_, digits_toDigits (by decide) hspell n,
    valueFrom_toDigits (by decide) hspell n⟩
  rw [List.map_id]
  exact Nat.toDigits_ne_nil

/-- A number in hexadecimal is a numeral for it, in either case and with zeros in front. -/
theorem numeral_of_recased {width : Nat} {written : String} (h : Recased written (hex width n)) :
    Numeral 16 n written.toList := by
  have hread : readNumeral 16 (n + 1) written.toList = .ok n := by
    rw [← readNumeral_map_toUpper, h.toList_map_toUpper, readNumeral_map_toUpper]
    exact readNumeral_hex width (Nat.lt_succ_self n)
  exact ((readNumeral_eq_ok_iff_numeral (Or.inr rfl) (Nat.succ_pos n)).1 hread).1

end Text

namespace CommandLine.DumpRange

open Text

/-- A number of marks, one behind the other. -/
def marks (count : Nat) : List Char := (List.replicate count ['0', 'x']).flatten

/-- The range in writing: any number of marks and a hexadecimal number of 32 bits, a colon, and a
decimal number of 64 bits. -/
def Written (range : DumpRange) (argument : String) : Prop :=
  ∃ count front back, argument.toList = marks count ++ front ++ ':' :: back ∧
    Numeral 16 range.address front ∧ range.address < 2 ^ 32 ∧
    Numeral 10 range.count back ∧ range.count < 2 ^ 64

variable {argument : String} {range : DumpRange} {front back text : List Char} {n : Nat}

/-! ### Marks -/

theorem marks_succ (count : Nat) : marks (count + 1) = '0' :: 'x' :: marks count := by
  rw [marks, List.replicate_succ, List.flatten_cons]
  rfl

theorem dropMarks_marks (count : Nat) (text : List Char) :
    dropMarks (marks count ++ text) = dropMarks text := by
  induction count with
  | zero => rfl
  | succ count ih =>
    rw [marks_succ, List.cons_append, List.cons_append, dropMarks]
    exact ih

/-- What is dropped from the front of a text are marks. -/
theorem exists_marks (text : List Char) : ∃ count, text = marks count ++ dropMarks text := by
  fun_induction dropMarks text with
  | case1 rest ih =>
    obtain ⟨count, hrest⟩ := ih
    refine ⟨count + 1, ?_⟩
    rw [marks_succ, List.cons_append, List.cons_append, ← hrest]
  | case2 text => exact ⟨0, rfl⟩

/-- A numeral does not begin with a mark. -/
theorem dropMarks_of_numeral (h : Numeral 16 n text) : dropMarks text = text := by
  unfold dropMarks
  split
  · next rest =>
    have hx : 'x' ∈ '0' :: 'x' :: rest := by simp
    have hdigit : ¬ ('x' = '+' ∨ 'x'.toUpper ∈ digitRow) := by decide
    exact absurd (h.of_mem hx) hdigit
  · rfl

theorem colon_not_mem_marks (count : Nat) : ':' ∉ marks count := by
  induction count with
  | zero => exact List.not_mem_nil
  | succ count ih =>
    rw [marks_succ]
    simp [ih]

/-! ### The parts of an argument -/

theorem colon_not_mem_of_numeral {base : Nat} (h : Numeral base n text) : ':' ∉ text := by
  intro hmem
  have hdigit : ¬ (':' = '+' ∨ ':'.toUpper ∈ digitRow) := by decide
  exact hdigit (h.of_mem hmem)

theorem parseParts_eq_ok_iff :
    parseParts front back = .ok range ↔
      (Numeral 16 range.address (dropMarks front) ∧ range.address < wideLimit) ∧
        Numeral 10 range.count back ∧ range.count < countLimit := by
  obtain ⟨address, count⟩ := range
  rw [← readNumeral_eq_ok_iff_numeral (Or.inr rfl) (by decide),
    ← readNumeral_eq_ok_iff_numeral (Or.inl rfl) (by decide), parseParts]
  cases readNumeral 16 wideLimit (dropMarks front) with
  | error cause => simp
  | ok value =>
    cases readNumeral 10 countLimit back with
    | error cause => simp
    | ok words => simp

/-- The first colon parts the argument. -/
theorem parse_of_split (h : ':' ∉ front) (hargument : argument.toList = front ++ ':' :: back) :
    parse argument = parseParts front back := by
  have hfront : ∀ c ∈ front, (c != ':') = true := by
    intro c hc
    exact bne_iff_ne.2 fun hcolon => h (hcolon ▸ hc)
  have hstop : ∀ c ∈ (':' :: back).head?, (c != ':') = false := by
    rintro c ⟨⟩
    rfl
  obtain ⟨hleft, hright⟩ := takeWhile_append_of_stop hfront hstop
  rw [parse, hargument, hleft, hright]

theorem parse_eq_ok_iff_split :
    parse argument = .ok range ↔
      ∃ front back, argument.toList = front ++ ':' :: back ∧ ':' ∉ front ∧
        parseParts front back = .ok range := by
  constructor
  · intro h
    by_cases hcolon : ':' ∈ argument.toList
    · obtain ⟨front, back, hargument, hfront⟩ := List.eq_append_cons_of_mem hcolon
      rw [parse_of_split hfront hargument] at h
      exact ⟨front, back, hargument, hfront, h⟩
    · have hnone : argument.toList.dropWhile (· != ':') = [] := by
        refine List.dropWhile_eq_nil_iff.2 fun c hc => bne_iff_ne.2 ?_
        rintro rfl
        exact hcolon hc
      rw [parse, hnone] at h
      cases h
  · rintro ⟨front, back, hargument, hfront, h⟩
    rw [parse_of_split hfront hargument, h]

/-- The arguments that are accepted are the ranges in writing. -/
theorem parse_eq_ok_iff_written : parse argument = .ok range ↔ range.Written argument := by
  rw [parse_eq_ok_iff_split]
  constructor
  · rintro ⟨front, back, hargument, -, h⟩
    obtain ⟨⟨haddress, hwide⟩, hcount, hlong⟩ := parseParts_eq_ok_iff.1 h
    obtain ⟨count, hfront⟩ := exists_marks front
    rw [hfront] at hargument
    exact ⟨count, _, back, hargument, haddress, hwide, hcount, hlong⟩
  · rintro ⟨count, front, back, hargument, haddress, hwide, hcount, hlong⟩
    refine ⟨marks count ++ front, back, hargument, ?_, ?_⟩
    · rw [List.mem_append, not_or]
      exact ⟨colon_not_mem_marks count, colon_not_mem_of_numeral haddress⟩
    · rw [parseParts_eq_ok_iff, dropMarks_marks, dropMarks_of_numeral haddress]
      exact ⟨⟨haddress, hwide⟩, hcount, hlong⟩

/-- An argument is accepted exactly when it is a range in writing, and it gives that range. An
address printed in hexadecimal, in either case, with any zeros and marks in front, and a count
printed in decimal are read back. -/
theorem parse_reads_written :
    (∀ (argument : String) (range : DumpRange),
      parse argument = .ok range ↔ range.Written argument) ∧
    ∀ (range : DumpRange) (count width : Nat) (address : String),
      range.address < 2 ^ 32 → range.count < 2 ^ 64 → Recased address (hex width range.address) →
        parse (String.ofList (marks count) ++ address ++ ":" ++ toString range.count) =
          .ok range := by
  refine ⟨fun argument range => parse_eq_ok_iff_written, ?_⟩
  intro range count width address hwide hlong haddress
  refine parse_eq_ok_iff_written.2
    ⟨count, address.toList, (toString range.count).toList, ?_, numeral_of_recased haddress, hwide,
      numeral_toString range.count, hlong⟩
  have hcolon : ":".toList = [':'] := rfl
  simp only [String.toList_append, String.toList_ofList, hcolon, List.append_assoc,
    List.singleton_append]

/-- The largest address and the largest count, behind two marks and two zeros. -/
theorem largest_range_read :
    Recased "00fFFFFffF" (hex 10 0xFFFFFFFF) ∧
      parse "0x0x00fFFFFffF:18446744073709551615" = .ok ⟨0xFFFFFFFF, 18446744073709551615⟩ ∧
      DumpRange.Written ⟨0xFFFFFFFF, 18446744073709551615⟩
        "0x0x00fFFFFffF:18446744073709551615" := by
  have haddress : Recased "00fFFFFffF" (hex 10 0xFFFFFFFF) := by
    unfold Recased
    decide
  obtain ⟨hiff, hprinted⟩ := parse_reads_written
  have hread : parse "0x0x00fFFFFffF:18446744073709551615" =
      .ok ⟨0xFFFFFFFF, 18446744073709551615⟩ :=
    hprinted ⟨0xFFFFFFFF, 18446744073709551615⟩ 2 10 "00fFFFFffF" (by decide) (by decide) haddress
  exact ⟨haddress, hread, (hiff _ _).1 hread⟩

end CommandLine.DumpRange

end SicMachine
