import SicMachine.Disassembly
import SicMachine.Proofs.LetterCase
import SicMachine.Proofs.ListedWords
import SicMachine.Proofs.Numerals

/-!
Words written back as text make up a source. The text of each word is a
statement without a label that takes up one word again, an instruction or a
WORD, so the location behind each line is where the loader puts the next word.
The assembly and the loader check the room in different ways, and both refuse
the same words.
-/
namespace SicMachine

theorem Text.digits_map_toUpper {base : Nat} {text : List Char} :
    Digits base (text.map Char.toUpper) ↔ Digits base text := by
  simp only [Digits, List.forall_mem_map, digitValue?_toUpper]

/-! ### The text of a word as a statement -/

namespace Statement

/-- An instruction or a WORD without a label. -/
structure OneWord (s : Statement) : Prop where
  label : s.label = none
  mnemonic : ∃ name, s.mnemonic = some name ∧
    ((∃ mnemonic : Mnemonic, name = mnemonic.name) ∨ name = Directive.word.name)

theorem field_name (mnemonic : Mnemonic) : Field mnemonic.name := by
  cases mnemonic <;> exact field_of_solid (by decide) (by decide)

theorem no_period_name (mnemonic : Mnemonic) : mnemonic.name.toList.head? ≠ some '.' := by
  cases mnemonic <;> decide

/-- A marked number is a field, and its second character is the mark. -/
theorem field_marked (width n : Nat) : Field (Text.marked width n) := by
  have hsolid : ∀ d < 16, Text.isBlank (Nat.digitChar d).toUpper = false := by decide
  have hmark : Field "0x" := field_of_solid (by decide) (by decide)
  exact hmark.append (solid_iff.2 (Text.forall_mem_hex hsolid width n))

theorem not_quoteSecond_marked (width n : Nat) (rest : String) :
    ¬ QuoteSecond (Text.marked width n ++ rest) := by
  rw [quoteSecond_iff]
  rintro ⟨kind, more, hlist, -⟩
  rw [Text.marked, String.toList_append, String.toList_append] at hlist
  cases hlist

theorem field_of_digits {base : Nat} {text : String} (hne : text.toList ≠ [])
    (h : Text.Digits base text.toList) : Field text := by
  refine ⟨fun hempty => hne (String.toList_eq_nil_iff.2 hempty), fun c hc => ?_⟩
  have hcode := Text.toNat_of_digit (h c hc)
  exact Text.isBlank_of_printed (by omega) (by omega)

theorem not_quoteSecond_of_digits {base : Nat} {text : String} (h : Text.Digits base text.toList) :
    ¬ QuoteSecond text := by
  rw [quoteSecond_iff]
  rintro ⟨kind, more, hlist, -⟩
  rw [hlist] at h
  have hcode := Text.toNat_of_digit (h '\'' (by simp))
  revert hcode
  decide

end Statement

namespace Disassembly

open Statement

/-- The text of an instruction is read as a statement of one word. -/
theorem parse_ofInstruction (i : Instruction) :
    ∃ s, parse (" " ++ ofInstruction i) = some s ∧ s.OneWord := by
  unfold ofInstruction
  split
  · have hlaid := laidOut_of_name (field_name .rsub) (no_period_name .rsub) (.bare blank_empty)
    rw [String.append_empty] at hlaid
    exact ⟨_, parse_of_laidOut hlaid, rfl, _, rfl, Or.inl ⟨.rsub, rfl⟩⟩
  · next mnemonic _ _ =>
    have hsuffix : Solid (if i.indexed then ",X" else "") := by
      split <;> decide
    have hending := ending_operand ((field_marked 4 i.address.val).append hsuffix)
      (not_quoteSecond_marked 4 i.address.val _)
    have hlaid := laidOut_of_name (field_name mnemonic) (no_period_name mnemonic) hending
    rw [String.append_assoc, String.append_assoc]
    exact ⟨_, parse_of_laidOut hlaid, rfl, _, rfl, Or.inl ⟨mnemonic, rfl⟩⟩
  · have hquote : ¬ QuoteSecond (Text.marked 6 i.word) := by
      have hmarked := not_quoteSecond_marked 6 i.word ""
      rwa [String.append_empty] at hmarked
    have hname : Field Directive.word.name := field_of_solid (by decide) (by decide)
    have hlaid := laidOut_of_name hname (by decide) (ending_operand (field_marked 6 i.word) hquote)
    have hsplit : "WORD " = Directive.word.name ++ " " := by decide
    rw [hsplit, String.append_assoc]
    exact ⟨_, parse_of_laidOut hlaid, rfl, _, rfl, Or.inr rfl⟩

theorem parse_ofWord {word : Nat} (h : word < wordLimit) :
    ∃ s, parse (" " ++ ofWord word) = some s ∧ s.OneWord := by
  rw [ofWord, Instruction.decode_of_lt h]
  exact parse_ofInstruction _

/-- A source that starts at an address and has a line for the text of each word. -/
def source (address : String) (words : List Nat) : List String :=
  (" START " ++ address) :: words.map fun word => " " ++ ofWord word

end Disassembly

namespace PassOne

open Disassembly

/-! ### The location behind each line -/

/-- What is known behind a START and lines without labels. -/
def counted (start location : Nat) : Progress := ⟨.empty, none, start, location, false⟩

variable {start location : Nat} {words : List Nat}

/-- A statement of one word moves the location on when there is room for the word. -/
theorem place_of_oneWord {s : Statement} (h : s.OneWord) (start location : Nat) :
    place (counted start location) s =
      if location + wordBytes ≤ memorySize then .ok (counted start (location + wordBytes), false)
      else .error .programTooLarge := by
  obtain ⟨label, mnemonic, operand⟩ := s
  obtain ⟨rfl, name, rfl, hname⟩ := h
  have hstorage : Directive.ofName? name ≠ some .start ∧ Directive.ofName? name ≠ some .finish ∧
      storage name (Directive.ofName? name) operand = .ok wordBytes := by
    rcases hname with ⟨mnemonic, rfl⟩ | rfl
    · have hnone : Directive.ofName? mnemonic.name = none := by cases mnemonic <;> rfl
      have hsome : (Mnemonic.ofName? mnemonic.name).isSome = true := by cases mnemonic <;> rfl
      simp [storage, hnone, hsome]
    · have hword : Directive.ofName? Directive.word.name = some .word := rfl
      simp [storage, hword, Directive.size, Except.mapError]
  obtain ⟨hstart, hfinish, hbytes⟩ := hstorage
  exact place_of_storage (s := ⟨none, some name, operand⟩) rfl rfl hstart hfinish hbytes

/-- Lines of words that fit are read to the location behind the last of them. -/
theorem reads_words (hwords : ∀ word ∈ words, word < wordLimit)
    (hfits : location + words.length * wordBytes ≤ memorySize) :
    Reads (counted start location) (words.map fun word => " " ++ ofWord word)
      (counted start (location + words.length * wordBytes)) := by
  induction words generalizing location with
  | nil => exact .done
  | cons word rest ih =>
    obtain ⟨hword, hrest⟩ := List.forall_mem_cons.1 hwords
    obtain ⟨s, hparse, hone⟩ := parse_ofWord hword
    simp only [List.length_cons, wordBytes] at hfits
    have hplace := place_of_oneWord hone start location
    rw [if_pos (by simp only [wordBytes]; omega)] at hplace
    have hbehind : location + wordBytes + rest.length * wordBytes ≤ memorySize := by
      simp only [wordBytes]
      omega
    have hend : location + wordBytes + rest.length * wordBytes =
        location + (word :: rest).length * wordBytes := by
      simp only [List.length_cons, wordBytes]
      omega
    have hmore := ih hrest hbehind
    rw [hend] at hmore
    exact .next hparse hplace hmore

/-- START with a hexadecimal address inside memory, in either case. -/
theorem reads_start {width : Nat} {address : String} (hstart : start < memorySize)
    (haddress : Text.Recased address (Text.hex width start)) :
    Reads .initial [" START " ++ address] (counted start start) := by
  have hcapitals := haddress.toList_map_toUpper
  have hdigits : Text.Digits 16 address.toList := by
    rw [← Text.digits_map_toUpper, hcapitals, Text.digits_map_toUpper]
    exact Text.digits_hex width start
  have hne : address.toList ≠ [] := by
    rw [Ne, ← List.map_eq_nil_iff (f := Char.toUpper), hcapitals, List.map_eq_nil_iff]
    exact Text.hex_ne_nil width start
  have hread : Text.readNumeral 16 wideLimit address.toList = .ok start := by
    rw [← Text.readNumeral_map_toUpper, hcapitals, Text.readNumeral_map_toUpper]
    exact Text.readNumeral_hex width (Nat.lt_trans hstart (by decide))
  have hending := Statement.ending_operand (Statement.field_of_digits hne hdigits)
    (Statement.not_quoteSecond_of_digits hdigits)
  have hname : Statement.Field Directive.start.name :=
    Statement.field_of_solid (by decide) (by decide)
  have hparse := Statement.parse_of_laidOut (Statement.laidOut_of_name hname (by decide) hending)
  have hvalue : startAddress (some address) = .ok start := by
    simp only [startAddress, hread, if_pos hstart]
  have hdirective : Directive.ofName? Directive.start.name = some .start := rfl
  have hopened : applyStart .initial (some .start) (some address) = .ok (counted start start) := by
    simp only [applyStart, Progress.initial, if_true, hvalue]
    rfl
  have hreserved : reserve (counted start start) 0 = .ok (counted start start) :=
    if_pos (Nat.le_of_lt hstart)
  have hplace : place .initial ⟨none, some Directive.start.name, some address⟩ =
      .ok (counted start start, false) := by
    simp only [place, hdirective, hopened]
    show (reserve (counted start start) 0 >>= fun progress => Except.ok (progress, false)) = _
    rw [hreserved]
    rfl
  exact .next hparse hplace .done

theorem Reads.append {p q r : Progress} {before after : List String} (h : Reads p before q)
    (hafter : Reads q after r) : Reads p (before ++ after) r := by
  induction h with
  | done => exact hafter
  | skip hparse _ ih => exact .skip hparse (ih hafter)
  | next hparse hplace _ ih => exact .next hparse hplace (ih hafter)

/-! ### The whole source -/

section Source

variable {width : Nat} {address : String}

theorem reads_source (hstart : start < memorySize) (hwords : ∀ word ∈ words, word < wordLimit)
    (haddress : Text.Recased address (Text.hex width start))
    (hfits : start + words.length * wordBytes ≤ memorySize) :
    Reads .initial (source address words) (counted start (start + words.length * wordBytes)) :=
  (reads_start hstart haddress).append (reads_words hwords hfits)

theorem run_source_of_fits (hstart : start < memorySize) (hwords : ∀ word ∈ words, word < wordLimit)
    (haddress : Text.Recased address (Text.hex width start))
    (hfits : start + words.length * wordBytes ≤ memorySize) :
    run (source address words) = .ok (.empty, ⟨none, start, words.length * wordBytes, start⟩) := by
  have hlength : start + words.length * wordBytes - start = words.length * wordBytes := by omega
  rw [run_of_reads (reads_source hstart hwords haddress hfits), counted, Progress.summary, hlength]

/-- The first word without room stops the assembly on its line. -/
theorem run_source_of_overflow {before after : List Nat} {word : Nat} (hstart : start < memorySize)
    (hwords : ∀ other ∈ before ++ word :: after, other < wordLimit)
    (haddress : Text.Recased address (Text.hex width start))
    (hfits : start + before.length * wordBytes ≤ memorySize)
    (hover : memorySize < start + before.length * wordBytes + wordBytes) :
    run (source address (before ++ word :: after)) =
      .error ⟨before.length + 2, .programTooLarge⟩ := by
  obtain ⟨hbefore, hbehind⟩ := List.forall_mem_append.1 hwords
  have hread := reads_source hstart hbefore haddress hfits
  obtain ⟨s, hparse, hone⟩ := parse_ofWord (hbehind word List.mem_cons_self)
  have hplace := place_of_oneWord hone start (start + before.length * wordBytes)
  rw [if_neg (Nat.not_le.2 hover)] at hplace
  have hsplit : source address (before ++ word :: after) =
      source address before ++ (" " ++ ofWord word) ::
        after.map fun word => " " ++ ofWord word := by
    rw [source, source, List.map_append, List.map_cons, List.cons_append]
  have hlines : (source address before).length = before.length + 1 := by
    rw [source, List.length_cons, List.length_map]
  rw [hsplit, run_of_faults hread hparse (.statement hplace), hlines]

/-- Words that do not all fit have a first one among them that does not. -/
theorem exists_overflow (hstart : start < memorySize)
    (hover : ¬ start + words.length * wordBytes ≤ memorySize) :
    ∃ before word after, words = before ++ word :: after ∧
      start + before.length * wordBytes ≤ memorySize ∧
      memorySize < start + before.length * wordBytes + wordBytes := by
  obtain ⟨i, hi⟩ : ∃ i, i = (memorySize - start) / wordBytes := ⟨_, rfl⟩
  simp only [wordBytes] at hover hi ⊢
  have hlength : i < words.length := by omega
  have htaken : (words.take i).length = i := List.length_take_of_le (Nat.le_of_lt hlength)
  refine ⟨words.take i, words[i], words.drop (i + 1), ?_, ?_, ?_⟩
  · rw [List.getElem_cons_drop, List.take_append_drop]
  · omega
  · omega

end Source

/-- Words written back as text and assembled behind a START fit exactly when they can be loaded
there. The program has their length then, and otherwise the first word that cannot be loaded is the
line at fault. -/
theorem disassembled_fits_as_loaded (memory : Memory) (start width : Nat) (address : String)
    (words : List Nat) (hstart : start < memorySize) (hwords : ∀ word ∈ words, word < wordLimit)
    (haddress : Text.Recased address (Text.hex width start)) :
    ((∃ result, run (source address words) = .ok result) ↔
        ∃ loaded, memory.loadWords start words = .ok loaded) ∧
      (∀ table summary, run (source address words) = .ok (table, summary) →
        table = .empty ∧ summary = ⟨none, start, 3 * words.length, start⟩) ∧
      ∀ error, run (source address words) = .error error →
        ∃ i < words.length, error = ⟨i + 2, .programTooLarge⟩ ∧
          (∃ loaded, memory.loadWords start (words.take i) = .ok loaded) ∧
          ∀ loaded, memory.loadWords start (words.take (i + 1)) ≠ .ok loaded := by
  by_cases hfits : start + words.length * wordBytes ≤ memorySize
  · have hrun := run_source_of_fits hstart hwords haddress hfits
    have hload := memory.loadWords_of_fits hfits
    rw [hrun, Nat.mul_comm]
    refine ⟨⟨fun _ => ⟨_, hload⟩, fun _ => ⟨_, rfl⟩⟩, ?_, ?_⟩
    · rintro table summary ⟨⟩
      exact ⟨rfl, rfl⟩
    · rintro error ⟨⟩
  · obtain ⟨before, word, after, rfl, hbefore, hover⟩ := exists_overflow hstart hfits
    have hrun := run_source_of_overflow hstart hwords haddress hbefore hover
    simp only [wordBytes] at hfits hbefore hover
    have hrefused : ¬ ∃ loaded, memory.loadWords start (before ++ word :: after) = .ok loaded := by
      rw [Memory.exists_loadWords_iff]
      omega
    rw [hrun]
    refine ⟨⟨?_, fun h => absurd h hrefused⟩, ?_, ?_⟩
    · rintro ⟨result, ⟨⟩⟩
    · rintro table summary ⟨⟩
    · rintro error ⟨⟩
      refine ⟨before.length, by simp, rfl, ?_, ?_⟩
      · rw [List.take_left, Memory.exists_loadWords_iff]
        omega
      · rw [← not_exists, Memory.exists_loadWords_iff, List.take_length_add_append,
          List.length_append, List.take_succ_cons, List.length_cons]
        omega

/-- Three words behind `7FFA`: there is room for RSUB and for a word without an instruction, and
none for the load that follows. -/
theorem three_words_fit_as_loaded :
    run (source "7ffa" [0x4C0000, 0xFF0005]) = .ok (.empty, ⟨none, 0x7FFA, 6, 0x7FFA⟩) ∧
      (∃ loaded, Memory.zero.loadWords 0x7FFA [0x4C0000, 0xFF0005] = .ok loaded) ∧
      run (source "7ffa" [0x4C0000, 0xFF0005, 0x00A010]) = .error ⟨4, .programTooLarge⟩ ∧
      ∀ loaded, Memory.zero.loadWords 0x7FFA [0x4C0000, 0xFF0005, 0x00A010] ≠ .ok loaded := by
  have haddress : Text.Recased "7ffa" (Text.hex 4 0x7FFA) := by
    unfold Text.Recased
    decide
  have hrun : run (source "7ffa" [0x4C0000, 0xFF0005, 0x00A010]) = .error ⟨4, .programTooLarge⟩ := by
    rfl
  obtain ⟨hiff, hprogram, -⟩ := disassembled_fits_as_loaded .zero 0x7FFA 4 "7ffa"
    [0x4C0000, 0xFF0005] (by decide) (by decide) haddress
  obtain ⟨-, -, herror⟩ := disassembled_fits_as_loaded .zero 0x7FFA 4 "7ffa"
    [0x4C0000, 0xFF0005, 0x00A010] (by decide) (by decide) haddress
  obtain ⟨i, -, hi, hloads, hover⟩ := herror _ hrun
  obtain rfl : i = 2 := by
    injection hi with hline
    omega
  obtain ⟨⟨table, summary⟩, hresult⟩ := hiff.2 hloads
  obtain ⟨rfl, rfl⟩ := hprogram table summary hresult
  exact ⟨hresult, hloads, hrun, hover⟩

end PassOne

end SicMachine
