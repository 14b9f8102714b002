import SicMachine.Disassembly
import SicMachine.Proofs.OperandGrammars

/-!
Words can be told from their texts. Every text but that of RSUB has one mark
`0x`, with a name in front of it and hexadecimal digits behind it, so it can be
taken apart in one way only. A name that is a mnemonic gives the opcode, the
ending gives the index flag and the digits the address; behind any other name
the digits are the whole word. RSUB is written without its operand, and its
words are the only ones that share a text.
-/
namespace SicMachine

namespace Text

theorem mem_digitRow_of_hex (width n : Nat) : ∀ c ∈ (hex width n).toList, c ∈ digitRow :=
  forall_mem_hex (by decide) width n

theorem number_hex (width n : Nat) : number 16 (hex width n).toList = n := by
  have hdigits := (digits_iff (Or.inr rfl)).1 (digits_hex width n)
  rw [← valueFrom_eq_number (Or.inr rfl) hdigits, valueFrom_hex]

theorem length_hex {width n : Nat} (hwidth : 0 < width) (h : n < 16 ^ width) :
    (hex width n).toList.length = width := by
  have hshort : (Nat.toDigits 16 n).length ≤ width :=
    (Nat.length_toDigits_le_iff (by decide) hwidth).2 h
  rw [hex, String.toList_ofList, List.length_leftpad, hexDigits, List.length_map]
  exact Nat.max_eq_left hshort

end Text

namespace Disassembly

open Text

/-! ### Texts with a number -/

/-- A text with a number: what stands in front of the mark, the digits behind it, and whether the
mark of an index is the ending. -/
structure WordText where
  name : String
  digits : List Char
  indexed : Bool
  unmarked : 'x' ∉ name.toList
  hexadecimal : ∀ c ∈ digits, c ∈ digitRow

namespace WordText

/-- What stands behind the digits. -/
def ending (t : WordText) : String := if t.indexed then ",X" else ""

def text (t : WordText) : String := t.name ++ " 0x" ++ String.ofList t.digits ++ t.ending

/-- The word that the text stands for. -/
def word (t : WordText) : Nat :=
  match Mnemonic.opcodeOf t.name with
  | .ok opcode => (Instruction.encode opcode t.indexed (number 16 t.digits)).word
  | .error _ => number 16 t.digits

theorem toList_text (t : WordText) :
    t.text.toList = (t.name.toList ++ [' ', '0']) ++ 'x' :: (t.digits ++ t.ending.toList) := by
  have hmark : " 0x".toList = [' ', '0', 'x'] := rfl
  simp [text, hmark]

/-- Neither ending begins with a digit. -/
theorem ending_stops (t : WordText) :
    ∀ c ∈ t.ending.toList.head?, decide (c ∈ digitRow) = false := by
  rw [ending]
  cases t.indexed with
  | false => rintro c ⟨⟩
  | true =>
    rintro c ⟨⟩
    decide

/-- A text has one name, one number and one ending. -/
theorem eq_of_text_eq {left right : WordText} (h : left.text = right.text) : left = right := by
  have hlist := congrArg String.toList h
  rw [toList_text, toList_text] at hlist
  have hfront : ∀ t : WordText, ∀ c ∈ t.name.toList ++ [' ', '0'], (c != 'x') = true := by
    intro t c hc
    rcases List.mem_append.1 hc with hc | hc
    · exact bne_iff_ne.2 fun hx => t.unmarked (hx ▸ hc)
    · have hblank : ∀ d ∈ [' ', '0'], (d != 'x') = true := by simp
      exact hblank c hc
  have hstop : ∀ rest, ∀ c ∈ ('x' :: rest).head?, (c != 'x') = false := by
    rintro rest c ⟨⟩
    rfl
  obtain ⟨hname, hbehind⟩ :=
    append_eq_append_of_stop (hfront left) (hfront right) (hstop _) (hstop _) hlist
  have hdigits : ∀ t : WordText, ∀ c ∈ t.digits, decide (c ∈ digitRow) = true :=
    fun t c hc => decide_eq_true (t.hexadecimal c hc)
  obtain ⟨hnumber, hending⟩ := append_eq_append_of_stop (hdigits left) (hdigits right)
    left.ending_stops right.ending_stops (List.tail_eq_of_cons_eq hbehind)
  obtain ⟨name, digits, indexed, unmarked, hexadecimal⟩ := left
  obtain ⟨other, others, flag, _, _⟩ := right
  obtain rfl : name = other := String.toList_inj.1 (List.append_cancel_right hname)
  obtain rfl : digits = others := hnumber
  obtain rfl : indexed = flag := by
    revert hending
    cases indexed <;> cases flag <;> simp [ending]
  rfl

theorem text_ne_name_rsub (t : WordText) : t.text ≠ Mnemonic.rsub.name := by
  intro h
  have hx : 'x' ∈ t.text.toList := by
    rw [toList_text]
    simp
  rw [h] at hx
  revert hx
  decide

end WordText

/-! ### The text of a word -/

/-- An instruction word with the opcode of RSUB. -/
def Returns (word : Nat) : Prop :=
  ∃ i, Instruction.decode word = .ok i ∧ i.opcode = Mnemonic.rsub.opcode

variable {word : Nat} {i : Instruction} {mnemonic : Mnemonic}

theorem ofWord_of_decode (h : Instruction.decode word = .ok i) : ofWord word = ofInstruction i := by
  rw [ofWord, h]

theorem ofWord_of_returns (h : Returns word) : ofWord word = Mnemonic.rsub.name := by
  obtain ⟨i, hdecode, hopcode⟩ := h
  rw [ofWord_of_decode hdecode, ofInstruction, hopcode, Mnemonic.ofOpcode?_opcode]

/-- The text of an instruction with an operand. -/
def instructionText (i : Instruction) (mnemonic : Mnemonic) : WordText where
  name := mnemonic.name
  digits := (hex 4 i.address.val).toList
  indexed := i.indexed
  unmarked := by cases mnemonic <;> decide
  hexadecimal := mem_digitRow_of_hex 4 _

/-- The text of a number behind a name that is no mnemonic. -/
def numberText (name : String) (h : 'x' ∉ name.toList) (width n : Nat) : WordText where
  name := name
  digits := (hex width n).toList
  indexed := false
  unmarked := h
  hexadecimal := mem_digitRow_of_hex width n

theorem opcodeOf_name (mnemonic : Mnemonic) :
    Mnemonic.opcodeOf mnemonic.name = .ok mnemonic.opcode := by
  cases mnemonic <;> rfl

theorem ofWord_of_mnemonic (hdecode : Instruction.decode word = .ok i)
    (hmnemonic : Mnemonic.ofOpcode? i.opcode = some mnemonic) (hother : mnemonic ≠ .rsub) :
    ofWord word = mnemonic.name ++ " 0x" ++ hex 4 i.address.val ++
      (if i.indexed then ",X" else "") := by
  have hmark : " 0x" = " " ++ "0x" := rfl
  rw [ofWord_of_decode hdecode, ofInstruction, hmnemonic, hmark]
  split
  · next hrsub => exact absurd (Option.some.inj hrsub) hother
  · next heq =>
    cases heq
    simp only [marked, String.append_assoc]
  · next hnone => cases hnone

/-- The mnemonic and the digits of the address give back the word. -/
theorem word_of_mnemonic (hdecode : Instruction.decode word = .ok i)
    (hmnemonic : Mnemonic.ofOpcode? i.opcode = some mnemonic) :
    (Instruction.encode mnemonic.opcode i.indexed
      (number 16 (hex 4 i.address.val).toList)).word = word := by
  rw [Mnemonic.opcode_of_ofOpcode? hmnemonic, number_hex, Instruction.encode_fields]
  exact Instruction.decode_eq_ok_iff.1 hdecode

theorem word_instructionText (hdecode : Instruction.decode word = .ok i)
    (hmnemonic : Mnemonic.ofOpcode? i.opcode = some mnemonic) :
    (instructionText i mnemonic).word = word := by
  simp only [WordText.word, instructionText, opcodeOf_name]
  exact word_of_mnemonic hdecode hmnemonic

/-- Behind a name that is no mnemonic stands the word itself. -/
theorem word_numberText {name : String} {error : UnknownMnemonic}
    (hname : Mnemonic.opcodeOf name = .error error) (h : 'x' ∉ name.toList) (width n : Nat) :
    (numberText name h width n).word = n := by
  simp only [WordText.word, numberText, hname, number_hex]

theorem text_numberText {name : String} (h : 'x' ∉ name.toList) (width n : Nat) :
    (numberText name h width n).text = name ++ " " ++ marked width n := by
  have hmark : " 0x" = " " ++ "0x" := rfl
  simp only [WordText.text, WordText.ending, numberText, marked, String.ofList_toList,
    String.append_assoc, hmark]
  simp

theorem ofWord_of_no_mnemonic (hdecode : Instruction.decode word = .ok i)
    (hnone : Mnemonic.ofOpcode? i.opcode = none) : ofWord word = "WORD 0x" ++ hex 6 word := by
  rw [ofWord_of_decode hdecode, ofInstruction, hnone, Instruction.decode_eq_ok_iff.1 hdecode]
  simp only [marked, ← String.append_assoc]
  rfl

/-- Every word but those of RSUB has a text with a number that stands for it. -/
theorem returns_or_exists_wordText (word : Nat) :
    Returns word ∨ ∃ t : WordText, ofWord word = t.text ∧ t.word = word := by
  by_cases hword : word < wordLimit
  · have hdecode := Instruction.decode_of_lt hword
    cases hmnemonic : Mnemonic.ofOpcode? (Instruction.ofWord word).opcode with
    | some mnemonic =>
      by_cases hrsub : mnemonic = .rsub
      · subst hrsub
        exact Or.inl ⟨_, hdecode, (Mnemonic.opcode_of_ofOpcode? hmnemonic).symm⟩
      · refine Or.inr ⟨instructionText (Instruction.ofWord word) mnemonic, ?_,
          word_instructionText hdecode hmnemonic⟩
        rw [ofWord_of_mnemonic hdecode hmnemonic hrsub, WordText.text, WordText.ending,
          instructionText, String.ofList_toList]
    | none =>
      have hname : Mnemonic.opcodeOf "WORD" = .error ⟨"WORD"⟩ := rfl
      refine Or.inr ⟨numberText "WORD" (by decide) 6 word, ?_, word_numberText hname _ 6 word⟩
      rw [ofWord_of_no_mnemonic hdecode hmnemonic, text_numberText]
      rfl
  · have hname : Mnemonic.opcodeOf "??? ;" = .error ⟨"??? ;"⟩ := rfl
    refine Or.inr ⟨numberText "??? ;" (by decide) 0 word, ?_, word_numberText hname _ 0 word⟩
    rw [ofWord_of_wide (Nat.le_of_not_lt hword), text_numberText]
    rfl

theorem ofWord_eq_iff {left right : Nat} :
    ofWord left = ofWord right ↔ left = right ∨ Returns left ∧ Returns right := by
  constructor
  · intro h
    rcases returns_or_exists_wordText left with hleft | ⟨t, htext, hword⟩
    · rcases returns_or_exists_wordText right with hright | ⟨t, htext, -⟩
      · exact Or.inr ⟨hleft, hright⟩
      · rw [ofWord_of_returns hleft, htext] at h
        exact absurd h.symm t.text_ne_name_rsub
    · rcases returns_or_exists_wordText right with hright | ⟨other, hother, hright⟩
      · rw [ofWord_of_returns hright, htext] at h
        exact absurd h t.text_ne_name_rsub
      · rw [htext, hother] at h
        rw [WordText.eq_of_text_eq h] at hword
        exact Or.inl (hword.symm.trans hright)
  · rintro (rfl | ⟨hleft, hright⟩)
    · rfl
    · rw [ofWord_of_returns hleft, ofWord_of_returns hright]

/-- A word of 24 bits is what its text says. With a mnemonic other than RSUB the text is the
mnemonic, the address and the mark of an index, and the instruction with these fields is the word.
Without a mnemonic the text has six digits for the whole word. Two words, of any width, have one
text only if they are the same or are both RSUB. -/
theorem ofWord_reversible :
    (∀ word < 2 ^ 24, ∃ i, Instruction.decode word = .ok i ∧
      (∀ mnemonic, Mnemonic.ofOpcode? i.opcode = some mnemonic → mnemonic ≠ .rsub →
        ∃ digits opcode, digits ≠ [] ∧ (∀ c ∈ digits, c ∈ digitRow) ∧
          ofWord word = mnemonic.name ++ " 0x" ++ String.ofList digits ++
            (if i.indexed then ",X" else "") ∧
          Mnemonic.opcodeOf mnemonic.name = .ok opcode ∧
          (Instruction.encode opcode i.indexed (number 16 digits)).word = word) ∧
      (Mnemonic.ofOpcode? i.opcode = none →
        ∃ digits, digits.length = 6 ∧ (∀ c ∈ digits, c ∈ digitRow) ∧
          ofWord word = "WORD 0x" ++ String.ofList digits ∧ number 16 digits = word)) ∧
    ∀ left right, ofWord left = ofWord right ↔ left = right ∨ Returns left ∧ Returns right := by
  refine ⟨fun word hword => ?_, fun left right => ofWord_eq_iff⟩
  have hdecode := Instruction.decode_of_lt hword
  refine ⟨_, hdecode, fun mnemonic hmnemonic hother => ?_, fun hnone => ?_⟩
  · refine ⟨(hex 4 (Instruction.ofWord word).address.val).toList, mnemonic.opcode, hex_ne_nil 4 _,
      mem_digitRow_of_hex 4 _, ?_, opcodeOf_name mnemonic, word_of_mnemonic hdecode hmnemonic⟩
    rw [ofWord_of_mnemonic hdecode hmnemonic hother, String.ofList_toList]
  · have hsix : word < 16 ^ 6 := Nat.lt_of_lt_of_le hword (by decide)
    refine ⟨_, length_hex (by decide) hsix, mem_digitRow_of_hex 6 word, ?_, number_hex 6 word⟩
    rw [ofWord_of_no_mnemonic hdecode hnone, String.ofList_toList]

/-- An indexed store, a word without a mnemonic, two words of RSUB, and a word that is too wide. -/
theorem texts_read_back :
    (∃ digits, digits ≠ [] ∧ ofWord 0x54A001 = "STCH 0x" ++ String.ofList digits ++ ",X" ∧
        (Instruction.encode 0x54 true (number 16 digits)).word = 0x54A001) ∧
      (∃ digits, digits.length = 6 ∧ ofWord 0xFF0005 = "WORD 0x" ++ String.ofList digits ∧
        number 16 digits = 0xFF0005) ∧
      ofWord 0x4C0000 = ofWord 0x4CFFFF ∧ ofWord 0x1000000 ≠ ofWord 0 := by
  obtain ⟨hwords, hpairs⟩ := ofWord_reversible
  refine ⟨?_, ?_, ?_, ?_⟩
  · obtain ⟨i, hdecode, hinstruction, -⟩ := hwords 0x54A001 (by decide)
    cases hdecode
    obtain ⟨digits, opcode, hdigits, -, htext, hopcode, hword⟩ :=
      hinstruction .stch rfl (by decide)
    cases hopcode
    exact ⟨digits, hdigits, htext, hword⟩
  · obtain ⟨i, hdecode, -, hconstant⟩ := hwords 0xFF0005 (by decide)
    cases hdecode
    obtain ⟨digits, hsix, -, htext, hword⟩ := hconstant rfl
    exact ⟨digits, hsix, htext, hword⟩
  · exact (hpairs _ _).2 (Or.inr ⟨⟨_, rfl, rfl⟩, ⟨_, rfl, rfl⟩⟩)
  · intro h
    rcases (hpairs _ _).1 h with hsame | ⟨⟨i, hdecode, -⟩, -⟩
    · cases hsame
    · cases hdecode

end Disassembly

end SicMachine
