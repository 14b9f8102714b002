import Mathlib.Data.List.DropRight
import Mathlib.Data.List.TakeWhile
import SicMachine.Proofs.ProgramPlacement

/-!
The layout of a source line, said without reading it. A line is its fields with
white space between them, and behind the operand stands a comment. Reading a
line gives the fields of its layout, and every line that holds a statement has
one, so the layout of a line is the only one that it has. Whether an operand is
quoted depends on its second byte, which is a quote only behind a character of
one byte.
-/
namespace SicMachine

/-! ### Texts that are parted at a character -/

namespace Text

variable {p : Char → Bool} {front rest others behind : List Char}

/-- The characters in front of the first one that stops, and what is left. -/
theorem takeWhile_append_of_stop (hfront : ∀ c ∈ front, p c = true)
    (hstop : ∀ c ∈ rest.head?, p c = false) :
    (front ++ rest).takeWhile p = front ∧ (front ++ rest).dropWhile p = rest := by
  rw [List.takeWhile_append_of_pos hfront, List.dropWhile_append_of_pos hfront]
  cases rest with
  | nil => simp
  | cons c rest =>
    have hc : p c = false := hstop c rfl
    simp [hc]

/-- Where the first character stops, a text is parted in one way only. -/
theorem append_eq_append_of_stop (hfront : ∀ c ∈ front, p c = true)
    (hothers : ∀ c ∈ others, p c = true) (hstop : ∀ c ∈ rest.head?, p c = false)
    (hbehind : ∀ c ∈ behind.head?, p c = false) (h : front ++ rest = others ++ behind) :
    front = others ∧ rest = behind := by
  obtain ⟨htaken, hleft⟩ := takeWhile_append_of_stop hfront hstop
  obtain ⟨hother, hmore⟩ := takeWhile_append_of_stop hothers hbehind
  rw [h] at htaken hleft
  exact ⟨htaken.symm.trans hother, hleft.symm.trans hmore⟩

end Text

namespace Statement

open Text

/-! ### Fields and what stands between them -/

/-- White space alone, if anything. -/
def Blank (text : String) : Prop := ∀ c ∈ text.toList, isBlank c = true

/-- White space that sets fields apart. -/
structure Gap (text : String) : Prop where
  nonempty : text ≠ ""
  blank : Blank text

structure Field (text : String) : Prop where
  nonempty : text ≠ ""
  solid : ∀ c ∈ text.toList, isBlank c = false

/-- Text that does not go on with a field before it: it is empty or begins with white space. -/
def Apart (text : String) : Prop := ∀ c ∈ text.toList.head?, isBlank c = true

/-- In upper case the text is the name of an instruction or a directive. -/
def NamesKeyword (text : String) : Prop :=
  (∃ mnemonic : Mnemonic, mnemonic.name = upperCase text) ∨
    ∃ directive : Directive, directive.name = upperCase text

/-- The second byte of a text is a quote. -/
def QuoteSecond (text : String) : Prop := text.toUTF8[1]? = some 39

/-- What stands on a line behind the mnemonic: an operand, if there is one, and a comment. A quoted
operand ends with its second quote, whatever comes next. -/
inductive Ending : String → Option String → Prop
  | bare {rest : String} (hrest : Blank rest) : Ending rest none
  | plain {gap operand rest : String} (hgap : Gap gap) (hoperand : Field operand)
      (hquote : ¬ QuoteSecond operand) (hrest : Apart rest) :
      Ending (gap ++ operand ++ rest) (some operand)
  | quoted {gap body rest : String} {kind : Char} (hgap : Gap gap) (hkind : isBlank kind = false)
      (hsize : kind.utf8Size = 1) (hbody : '\'' ∉ body.toList) :
      Ending (gap ++ (String.singleton kind ++ "'" ++ body ++ "'") ++ rest)
        (some (String.singleton kind ++ "'" ++ body ++ "'"))
  | unclosed {gap operand rest : String} (hgap : Gap gap) (hoperand : Field operand)
      (hquote : QuoteSecond operand) (hopen : '\'' ∉ operand.toList.drop 2) (hrest : Apart rest)
      (hnever : '\'' ∉ rest.toList) : Ending (gap ++ operand ++ rest) (some operand)

/-- A line and the statement that its fields make up. -/
inductive LaidOut : String → Statement → Prop
  | labelAlone {label rest : String} (hlabel : Field label)
      (hperiod : label.toList.head? ≠ some '.') (hkeyword : ¬ NamesKeyword label)
      (hrest : Blank rest) : LaidOut (label ++ rest) ⟨some label, none, none⟩
  | labelled {label gap mnemonic rest : String} {operand : Option String} (hlabel : Field label)
      (hperiod : label.toList.head? ≠ some '.') (hkeyword : ¬ NamesKeyword label) (hgap : Gap gap)
      (hmnemonic : Field mnemonic) (hrest : Ending rest operand) :
      LaidOut (label ++ gap ++ mnemonic ++ rest) ⟨some label, some mnemonic, operand⟩
  | indented {gap mnemonic rest : String} {operand : Option String} (hgap : Gap gap)
      (hmnemonic : Field mnemonic) (hperiod : mnemonic.toList.head? ≠ some '.')
      (hrest : Ending rest operand) :
      LaidOut (gap ++ mnemonic ++ rest) ⟨none, some mnemonic, operand⟩
  | unlabelled {mnemonic rest : String} {operand : Option String} (hmnemonic : Field mnemonic)
      (hkeyword : NamesKeyword mnemonic) (hrest : Ending rest operand) :
      LaidOut (mnemonic ++ rest) ⟨none, some mnemonic, operand⟩

/-! ### The second byte -/

/-- The bytes of a character that takes more than one are not ASCII. -/
theorem quote_not_mem_encode {c : Char} (h : c.utf8Size ≠ 1) :
    (39 : UInt8) ∉ String.utf8EncodeChar c := by
  have hwide : ¬ c.val.toNat ≤ 127 := fun hle => h (Char.utf8Size_eq_one_iff.2 hle)
  have hquote : ∀ {n : Nat}, (39 : UInt8) = UInt8.ofNat n ↔ n % 256 = 39 := by
    intro n
    rw [← UInt8.toNat_inj, UInt8.toNat_ofNat', eq_comm]
    rfl
  unfold String.utf8EncodeChar
  simp only [if_neg hwide]
  -- Two, three or four bytes: a lead byte from 192 on, and the others from 128 on.
  split_ifs
  all_goals
    simp only [List.mem_cons, List.not_mem_nil, or_false, hquote]
    omega

theorem getElem?_encode_ne_quote {c : Char} {i : Nat} (h : c.utf8Size ≠ 1) (hi : i < c.utf8Size)
    (rest : List UInt8) : (String.utf8EncodeChar c ++ rest)[i]? ≠ some 39 := by
  rw [List.getElem?_append_left (by rwa [String.length_utf8EncodeChar])]
  intro hquote
  exact quote_not_mem_encode h (List.mem_of_getElem? hquote)

theorem toUInt8_eq_quote_iff {c : Char} (h : c.utf8Size = 1) :
    c.val.toUInt8 = 39 ↔ c = '\'' := by
  have hascii : c.val.toNat ≤ 127 := Char.utf8Size_eq_one_iff.1 h
  rw [← Char.toNat_inj, ← Char.toNat_val, ← UInt8.toNat_inj, UInt32.toNat_toUInt8,
    Nat.mod_eq_of_lt (by omega)]
  rfl

/-- The first byte of a text is a quote when its first character is. -/
theorem first_byte_eq_quote_iff {c : Char} {rest : List UInt8} :
    (String.utf8EncodeChar c ++ rest)[0]? = some 39 ↔ c = '\'' := by
  by_cases hsize : c.utf8Size = 1
  · rw [String.utf8EncodeChar_eq_singleton hsize, ← toUInt8_eq_quote_iff hsize]
    simp
  · constructor
    · intro hquote
      exact absurd hquote (getElem?_encode_ne_quote hsize c.utf8Size_pos rest)
    · rintro rfl
      exact absurd rfl hsize

theorem getElem?_toUTF8 (text : String) (i : Nat) :
    text.toUTF8[i]? = (text.toList.flatMap String.utf8EncodeChar)[i]? := by
  rw [String.toUTF8, ← String.utf8Encode_toList, List.utf8Encode]
  simp [getElem?_def, ByteArray.getElem_eq_getElem_data]

theorem quoteSecond_iff {text : String} :
    QuoteSecond text ↔
      ∃ kind rest, text.toList = kind :: '\'' :: rest ∧ kind.utf8Size = 1 := by
  rw [QuoteSecond, getElem?_toUTF8]
  cases htext : text.toList with
  | nil => simp
  | cons kind more =>
    rw [List.flatMap_cons]
    by_cases hsize : kind.utf8Size = 1
    · rw [String.utf8EncodeChar_eq_singleton hsize, List.singleton_append, List.getElem?_cons_succ]
      cases more with
      | nil => simp
      | cons c rest =>
        rw [List.flatMap_cons, first_byte_eq_quote_iff]
        simp [hsize]
    · have hpos := kind.utf8Size_pos
      constructor
      · intro hquote
        exact absurd hquote (getElem?_encode_ne_quote hsize (by omega) _)
      · rintro ⟨other, rest, hsplit, hother⟩
        cases hsplit
        exact absurd hother hsize

/-! ### Fields at the front of a text -/

section Front

variable {text gap field rest : List Char}

theorem trimFront_append (h : ∀ c ∈ gap, isBlank c = true) :
    trimFront (gap ++ text) = trimFront text :=
  List.dropWhile_append_of_pos h

theorem trimFront_of_blank (h : ∀ c ∈ gap, isBlank c = true) : trimFront gap = [] := by
  have htrim : trimFront (gap ++ []) = trimFront [] := trimFront_append h
  rwa [List.append_nil] at htrim

theorem trimFront_of_head (h : ∀ c ∈ text.head?, isBlank c = false) : trimFront text = text := by
  cases text with
  | nil => rfl
  | cons c rest => simp [trimFront, h c rfl]

theorem splitField_trimFront (text : List Char) :
    splitField (trimFront text) = splitField text := by
  simp only [splitField, trimFront, List.dropWhile_idempotent]

theorem operandField_trimFront (text : List Char) :
    operandField (trimFront text) = operandField text := by
  simp only [operandField, trimFront, List.dropWhile_idempotent]

theorem splitField_append (hfield : field ≠ []) (hsolid : ∀ c ∈ field, isBlank c = false)
    (hrest : ∀ c ∈ rest.head?, isBlank c = true) :
    splitField (field ++ rest) = (field, trimFront rest) := by
  have hhead : ∀ c ∈ (field ++ rest).head?, isBlank c = false := by
    intro c hc
    rw [List.head?_append_of_ne_nil _ hfield] at hc
    exact hsolid c (List.mem_of_mem_head? hc)
  have hkept : ∀ c ∈ field, (!isBlank c) = true := by
    intro c hc
    rw [hsolid c hc]
    rfl
  have hstop : ∀ c ∈ rest.head?, (!isBlank c) = false := by
    intro c hc
    rw [hrest c hc]
    rfl
  obtain ⟨hleft, hright⟩ := takeWhile_append_of_stop hkept hstop
  unfold splitField
  simp only
  rw [trimFront_of_head hhead, hleft, hright]

theorem operandField_append (h : ∀ c ∈ gap, isBlank c = true) :
    operandField (gap ++ text) = operandField text := by
  rw [← operandField_trimFront, trimFront_append h, operandField_trimFront]

theorem ofFields_trimFront (label : Option String) (text : List Char) :
    ofFields label (trimFront text) = ofFields label text := by
  rw [ofFields, splitField_trimFront, ← ofFields]

theorem ofFields_append (label : Option String) (h : ∀ c ∈ gap, isBlank c = true) :
    ofFields label (gap ++ text) = ofFields label text := by
  rw [← ofFields_trimFront, trimFront_append h, ofFields_trimFront]

/-! ### Operands -/

theorem utf8Size_eq_one_iff {c : Char} : c.utf8Size = 1 ↔ c.toNat < 0x80 := by
  rw [Char.utf8Size_eq_one_iff, UInt32.le_iff_toNat_le, Char.toNat_val]
  exact Nat.lt_succ_iff.symm

theorem quotedOperand?_quoted {kind : Char} {body : List Char} (hsize : kind.utf8Size = 1)
    (hbody : '\'' ∉ body) :
    quotedOperand? (kind :: '\'' :: (body ++ '\'' :: rest)) =
      some (kind :: '\'' :: body ++ ['\'']) := by
  have hkept : ∀ c ∈ body, decide (c ≠ '\'') = true := by
    intro c hc
    refine decide_eq_true ?_
    rintro rfl
    exact hbody hc
  have hascii := utf8Size_eq_one_iff.1 hsize
  rw [quotedOperand?, if_pos ⟨hascii, by simp⟩, List.takeWhile_append_of_pos hkept]
  simp

theorem quotedOperand?_eq_none
    (h : ∀ kind rest, text = kind :: '\'' :: rest → kind.utf8Size = 1 → '\'' ∉ rest) :
    quotedOperand? text = none := by
  unfold quotedOperand?
  split
  · next kind rest =>
    rw [if_neg]
    rintro ⟨hascii, hquote⟩
    exact h kind rest rfl (utf8Size_eq_one_iff.2 hascii) hquote
  · rfl

theorem operandField_of_head (hfield : text ≠ []) (hhead : ∀ c ∈ text.head?, isBlank c = false) :
    operandField text = (quotedOperand? text).orElse fun _ => some (splitField text).1 := by
  unfold operandField
  rw [trimFront_of_head hhead]
  split
  · exact absurd rfl hfield
  · rfl

end Front

section Layout

variable {gap field mnemonic rest line : String} {operand : Option String}

theorem blank_empty : Blank "" := by
  simp [Blank]

theorem Gap.toList_ne (hgap : Gap gap) : gap.toList ≠ [] := by
  simpa using hgap.nonempty

theorem Gap.apart (hgap : Gap gap) : Apart (gap ++ rest) := by
  intro c hc
  rw [String.toList_append, List.head?_append_of_ne_nil _ hgap.toList_ne] at hc
  exact hgap.blank c (List.mem_of_mem_head? hc)

theorem Ending.apart (h : Ending rest operand) : Apart rest := by
  cases h with
  | bare hrest => exact fun c hc => hrest c (List.mem_of_mem_head? hc)
  | plain hgap | quoted hgap | unclosed hgap =>
    rw [String.append_assoc]
    exact hgap.apart

theorem Field.toList_ne (hfield : Field field) : field.toList ≠ [] := by
  simpa using hfield.nonempty

theorem Field.solid_head (hfield : Field field) :
    ∀ c ∈ (field.toList ++ rest.toList).head?, isBlank c = false := by
  intro c hc
  rw [List.head?_append_of_ne_nil _ hfield.toList_ne] at hc
  exact hfield.solid c (List.mem_of_mem_head? hc)

theorem Field.splitField_eq (hfield : Field field) (hrest : Apart rest) :
    splitField (field.toList ++ rest.toList) = (field.toList, trimFront rest.toList) :=
  splitField_append hfield.toList_ne hfield.solid hrest

/-- A field that is not a quoted operand is taken as it stands. -/
theorem Field.operandField_eq (hfield : Field field) (hrest : Apart rest)
    (h : quotedOperand? (field.toList ++ rest.toList) = none) :
    operandField (field.toList ++ rest.toList) = some field.toList := by
  have hne : field.toList ++ rest.toList ≠ [] :=
    List.append_ne_nil_of_left_ne_nil hfield.toList_ne _
  rw [operandField_of_head hne hfield.solid_head, h, hfield.splitField_eq hrest]
  rfl

/-- A quote in the second place belongs to the field there, because it is no white space. -/
theorem Field.second_of_append (hfield : Field field) (hrest : Apart rest) {kind : Char}
    {more : List Char} (h : field.toList ++ rest.toList = kind :: '\'' :: more) :
    ∃ inner, field.toList = kind :: '\'' :: inner ∧ inner ++ rest.toList = more := by
  cases hlist : field.toList with
  | nil => exact absurd hlist hfield.toList_ne
  | cons first others =>
    rw [hlist, List.cons_append] at h
    obtain ⟨rfl, hothers⟩ := List.cons.inj h
    cases others with
    | nil =>
      rw [List.nil_append] at hothers
      have hblank := hrest '\'' (by rw [hothers]; rfl)
      cases hblank
    | cons second inner =>
      rw [List.cons_append] at hothers
      obtain ⟨rfl, hinner⟩ := List.cons.inj hothers
      exact ⟨inner, rfl, hinner⟩

theorem quotedOperand?_of_plain (hfield : Field field) (hquote : ¬ QuoteSecond field)
    (hrest : Apart rest) : quotedOperand? (field.toList ++ rest.toList) = none := by
  apply quotedOperand?_eq_none
  intro kind more hsplit hsize
  obtain ⟨inner, hlist, -⟩ := hfield.second_of_append hrest hsplit
  exact absurd (quoteSecond_iff.2 ⟨kind, inner, hlist, hsize⟩) hquote

theorem quotedOperand?_of_unclosed (hopen : '\'' ∉ field.toList.drop 2)
    (hfield : QuoteSecond field) (hnever : '\'' ∉ rest.toList) :
    quotedOperand? (field.toList ++ rest.toList) = none := by
  obtain ⟨kind, more, hlist, -⟩ := quoteSecond_iff.1 hfield
  rw [hlist] at hopen ⊢
  apply quotedOperand?_eq_none
  intro other left hsplit _
  rw [List.cons_append, List.cons_append] at hsplit
  obtain ⟨-, hsplit⟩ := List.cons.inj hsplit
  obtain ⟨-, rfl⟩ := List.cons.inj hsplit
  rw [List.mem_append, not_or]
  exact ⟨hopen, hnever⟩

theorem operandField_of_ending (h : Ending rest operand) :
    (operandField rest.toList).map String.ofList = operand := by
  cases h with
  | bare hrest =>
    rw [operandField, trimFront_of_blank hrest]
    rfl
  | @plain gap operand rest hgap hoperand hquote hrest =>
    rw [String.append_assoc, String.toList_append, operandField_append hgap.blank,
      String.toList_append,
      hoperand.operandField_eq hrest (quotedOperand?_of_plain hoperand hquote hrest),
      Option.map_some, String.ofList_toList]
  | @quoted gap body rest kind hgap hkind hsize hbody =>
    have hquoted : quotedOperand? (kind :: '\'' :: (body.toList ++ '\'' :: rest.toList)) = _ :=
      quotedOperand?_quoted hsize hbody
    have hlist : (String.singleton kind ++ "'" ++ body ++ "'" ++ rest).toList =
        kind :: '\'' :: (body.toList ++ '\'' :: rest.toList) := by
      simp
    rw [String.append_assoc, String.toList_append, operandField_append hgap.blank, hlist,
      operandField_of_head (List.cons_ne_nil _ _) (by simpa using hkind), hquoted]
    exact congrArg some (String.toList_inj.1 (by simp))
  | @unclosed gap operand rest hgap hoperand hquote hopen hrest hnever =>
    rw [String.append_assoc, String.toList_append, operandField_append hgap.blank,
      String.toList_append,
      hoperand.operandField_eq hrest (quotedOperand?_of_unclosed hopen hquote hnever),
      Option.map_some, String.ofList_toList]

/-- The mnemonic and the operand at the front of a text. -/
theorem ofFields_of_ending (label : Option String) (hmnemonic : Field mnemonic)
    (h : Ending rest operand) :
    ofFields label (mnemonic.toList ++ rest.toList) = ⟨label, some mnemonic, operand⟩ := by
  have hnonempty : mnemonic.toList.isEmpty = false :=
    List.isEmpty_eq_false_iff.2 hmnemonic.toList_ne
  rw [ofFields, hmnemonic.splitField_eq h.apart]
  simp only [hnonempty, Bool.false_eq_true, if_false, operandField_trimFront,
    operandField_of_ending h, String.ofList_toList]

/-! ### Comments, labels and keywords -/

theorem isKeyword_eq_true_iff : isKeyword field = true ↔ NamesKeyword field := by
  rw [← Bool.not_eq_false, isKeyword_eq_false_iff, NamesKeyword, not_and_or]
  simp only [not_forall, not_not, ne_eq]

/-- No mnemonic and no directive begins with a period. -/
theorem NamesKeyword.no_period (h : NamesKeyword field) : field.toList.head? ≠ some '.' := by
  intro hperiod
  obtain ⟨more, hlist⟩ := List.head?_eq_some_iff.1 hperiod
  have hupper : (upperCase field).toList.head? = some '.' := by
    rw [upperCase, String.toList_ofList, hlist]
    rfl
  rcases h with ⟨mnemonic, hname⟩ | ⟨directive, hname⟩
  · rw [← hname] at hupper
    cases mnemonic <;> cases hupper
  · rw [← hname] at hupper
    cases directive <;> cases hupper

theorem isComment_iff (hgap : Blank gap) (hhead : ∀ c ∈ rest.toList.head?, isBlank c = false) :
    isComment (gap.toList ++ rest.toList) = true ↔ rest = "" ∨ rest.toList.head? = some '.' := by
  rw [isComment, trimFront_append hgap, trimFront_of_head hhead, ← String.toList_eq_nil_iff]
  cases rest.toList with
  | nil => simp
  | cons c more => simp

theorem isComment_eq_false (hgap : Blank gap) (hfield : Field field)
    (hperiod : field.toList.head? ≠ some '.') :
    isComment (gap.toList ++ (field.toList ++ rest.toList)) = false := by
  have hhead : ∀ c ∈ (field ++ rest).toList.head?, isBlank c = false := by
    rw [String.toList_append]
    exact hfield.solid_head
  rw [← String.toList_append, ← Bool.not_eq_true, isComment_iff hgap hhead, not_or,
    String.toList_append, List.head?_append_of_ne_nil _ hfield.toList_ne]
  refine ⟨?_, hperiod⟩
  rw [← String.toList_eq_nil_iff, String.toList_append]
  exact List.append_ne_nil_of_left_ne_nil hfield.toList_ne _

/-- The first field of a line that begins with it is the label. -/
theorem parse_of_label (hfield : Field field) (hperiod : field.toList.head? ≠ some '.')
    (hkeyword : ¬ NamesKeyword field) (hrest : Apart rest) :
    parse (field ++ rest) = some (ofFields (some field) rest.toList) := by
  have hcomment : isComment (field.toList ++ rest.toList) = false :=
    isComment_eq_false blank_empty hfield hperiod
  have hmargin : ((field.toList ++ rest.toList).head?.any isBlank) = false :=
    (Option.any_eq_false ..).2 fun c hc => hfield.solid_head c hc
  have hlabel : isKeyword field = false := by
    rwa [← Bool.not_eq_true, isKeyword_eq_true_iff]
  rw [parse, String.toList_append, parseChars]
  simp only [hcomment, hfield.splitField_eq hrest, hmargin, hlabel, ofFields_trimFront,
    String.ofList_toList, Bool.false_eq_true, if_false, Bool.not_false, Bool.and_self, if_true]

/-- A line that begins with white space has no label. -/
theorem parse_of_gap (hgap : Gap gap) (hfield : Field field)
    (hperiod : field.toList.head? ≠ some '.') :
    parse (gap ++ field ++ rest) = some (ofFields none (field.toList ++ rest.toList)) := by
  have hcomment : isComment (gap.toList ++ (field.toList ++ rest.toList)) = false :=
    isComment_eq_false hgap.blank hfield hperiod
  have hmargin : ((gap.toList ++ (field.toList ++ rest.toList)).head?.any isBlank) = true := by
    obtain ⟨c, more, hlist⟩ := List.exists_cons_of_ne_nil hgap.toList_ne
    rw [hlist]
    exact hgap.blank c (hlist ▸ List.mem_cons_self)
  rw [parse, String.append_assoc, String.toList_append, String.toList_append, parseChars]
  simp only [hcomment, hmargin, ofFields_append none hgap.blank, Bool.false_eq_true, if_false,
    Bool.not_true, Bool.false_and]

/-- A keyword at the front of a line is no label. -/
theorem parse_of_keyword (hfield : Field field) (hkeyword : NamesKeyword field)
    (hrest : Apart rest) :
    parse (field ++ rest) = some (ofFields none (field.toList ++ rest.toList)) := by
  have hcomment : isComment (field.toList ++ rest.toList) = false :=
    isComment_eq_false blank_empty hfield hkeyword.no_period
  rw [parse, String.toList_append, parseChars]
  simp only [hcomment, hfield.splitField_eq hrest, isKeyword_eq_true_iff.2 hkeyword,
    String.ofList_toList, Bool.false_eq_true, if_false, Bool.not_true, Bool.and_false]

end Layout

theorem parse_of_laidOut {line : String} {s : Statement} (h : LaidOut line s) :
    parse line = some s := by
  cases h with
  | @labelAlone label rest hlabel hperiod hkeyword hrest =>
    have hapart : Apart rest := fun c hc => hrest c (List.mem_of_mem_head? hc)
    rw [parse_of_label hlabel hperiod hkeyword hapart, ← ofFields_trimFront,
      trimFront_of_blank hrest]
    rfl
  | labelled hlabel hperiod hkeyword hgap hmnemonic hrest =>
    rw [String.append_assoc, String.append_assoc, parse_of_label hlabel hperiod hkeyword hgap.apart,
      String.toList_append, ofFields_append _ hgap.blank, String.toList_append,
      ofFields_of_ending _ hmnemonic hrest]
  | indented hgap hmnemonic hperiod hrest =>
    rw [parse_of_gap hgap hmnemonic hperiod, ofFields_of_ending _ hmnemonic hrest]
  | unlabelled hmnemonic hkeyword hrest =>
    rw [parse_of_keyword hmnemonic hkeyword hrest.apart, ofFields_of_ending _ hmnemonic hrest]

/-! ### Lines that are written -/

/-- Text without white space, said in a way that can be decided. -/
def Solid (text : String) : Prop := text.toList.all (fun c => !isBlank c) = true

instance (text : String) : Decidable (Solid text) :=
  inferInstanceAs (Decidable (text.toList.all (fun c => !isBlank c) = true))

theorem solid_iff {text : String} :
    Solid text ↔ ∀ c ∈ text.toList, isBlank c = false := by
  simp [Solid]

theorem field_of_solid {text : String} (hne : text ≠ "") (h : Solid text) : Field text :=
  ⟨hne, solid_iff.1 h⟩

theorem gap_blank : Gap " " := by
  refine ⟨by decide, fun c hc => ?_⟩
  rw [List.mem_singleton.1 hc]
  rfl

theorem Field.append {field rest : String} (hfield : Field field) (hrest : Solid rest) :
    Field (field ++ rest) := by
  constructor
  · rw [Ne, ← String.toList_eq_nil_iff, String.toList_append]
    exact List.append_ne_nil_of_left_ne_nil hfield.toList_ne _
  · intro c hc
    rw [String.toList_append] at hc
    exact (List.mem_append.1 hc).elim (hfield.solid c) (solid_iff.1 hrest c)

/-- An operand at the end of a line. -/
theorem ending_operand {operand : String} (hoperand : Field operand)
    (hquote : ¬ QuoteSecond operand) : Ending (" " ++ operand) (some operand) := by
  have hrest : Apart "" := fun c hc => blank_empty c (List.mem_of_mem_head? hc)
  have hending := Ending.plain gap_blank hoperand hquote hrest
  rwa [String.append_empty] at hending

theorem laidOut_of_name {name rest : String} {operand : Option String} (hname : Field name)
    (hperiod : name.toList.head? ≠ some '.') (hrest : Ending rest operand) :
    LaidOut (" " ++ (name ++ rest)) ⟨none, some name, operand⟩ := by
  rw [← String.append_assoc]
  exact .indented gap_blank hname hperiod hrest

/-! ### Every line has a layout -/

theorem exists_gap (text : String) :
    ∃ gap rest, text = gap ++ rest ∧ Blank gap ∧ ∀ c ∈ rest.toList.head?, isBlank c = false := by
  refine ⟨String.ofList (text.toList.takeWhile isBlank),
    String.ofList (text.toList.dropWhile isBlank), ?_, ?_, ?_⟩
  · rw [← String.ofList_append, List.takeWhile_append_dropWhile, String.ofList_toList]
  · intro c hc
    rw [String.toList_ofList] at hc
    exact List.mem_takeWhile_imp hc
  · intro c hc
    have hhead := List.head?_dropWhile_not isBlank text.toList
    rw [String.toList_ofList, Option.mem_def] at hc
    rwa [hc] at hhead

theorem exists_field {text : String} (htext : text ≠ "")
    (hhead : ∀ c ∈ text.toList.head?, isBlank c = false) :
    ∃ field rest, text = field ++ rest ∧ Field field ∧ Apart rest := by
  refine ⟨String.ofList (text.toList.takeWhile (!isBlank ·)),
    String.ofList (text.toList.dropWhile (!isBlank ·)), ?_, ⟨?_, ?_⟩, ?_⟩
  · rw [← String.ofList_append, List.takeWhile_append_dropWhile, String.ofList_toList]
  · cases hlist : text.toList with
    | nil => exact absurd (String.toList_inj.1 hlist) htext
    | cons c more =>
      rw [hlist] at hhead
      simp [hhead c rfl]
  · intro c hc
    rw [String.toList_ofList] at hc
    simpa using List.mem_takeWhile_imp hc
  · intro c hc
    have hlast := List.head?_dropWhile_not (!isBlank ·) text.toList
    rw [String.toList_ofList, Option.mem_def] at hc
    rw [hc] at hlast
    simpa using hlast

theorem gap_of_apart {gap rest : String} (h : Apart (gap ++ rest)) (hblank : Blank gap)
    (hrest : rest ≠ "") (hhead : ∀ c ∈ rest.toList.head?, isBlank c = false) : Gap gap := by
  refine ⟨?_, hblank⟩
  rintro rfl
  rw [String.empty_append] at h
  obtain ⟨c, more, hlist⟩ :=
    List.exists_cons_of_ne_nil (fun hnil => hrest (String.toList_eq_nil_iff.1 hnil))
  have hc : c ∈ rest.toList.head? := by rw [hlist]; rfl
  exact absurd (h c hc) (by rw [hhead c hc]; decide)

/-- An operand is plain, quoted, or lacks its closing quote. -/
theorem exists_ending {text : String} (htext : Apart text) : ∃ operand, Ending text operand := by
  obtain ⟨gap, body, rfl, hblank, hhead⟩ := exists_gap text
  by_cases hbody : body = ""
  · rw [hbody, String.append_empty]
    exact ⟨none, .bare hblank⟩
  have hgap := gap_of_apart htext hblank hbody hhead
  obtain ⟨operand, rest, rfl, hoperand, hrest⟩ := exists_field hbody hhead
  by_cases hquote : QuoteSecond (operand ++ rest)
  · obtain ⟨kind, more, hlist, hsize⟩ := quoteSecond_iff.1 hquote
    by_cases hclosed : '\'' ∈ more
    · obtain ⟨body, after, rfl, hfree⟩ := List.eq_append_cons_of_mem hclosed
      have hsplit : operand ++ rest =
          String.singleton kind ++ "'" ++ String.ofList body ++ "'" ++ String.ofList after :=
        String.toList_inj.1 (by rw [hlist]; simp)
      rw [hsplit, ← String.append_assoc]
      exact ⟨_, .quoted hgap (hhead kind (by rw [hlist]; rfl)) hsize
        (by rwa [String.toList_ofList])⟩
    · rw [String.toList_append] at hlist
      obtain ⟨inner, hinner, rfl⟩ := hoperand.second_of_append hrest hlist
      rw [List.mem_append, not_or] at hclosed
      rw [← String.append_assoc]
      exact ⟨_, .unclosed hgap hoperand (quoteSecond_iff.2 ⟨kind, inner, hinner, hsize⟩)
        (by rw [hinner]; exact hclosed.1) hrest hclosed.2⟩
  · have hplain : ¬ QuoteSecond operand := by
      intro hsecond
      obtain ⟨kind, inner, hinner, hsize⟩ := quoteSecond_iff.1 hsecond
      refine hquote (quoteSecond_iff.2 ⟨kind, inner ++ rest.toList, ?_, hsize⟩)
      rw [String.toList_append, hinner]
      rfl
    rw [← String.append_assoc]
    exact ⟨_, .plain hgap hoperand hplain hrest⟩

theorem exists_laidOut {line : String} (h : isComment line.toList = false) :
    ∃ s, LaidOut line s := by
  obtain ⟨gap, body, rfl, hblank, hhead⟩ := exists_gap line
  rw [String.toList_append, ← Bool.not_eq_true, isComment_iff hblank hhead, not_or] at h
  obtain ⟨hbody, hperiod⟩ := h
  obtain ⟨field, rest, rfl, hfield, hrest⟩ := exists_field hbody hhead
  rw [String.toList_append, List.head?_append_of_ne_nil _ hfield.toList_ne] at hperiod
  obtain ⟨operand, hending⟩ := exists_ending hrest
  by_cases hgap : gap = ""
  · rw [hgap, String.empty_append]
    by_cases hkeyword : NamesKeyword field
    · exact ⟨_, .unlabelled hfield hkeyword hending⟩
    · -- The field is a label, and the mnemonic is looked for behind it.
      obtain ⟨between, body, rfl, hbetween, hfirst⟩ := exists_gap rest
      by_cases hbare : body = ""
      · rw [hbare, String.append_empty]
        exact ⟨_, .labelAlone hfield hperiod hkeyword hbetween⟩
      · have hbetween := gap_of_apart hrest hbetween hbare hfirst
        obtain ⟨mnemonic, rest, rfl, hmnemonic, hrest⟩ := exists_field hbare hfirst
        obtain ⟨operand, hending⟩ := exists_ending hrest
        rw [← String.append_assoc, ← String.append_assoc]
        exact ⟨_, .labelled hfield hperiod hkeyword hbetween hmnemonic hending⟩
  · rw [← String.append_assoc]
    exact ⟨_, .indented ⟨hgap, hblank⟩ hfield hperiod hending⟩

theorem parse_eq_none_iff_isComment {line : String} :
    parse line = none ↔ isComment line.toList = true := by
  rw [parse, parseChars]
  cases isComment line.toList with
  | true => simp
  | false =>
    simp only [Bool.false_eq_true, if_false, iff_false]
    split <;> exact Option.some_ne_none _

theorem parse_eq_none_iff {line : String} :
    parse line = none ↔ Blank line ∨ ∃ gap rest, Blank gap ∧ line = gap ++ "." ++ rest := by
  rw [parse_eq_none_iff_isComment]
  constructor
  · intro h
    obtain ⟨gap, body, rfl, hblank, hhead⟩ := exists_gap line
    rw [String.toList_append, isComment_iff hblank hhead] at h
    rcases h with rfl | hperiod
    · rw [String.append_empty]
      exact Or.inl hblank
    · obtain ⟨more, hlist⟩ := List.head?_eq_some_iff.1 hperiod
      have hbody : body = "." ++ String.ofList more := String.toList_inj.1 (by rw [hlist]; simp)
      rw [hbody, ← String.append_assoc]
      exact Or.inr ⟨gap, _, hblank, rfl⟩
  · rintro (hblank | ⟨gap, rest, hblank, rfl⟩)
    · rw [isComment, trimFront_of_blank hblank]
    · rw [String.append_assoc, String.toList_append]
      exact (isComment_iff hblank (by simp; decide)).2 (Or.inr (by simp))

/-- A line is read as the statement that its fields make up, and only as that. Lines without a
statement are the blank ones and those that begin with a period behind their white space. -/
theorem parse_agrees_with_layout (line : String) :
    (∀ s, parse line = some s ↔ LaidOut line s) ∧
      (parse line = none ↔ Blank line ∨ ∃ gap rest, Blank gap ∧ line = gap ++ "." ++ rest) := by
  refine ⟨fun s => ⟨?_, parse_of_laidOut⟩, parse_eq_none_iff⟩
  intro hparse
  have hcomment : isComment line.toList = false := by
    rw [← Bool.not_eq_true, ← parse_eq_none_iff_isComment, hparse]
    exact Option.some_ne_none s
  obtain ⟨laid, hlaid⟩ := exists_laidOut hcomment
  have hsame := parse_of_laidOut hlaid
  rw [hparse] at hsame
  cases hsame
  exact hlaid

example : parse "eof\u2003Byte C'A . B'5'" = some ⟨some "eof", some "Byte", some "C'A . B'"⟩ := by
  rfl

example : parse "\tLDA é'A B" = some ⟨none, some "LDA", some "é'A"⟩ := by rfl

end Statement

end SicMachine
