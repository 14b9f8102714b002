import SicMachine.Proofs.FieldLayout

/-!
Where the operand of a line ends. The fields in front of it and the white space
behind them say where it begins, and that place is the only one. A plain
operand reaches up to white space or to the end of the line. A quoted one ends
with its closing quote, and whatever is glued to the quote is passed over like
a comment: the statement is the same with any other text there, and so is what
becomes of the source.
-/
namespace SicMachine

namespace Statement

open Text

/-- A character of one byte and behind it text between two quotes. -/
def Enclosed (operand : String) : Prop :=
  ∃ kind body, isBlank kind = false ∧ kind.utf8Size = 1 ∧ '\'' ∉ body.toList ∧
    operand = String.singleton kind ++ "'" ++ body ++ "'"

/-- The operand of the line stands between `front` and `rest`: the other fields are read in `front`,
and white space comes behind them. -/
structure OperandAt (line front operand rest : String) : Prop where
  line_eq : line = front ++ operand ++ rest
  fields : ∃ label mnemonic, parse front = some ⟨label, some mnemonic, none⟩ ∧
    parse line = some ⟨label, some mnemonic, some operand⟩
  parted : ∃ text gap, front = text ++ gap ∧ Gap gap

variable {line front operand rest text gap mnemonic : String} {label : Option String}
  {s : Statement}

theorem laidOut_of_parse (h : parse line = some s) : LaidOut line s := by
  have hcomment : isComment line.toList = false := by
    rw [← Bool.not_eq_true, ← parse_eq_none_iff_isComment, h]
    exact Option.some_ne_none s
  obtain ⟨laid, hlaid⟩ := exists_laidOut hcomment
  have hsame := parse_of_laidOut hlaid
  rw [h] at hsame
  cases hsame
  exact hlaid

/-! ### What is read behind the mnemonic -/

/-- White space at the end of a text belongs to none of its fields. -/
theorem Ending.gap_of_parted {before : String} (hrest : Ending rest none)
    (hmnemonic : Field mnemonic) (hgap : Gap gap) (h : before ++ mnemonic ++ rest = text ++ gap) :
    Gap rest := by
  cases hrest with
  | bare hblank =>
    refine ⟨?_, hblank⟩
    rintro rfl
    have hlast := congrArg (fun text => text.toList.getLast?) h
    simp only [String.append_empty, String.toList_append,
      List.getLast?_append_of_ne_nil _ hmnemonic.toList_ne,
      List.getLast?_append_of_ne_nil _ hgap.toList_ne] at hlast
    obtain ⟨c, hc⟩ := Option.isSome_iff_exists.1 (List.getLast?_isSome.2 hgap.toList_ne)
    have hblank := hgap.blank c (List.mem_of_getLast? hc)
    have hsolid := hmnemonic.solid c (List.mem_of_getLast? (hlast.trans hc))
    rw [hblank] at hsolid
    cases hsolid

theorem ofFields_of_gap (label : Option String) (hmnemonic : Field mnemonic) (hgap : Gap gap)
    (text : String) :
    ofFields label (mnemonic.toList ++ (gap ++ text).toList) =
      ⟨label, some mnemonic, (operandField text.toList).map String.ofList⟩ := by
  have hnonempty : mnemonic.toList.isEmpty = false :=
    List.isEmpty_eq_false_iff.2 hmnemonic.toList_ne
  rw [ofFields, hmnemonic.splitField_eq hgap.apart]
  simp only [hnonempty, Bool.false_eq_true, if_false, operandField_trimFront,
    String.toList_append, operandField_append hgap.blank, String.ofList_toList]

/-- Behind the other fields and white space only the operand is left to be read. -/
theorem parse_append (hfront : parse front = some ⟨label, some mnemonic, none⟩)
    (hparted : ∃ text gap, front = text ++ gap ∧ Gap gap) (text : String) :
    parse (front ++ text) =
      some ⟨label, some mnemonic, (operandField text.toList).map String.ofList⟩ := by
  obtain ⟨lead, gap, hsplit, hgap⟩ := hparted
  cases laidOut_of_parse hfront with
  | labelled hlabel hperiod hkeyword hbetween hmnemonic hrest =>
    have hbehind := hrest.gap_of_parted hmnemonic hgap hsplit
    rw [String.append_assoc, String.append_assoc, String.append_assoc,
      parse_of_label hlabel hperiod hkeyword hbetween.apart, String.toList_append,
      ofFields_append _ hbetween.blank, String.toList_append,
      ofFields_of_gap _ hmnemonic hbehind]
  | indented hbetween hmnemonic hperiod hrest =>
    have hbehind := hrest.gap_of_parted hmnemonic hgap hsplit
    rw [String.append_assoc, parse_of_gap hbetween hmnemonic hperiod,
      ofFields_of_gap _ hmnemonic hbehind]
  | unlabelled hmnemonic hkeyword hrest =>
    rw [← String.empty_append (s := mnemonic)] at hsplit
    have hbehind := hrest.gap_of_parted hmnemonic hgap hsplit
    rw [String.append_assoc, parse_of_keyword hmnemonic hkeyword hbehind.apart,
      ofFields_of_gap _ hmnemonic hbehind]

theorem trimFront_of_operandField (h : operandField text.toList = none) :
    trimFront text.toList = [] := by
  unfold operandField at h
  split at h
  · assumption
  · cases hquoted : quotedOperand? (trimFront text.toList) <;> simp [hquoted] at h

/-- The closing quote is where a quoted operand ends, whatever comes next. -/
theorem Enclosed.operandField_eq (h : Enclosed operand) (rest : String) :
    (operandField (operand ++ rest).toList).map String.ofList = some operand := by
  obtain ⟨kind, body, hkind, hsize, hbody, rfl⟩ := h
  have hending : Ending (" " ++ (String.singleton kind ++ "'" ++ body ++ "'") ++ rest)
      (some (String.singleton kind ++ "'" ++ body ++ "'")) :=
    .quoted gap_blank hkind hsize hbody
  have hfield := operandField_of_ending hending
  rwa [String.append_assoc, String.toList_append, operandField_append gap_blank.blank] at hfield

/-! ### The place of the operand -/

/-- An operand begins with a character of its own, and it ends where white space begins unless it
ends with a quote. -/
theorem Ending.exists_operand (h : Ending text (some operand)) :
    ∃ gap rest, text = gap ++ operand ++ rest ∧ Gap gap ∧
      (∃ c more, operand.toList = c :: more ∧ isBlank c = false) ∧
      (Enclosed operand ∨ Apart rest) := by
  have hsolid : ∀ {field : String}, Field field →
      ∃ c more, field.toList = c :: more ∧ isBlank c = false := by
    intro field hfield
    obtain ⟨c, more, hlist⟩ := List.exists_cons_of_ne_nil hfield.toList_ne
    exact ⟨c, more, hlist, hfield.solid c (hlist ▸ List.mem_cons_self)⟩
  cases h with
  | @plain gap _ rest hgap hoperand _ hrest =>
    exact ⟨gap, rest, rfl, hgap, hsolid hoperand, Or.inr hrest⟩
  | @quoted gap body rest kind hgap hkind hsize hbody =>
    refine ⟨gap, rest, rfl, hgap, ⟨kind, '\'' :: (body.toList ++ ['\'']), by simp, hkind⟩, ?_⟩
    exact Or.inl ⟨kind, body, hkind, hsize, hbody, rfl⟩
  | @unclosed gap _ rest hgap hoperand _ _ hrest _ =>
    exact ⟨gap, rest, rfl, hgap, hsolid hoperand, Or.inr hrest⟩

theorem operandAt_of_gap {before : String} (hgap : Gap gap)
    (hfront : parse (before ++ gap) = some ⟨label, some mnemonic, none⟩)
    (hline : parse (before ++ (gap ++ operand ++ rest)) =
      some ⟨label, some mnemonic, some operand⟩) :
    OperandAt (before ++ (gap ++ operand ++ rest)) (before ++ gap) operand rest where
  line_eq := by simp only [String.append_assoc]
  fields := ⟨label, mnemonic, hfront, hline⟩
  parted := ⟨before, gap, rfl, hgap⟩

theorem exists_operandAt (hparse : parse line = some s) (hoperand : s.operand = some operand) :
    ∃ front rest, OperandAt line front operand rest ∧
      (∃ c more, operand.toList = c :: more ∧ isBlank c = false) ∧
      (Enclosed operand ∨ Apart rest) := by
  cases laidOut_of_parse hparse with
  | labelAlone => cases hoperand
  | labelled hlabel hperiod hkeyword hbetween hmnemonic hrest =>
    cases hoperand
    obtain ⟨gap, rest, rfl, hgap, hends⟩ := hrest.exists_operand
    have hfront := parse_of_laidOut
      (.labelled hlabel hperiod hkeyword hbetween hmnemonic (.bare hgap.blank))
    exact ⟨_, rest, operandAt_of_gap hgap hfront hparse, hends⟩
  | indented hbetween hmnemonic hperiod hrest =>
    cases hoperand
    obtain ⟨gap, rest, rfl, hgap, hends⟩ := hrest.exists_operand
    have hfront := parse_of_laidOut (.indented hbetween hmnemonic hperiod (.bare hgap.blank))
    exact ⟨_, rest, operandAt_of_gap hgap hfront hparse, hends⟩
  | unlabelled hmnemonic hkeyword hrest =>
    cases hoperand
    obtain ⟨gap, rest, rfl, hgap, hends⟩ := hrest.exists_operand
    have hfront := parse_of_laidOut (.unlabelled hmnemonic hkeyword (.bare hgap.blank))
    exact ⟨_, rest, operandAt_of_gap hgap hfront hparse, hends⟩

/-- A text in front of the operand has no more room between the fields and the operand. -/
theorem OperandAt.eq_empty {more left : String} (h : OperandAt line front operand rest)
    (hmore : OperandAt line (front ++ more) operand left)
    (hsolid : ∃ c tail, operand.toList = c :: tail ∧ isBlank c = false) : more = "" := by
  obtain ⟨c, tail, hlist, hc⟩ := hsolid
  obtain ⟨label, mnemonic, hfront, hline⟩ := h.fields
  obtain ⟨_, _, hlonger, hsame⟩ := hmore.fields
  rw [hline] at hsame
  cases hsame
  rw [parse_append hfront h.parted, Option.some.injEq, Statement.mk.injEq] at hlonger
  have hblank := trimFront_of_operandField (Option.map_eq_none_iff.1 hlonger.2.2)
  cases hmorelist : more.toList with
  | nil => exact String.toList_eq_nil_iff.1 hmorelist
  | cons first others =>
    have htexts := congrArg String.toList (h.line_eq.symm.trans hmore.line_eq)
    simp only [String.toList_append, List.append_assoc, List.append_cancel_left_eq, hlist,
      hmorelist, List.cons_append, List.cons.injEq] at htexts
    obtain ⟨rfl, -⟩ := htexts
    rw [hmorelist, trimFront_of_head (by simpa using hc)] at hblank
    cases hblank

theorem OperandAt.unique {other left : String} (h : OperandAt line front operand rest)
    (hother : OperandAt line other operand left)
    (hsolid : ∃ c more, operand.toList = c :: more ∧ isBlank c = false) :
    other = front ∧ left = rest := by
  have htexts := congrArg String.toList (h.line_eq.symm.trans hother.line_eq)
  have hfront : other = front := by
    simp only [String.toList_append, List.append_assoc] at htexts
    rcases List.append_eq_append_iff.1 htexts with ⟨more, hmore, -⟩ | ⟨more, hmore, -⟩
    · obtain rfl : other = front ++ String.ofList more := String.toList_inj.1 (by simp [hmore])
      rw [h.eq_empty hother hsolid, String.append_empty]
    · obtain rfl : front = other ++ String.ofList more := String.toList_inj.1 (by simp [hmore])
      rw [hother.eq_empty h hsolid, String.append_empty]
  subst hfront
  simp only [String.toList_append, List.append_cancel_left_eq] at htexts
  exact ⟨rfl, (String.toList_inj.1 htexts).symm⟩

end Statement

namespace PassOne

/-- Pass One knows of a line only the statement that is read from it. -/
theorem scan_of_parse_eq {text other : String} (h : Statement.parse text = Statement.parse other)
    (p : Progress) (line : Nat) (before after : List String) :
    scan p line (before ++ text :: after) = scan p line (before ++ other :: after) := by
  induction before generalizing p line with
  | nil => simp only [List.nil_append, scan, h]
  | cons first rest ih => simp only [List.cons_append, scan, ih]

theorem run_of_parse_eq {text other : String} (h : Statement.parse text = Statement.parse other)
    (before after : List String) :
    run (before ++ text :: after) = run (before ++ other :: after) := by
  rw [run, run, scan_of_parse_eq h]

end PassOne

namespace Statement

/-- The operand of a line stands at one place. It ends at white space or with the line, unless it is
quoted. A quoted operand ends with its closing quote, and any text may be glued to it: the statement
is the same as with any other text, and so is the outcome of every source that has the line. -/
theorem quoted_operand_ends_at_quote {line operand : String} {s : Statement}
    (hparse : parse line = some s) (hoperand : s.operand = some operand) :
    ∃ front rest, OperandAt line front operand rest ∧
      (∀ other left, OperandAt line other operand left → other = front ∧ left = rest) ∧
      (¬ Enclosed operand → Apart rest) ∧
      (Enclosed operand → ∀ glued, parse (front ++ operand ++ glued) = some s ∧
        ∀ before after, PassOne.run (before ++ (front ++ operand ++ glued) :: after) =
          PassOne.run (before ++ line :: after)) := by
  obtain ⟨front, rest, hplace, hsolid, hends⟩ := exists_operandAt hparse hoperand
  refine ⟨front, rest, hplace, fun other left hother => hplace.unique hother hsolid,
    hends.resolve_left, fun henclosed glued => ?_⟩
  obtain ⟨label, mnemonic, hfront, hline⟩ := hplace.fields
  have hglued : parse (front ++ operand ++ glued) = parse line := by
    rw [String.append_assoc, parse_append hfront hplace.parted, henclosed.operandField_eq, hline]
  exact ⟨hglued.trans hparse, fun before after => PassOne.run_of_parse_eq hglued before after⟩

/-- The digits behind the closing quote look like a part of the constant. -/
theorem operandAt_glued : OperandAt " BYTE X'F1'A0" " BYTE " "X'F1'" "A0" where
  line_eq := by decide
  fields := ⟨none, "BYTE", by rfl, by rfl⟩
  parted := ⟨" BYTE", " ", by decide, gap_blank⟩

theorem enclosed_hexConstant : Enclosed "X'F1'" :=
  ⟨'X', "F1", by rfl, by decide, by decide, by decide⟩

/-- One byte is reserved, whatever digits are glued to the constant. -/
theorem glued_digits_not_read :
    parse " BYTE X'F1'A0" = some ⟨none, some "BYTE", some "X'F1'"⟩ ∧
      parse (" BYTE X'F1'" ++ "EFEF") = some ⟨none, some "BYTE", some "X'F1'"⟩ ∧
      PassOne.run [" BYTE X'F1'" ++ "EFEF"] = .ok (.empty, ⟨none, 0, 1, 0⟩) := by
  have hparse : parse " BYTE X'F1'A0" = some ⟨none, some "BYTE", some "X'F1'"⟩ := by
    rfl
  have hrun : PassOne.run [" BYTE X'F1'A0"] = .ok (.empty, ⟨none, 0, 1, 0⟩) := by
    rfl
  obtain ⟨front, rest, -, hunique, -, hglued⟩ := quoted_operand_ends_at_quote hparse rfl
  obtain ⟨rfl, rfl⟩ := hunique " BYTE " "A0" operandAt_glued
  obtain ⟨hsame, hruns⟩ := hglued enclosed_hexConstant "EFEF"
  exact ⟨hparse, hsame, (hruns [] []).trans hrun⟩

/-- These digits are dropped from the statement, although no white space parts them from the
operand. -/
theorem glued_digits_dropped :
    ¬ ∀ line front operand rest, OperandAt line front operand rest → Apart rest := by
  intro h
  have hapart := h _ _ _ _ operandAt_glued
  exact absurd (hapart 'A' (by decide)) (by decide)

end Statement

end SicMachine
