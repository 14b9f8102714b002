import SicMachine.Proofs.LetterCase

/-!
Upper-case forms are in upper case. No character that is the upper-case form of
another, or a part of it, has another upper-case form itself. So upper-casing a
text that has been upper-cased changes nothing. The letters and their forms are
compared as sets of bits, which is fast enough for all of Unicode.
-/
namespace SicMachine.Text

/-! ### Sets of bits -/

/-- The number whose bits are at these places. -/
def bitSet (places : List Nat) : Nat := places.foldr (fun place set => set ||| 1 <<< place) 0

theorem testBit_bitSet {places : List Nat} {place : Nat} :
    (bitSet places).testBit place = true ↔ place ∈ places := by
  induction places with
  | nil => simp [bitSet]
  | cons first rest ih =>
    have hsplit : bitSet (first :: rest) = bitSet rest ||| 1 <<< first := rfl
    rw [hsplit, Nat.testBit_or, Bool.or_eq_true, ih, Nat.one_shiftLeft, Nat.testBit_two_pow,
      decide_eq_true_iff, List.mem_cons, eq_comm, or_comm]

theorem not_mem_of_bitSet {left right : List Nat} (h : bitSet left &&& bitSet right = 0)
    {place : Nat} (hleft : place ∈ left) : place ∉ right := by
  intro hright
  have hboth : (bitSet left &&& bitSet right).testBit place = true := by
    rw [Nat.testBit_and, testBit_bitSet.2 hleft, testBit_bitSet.2 hright]
    rfl
  rw [h, Nat.zero_testBit] at hboth
  cases hboth

/-! ### Letters and their forms -/

/-- The letters of a run, or with its target their upper-case letters. -/
def CaseRun.lettersFrom (run : CaseRun) (first : Nat) : List Nat :=
  (List.range ((run.last - run.first) / run.step + 1)).map fun i => first + i * run.step

/-- All letters that are not in upper case. -/
def lowerLetters : List Nat :=
  List.range' 97 26 ++ caseRuns.flatMap (fun run => run.lettersFrom run.first) ++
    caseExpansions.map Prod.fst

/-- What upper-case forms outside the ASCII letters consist of. -/
def upperLetters : List Nat :=
  caseRuns.flatMap (fun run => run.lettersFrom run.target) ++ caseExpansions.flatMap Prod.snd

theorem lowerLetters_and_upperLetters : bitSet lowerLetters &&& bitSet upperLetters = 0 := by
  decide +kernel

theorem isValidChar_upperLetters : ∀ code ∈ upperLetters, code.isValidChar := by
  decide +kernel

theorem CaseRun.mem_of_image? {run : CaseRun} {code form : Nat} (h : run.image? code = some form) :
    code ∈ run.lettersFrom run.first ∧ form ∈ run.lettersFrom run.target := by
  unfold image? at h
  split at h
  · next hletter =>
    obtain ⟨hfirst, hlast, hstep⟩ := hletter
    cases h
    have hplace : (code - run.first) / run.step * run.step = code - run.first :=
      Nat.div_mul_cancel (Nat.dvd_of_mod_eq_zero hstep)
    have hbound : (code - run.first) / run.step ∈
        List.range ((run.last - run.first) / run.step + 1) := by
      refine List.mem_range.2 (Nat.lt_succ_of_le (Nat.div_le_div_right ?_))
      omega
    refine ⟨List.mem_map.2 ⟨_, hbound, ?_⟩, List.mem_map.2 ⟨_, hbound, ?_⟩⟩
    · rw [hplace]
      omega
    · rw [hplace]
  · cases h

/-- What the tables say of a letter. -/
theorem mem_lowerLetters_of_image {code form : Nat}
    (h : caseRuns.findSome? (·.image? code) = some form) :
    code ∈ lowerLetters ∧ form ∈ upperLetters := by
  obtain ⟨run, hrun, himage⟩ := List.exists_of_findSome?_eq_some h
  obtain ⟨hletter, hform⟩ := CaseRun.mem_of_image? himage
  simp only [lowerLetters, upperLetters, List.mem_append, List.mem_flatMap]
  exact ⟨Or.inl (Or.inr ⟨run, hrun, hletter⟩), Or.inl ⟨run, hrun, hform⟩⟩

theorem mem_lowerLetters_of_expansion {code : Nat} {forms : List Nat}
    (h : caseExpansions.lookup code = some forms) :
    code ∈ lowerLetters ∧ ∀ form ∈ forms, form ∈ upperLetters := by
  obtain ⟨before, after, hsplit, -⟩ := List.lookup_eq_some_iff.1 h
  have hmem : (code, forms) ∈ caseExpansions := by
    rw [hsplit]
    exact List.mem_append_right before List.mem_cons_self
  simp only [lowerLetters, upperLetters, List.mem_append, List.mem_flatMap, List.mem_map]
  exact ⟨Or.inr ⟨_, hmem, rfl⟩, fun form hform => Or.inr ⟨_, hmem, hform⟩⟩

/-- A character that is no lower-case letter is its own upper-case form. -/
theorem upperChar_of_not_mem {c : Char} (h : c.toNat ∉ lowerLetters) : upperChar c = [c] := by
  unfold upperChar
  split
  · rcases toUpper_cases c with hsame | ⟨hfrom, hto, -⟩
    · rw [hsame]
    · have hrange : c.toNat ∈ List.range' 97 26 := List.mem_range'_1.2 ⟨hfrom, by omega⟩
      refine absurd ?_ h
      exact List.mem_append_left _ (List.mem_append_left _ hrange)
  · split
    · next himage => exact absurd (mem_lowerLetters_of_image himage).1 h
    · split
      · next hexpansion => exact absurd (mem_lowerLetters_of_expansion hexpansion).1 h
      · rfl

theorem upperChar_ofNat {code : Nat} (h : code ∈ upperLetters) :
    upperChar (Char.ofNat code) = [Char.ofNat code] := by
  apply upperChar_of_not_mem
  have hcode : (Char.ofNat code).toNat = code := by
    rw [Char.ofNat, dif_pos (isValidChar_upperLetters code h)]
    rfl
  rw [hcode]
  exact fun hlower => not_mem_of_bitSet lowerLetters_and_upperLetters hlower h

/-- A character stays, or changes within ASCII, or becomes what the tables say. -/
theorem upperChar_cases (c : Char) :
    upperChar c = [c] ∨ upperChar c = [c.toUpper] ∨
      ∀ d ∈ upperChar c, ∃ code ∈ upperLetters, d = Char.ofNat code := by
  unfold upperChar
  split
  · exact Or.inr (Or.inl rfl)
  · split
    · next himage =>
      refine Or.inr (Or.inr fun d hd => ?_)
      exact ⟨_, (mem_lowerLetters_of_image himage).2, List.mem_singleton.1 hd⟩
    · split
      · next hexpansion =>
        refine Or.inr (Or.inr fun d hd => ?_)
        obtain ⟨code, hcode, rfl⟩ := List.mem_map.1 hd
        exact ⟨code, (mem_lowerLetters_of_expansion hexpansion).2 code hcode, rfl⟩
      · exact Or.inl rfl

/-- The characters of an upper-case form are in upper case. -/
theorem upperChar_of_mem {c d : Char} (h : d ∈ upperChar c) : upperChar d = [d] := by
  rcases upperChar_cases c with hsame | hascii | htables
  · rw [hsame, List.mem_singleton] at h
    rw [h, hsame]
  · rw [hascii, List.mem_singleton] at h
    rw [h, upperChar_toUpper, hascii]
  · obtain ⟨code, hcode, rfl⟩ := htables d h
    exact upperChar_ofNat hcode

theorem isBlank_upperLetters : ∀ code ∈ upperLetters, isBlank (Char.ofNat code) = false := by
  decide +kernel

/-- White space is not the upper-case form of anything else. -/
theorem isBlank_of_mem_upperChar {c d : Char} (hc : isBlank c = false) (hd : d ∈ upperChar c) :
    isBlank d = false := by
  rcases upperChar_cases c with hsame | hascii | htables
  · rw [hsame, List.mem_singleton] at hd
    rw [hd, hc]
  · rw [hascii, List.mem_singleton] at hd
    rw [hd, isBlank_toUpper, hc]
  · obtain ⟨code, hcode, rfl⟩ := htables d hd
    exact isBlank_upperLetters code hcode

theorem isBlank_of_mem_upperCase {s : String} (h : ∀ c ∈ s.toList, isBlank c = false) :
    ∀ d ∈ (upperCase s).toList, isBlank d = false := by
  intro d hd
  rw [upperCase, String.toList_ofList] at hd
  obtain ⟨c, hc, hform⟩ := List.mem_flatMap.1 hd
  exact isBlank_of_mem_upperChar (h c hc) hform

theorem upperCase_upperCase (s : String) : upperCase (upperCase s) = upperCase s := by
  have hforms : ∀ c, (upperChar c).flatMap upperChar = upperChar c := by
    intro c
    rw [List.flatMap_congr fun d hd => upperChar_of_mem hd, List.flatMap_singleton']
  rw [upperCase, upperCase, String.toList_ofList, List.flatMap_assoc]
  simp only [hforms]

end SicMachine.Text
