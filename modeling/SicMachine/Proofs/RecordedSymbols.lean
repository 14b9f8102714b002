import SicMachine.Proofs.ImageRoundTrip
import SicMachine.Proofs.UpperCaseForms

/-!
Looking up the symbols that an image has recorded. A look-up asks for the
upper-case form of its label, and the labels of an image stand as they were
written. So a label in upper case is found, and another one only when its
upper-case form has been recorded as well, which then answers for both. Every
label that is not in upper case stands in some image in which no spelling
finds it.
-/
namespace SicMachine.Image

open Text

/-- Another label of the same upper-case form is recorded with another address. -/
def Contested (image : Image) (label : String) (address : Nat) : Prop :=
  ∃ other value, image.symbols.find? other = some value ∧ other ≠ label ∧
    upperCase other = upperCase label ∧ value ≠ address

/-- A look-up of the label finds its address, or that of one of the labels of its upper-case form
when there are several addresses. -/
structure Finds (image : Image) (label : String) (address : Nat) : Prop where
  sole : ¬ image.Contested label address → image.symbol? label = some address
  contested : image.Contested label address →
    ∃ other value, image.symbols.find? other = some value ∧ upperCase other = upperCase label ∧
      image.symbol? label = some value

variable {image : Image} {label : String} {address : Nat}

/-- A label is found when its upper-case form is recorded. The form is a label of the same form, so
its address counts as one of several when it is not that of the label. -/
theorem finds_iff (hrecorded : image.symbols.find? label = some address) :
    image.Finds label address ↔ ∃ value, image.symbols.find? (upperCase label) = some value := by
  constructor
  · intro hfinds
    by_cases hcontested : image.Contested label address
    · obtain ⟨_, value, -, -, hfound⟩ := hfinds.contested hcontested
      exact ⟨value, hfound⟩
    · exact ⟨address, hfinds.sole hcontested⟩
  · rintro ⟨value, hvalue⟩
    have hfound : image.symbol? label = some value := hvalue
    have hform : upperCase (upperCase label) = upperCase label := upperCase_upperCase label
    refine ⟨fun hsole => ?_, fun _ => ⟨upperCase label, value, hvalue, hform, hfound⟩⟩
    rw [hfound, Option.some.injEq]
    by_contra hother
    refine hsole ⟨upperCase label, value, hvalue, fun hsame => ?_, hform, hother⟩
    rw [hsame, hrecorded] at hvalue
    exact hother (Option.some.inj hvalue).symm

theorem symbol?_of_upper (hrecorded : image.symbols.find? label = some address)
    (hupper : upperCase label = label) : image.symbol? label = some address := by
  rw [symbol?, hupper, hrecorded]

/-- A label that is not found is not found in any other spelling. -/
theorem symbol?_of_not_finds (hrecorded : image.symbols.find? label = some address)
    (hlost : ¬ image.Finds label address) {spelling : String}
    (hspelling : upperCase spelling = upperCase label) : image.symbol? spelling = none := by
  rw [symbol?, hspelling, Option.eq_none_iff_forall_ne_some]
  intro value hvalue
  exact hlost ((finds_iff hrecorded).2 ⟨value, hvalue⟩)

/-- An image that has recorded nothing but this symbol. -/
def ofSymbol (label : String) (address : Nat) : Image :=
  { ofWords 0 [] with symbols := .ofList [(label, address)] }

theorem find?_ofSymbol (label : String) (address : Nat) (asked : String) :
    (ofSymbol label address).symbols.find? asked =
      if asked = label then some address else none :=
  LabelMap.find?_insert .empty label asked address

theorem find?_ofSymbol_self (label : String) (address : Nat) :
    (ofSymbol label address).symbols.find? label = some address := by
  rw [find?_ofSymbol, if_pos rfl]

theorem ofJson_ofSymbol (haddress : address < wideLimit) :
    ofJson (ofSymbol label address).toJson = .ok (ofSymbol label address) := by
  apply ofJson_toJson
  refine ⟨(by decide : 0 < wideLimit), nofun, nofun, ?_⟩
  intro binding hbinding
  have hsymbols : (ofSymbol label address).symbols.bindings = [(label, address)] := rfl
  rw [hsymbols, List.mem_singleton] at hbinding
  rw [hbinding]
  exact haddress

theorem not_finds_ofSymbol (hlower : upperCase label ≠ label) :
    ¬ (ofSymbol label address).Finds label address := by
  rw [finds_iff (find?_ofSymbol_self label address)]
  rintro ⟨value, hvalue⟩
  rw [find?_ofSymbol, if_neg hlower] at hvalue
  cases hvalue

/-- Every label that is not in upper case can be recorded and lost: some text of an image has it. -/
theorem exists_lost (hlower : upperCase label ≠ label) (haddress : address < wideLimit) :
    ∃ text image, ofJson text = .ok image ∧ image.symbols.find? label = some address ∧
      ¬ image.Finds label address :=
  ⟨_, _, ofJson_ofSymbol haddress, find?_ofSymbol_self label address, not_finds_ofSymbol hlower⟩

/-- A recorded symbol is found exactly when the upper-case form of its label is recorded. So labels
in upper case are found, with their own address, and a label whose form is missing is not found in
any spelling. -/
theorem recorded_symbols_found (hrecorded : image.symbols.find? label = some address) :
    (image.Finds label address ↔
      ∃ value, image.symbols.find? (upperCase label) = some value) ∧
    (upperCase label = label → image.symbol? label = some address) ∧
    (¬ image.Finds label address →
      ∀ spelling, upperCase spelling = upperCase label → image.symbol? spelling = none) :=
  ⟨finds_iff hrecorded, symbol?_of_upper hrecorded,
    fun hlost _ hspelling => symbol?_of_not_finds hrecorded hlost hspelling⟩

/-- Two spellings of one label, and a label without its upper-case form. -/
def mixedCase : Image :=
  { ofWords 0 [] with symbols := .ofList [("first", 5), ("Alpha", 7), ("ALPHA", 9)] }

theorem mixedCase_found :
    mixedCase.Finds "Alpha" 7 ∧ mixedCase.symbol? "Alpha" = some 9 ∧
      mixedCase.symbol? "ALPHA" = some 9 ∧ ¬ mixedCase.Finds "first" 5 ∧
      mixedCase.symbol? "FIRST" = none := by
  have hrecorded : mixedCase.symbols.find? "Alpha" = some 7 ∧
      mixedCase.symbols.find? "ALPHA" = some 9 ∧ mixedCase.symbols.find? "first" = some 5 := by
    decide
  obtain ⟨hmixed, hupper, hlower⟩ := hrecorded
  obtain ⟨halpha, -, -⟩ := recorded_symbols_found hmixed
  obtain ⟨-, hsame, -⟩ := recorded_symbols_found hupper
  obtain ⟨hfirst, -, hlost⟩ := recorded_symbols_found hlower
  have hmissing : ¬ mixedCase.Finds "first" 5 := by
    have hnone : mixedCase.symbols.find? (upperCase "first") = none := by decide +kernel
    rw [hfirst, hnone]
    rintro ⟨value, hvalue⟩
    cases hvalue
  exact ⟨halpha.2 ⟨9, by decide +kernel⟩, by decide +kernel, hsame (by decide +kernel), hmissing,
    hlost hmissing "FIRST" (by decide +kernel)⟩

/-- The label of this image is recorded in lower case and is not found. -/
theorem lower_case_symbol_lost :
    ¬ ∀ text image, ofJson text = .ok image → ∀ label address,
      image.symbols.find? label = some address → image.Finds label address := by
  intro h
  have hlower : upperCase "first" ≠ "first" := by decide +kernel
  obtain ⟨text, image, hread, hrecorded, hlost⟩ :=
    exists_lost hlower (by decide : 5 < wideLimit)
  exact hlost (h text image hread "first" 5 hrecorded)

end SicMachine.Image
