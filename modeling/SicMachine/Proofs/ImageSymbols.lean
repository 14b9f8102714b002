import SicMachine.Proofs.ImageRoundTrip
import SicMachine.Proofs.PassOneAgreement
import SicMachine.Proofs.SymbolCalls

/-!
The symbols of an image are those of the table that it has been given. The
table is sorted by address on its way into the image and by label inside it,
and neither loses or repeats a symbol; so a look-up in the image, and in the
image read back from its text, is a look-up in the table. Every table of Pass
One comes about by calls.
-/
namespace SicMachine

/-! ### Tables of images -/

namespace Image

theorem symbols_withSymbols (image : Image) (table : SymbolTable) :
    (image.withSymbols table).symbols = table.labels :=
  LabelMap.ofList_of_perm (List.mergeSort_perm ..)

theorem symbol?_withSymbols (image : Image) (table : SymbolTable) (label : String) :
    (image.withSymbols table).symbol? label = table.find? label := by
  rw [symbol?, symbols_withSymbols]
  rfl

/-- The image finds of each label what the table made up by the calls finds, which is what the
first call that succeeds for its upper-case form has given. -/
structure Answers (image : Image) (calls : List (String × Nat)) : Prop where
  first : ∀ label address,
    image.symbol? label = some address ↔ SymbolTable.FirstDefines calls label address
  table : ∀ label address,
    image.symbol? label = some address ↔ (SymbolTable.ofCalls calls).get label = .ok address
  absent : ∀ label, image.symbol? label = none ↔ (SymbolTable.ofCalls calls).has label = false

theorem answers_withSymbols (image : Image) (calls : List (String × Nat)) :
    (image.withSymbols (.ofCalls calls)).Answers calls where
  first label address := by
    rw [symbol?_withSymbols, SymbolTable.firstDefines_iff]
  table label address := by
    rw [symbol?_withSymbols, SymbolTable.get]
    cases (SymbolTable.ofCalls calls).find? label with
    | some value => simp
    | none => simp
  absent label := by
    rw [symbol?_withSymbols, SymbolTable.has, Option.isSome_eq_false_iff, Option.isNone_iff_eq_none]

end Image

/-! ### Tables of Pass One -/

namespace PassOne

namespace Progress

/-- The symbols have been defined by calls, each with an address of memory or right behind it. -/
def Called (p : Progress) : Prop :=
  ∃ calls, p.symbols = .ofCalls calls ∧ ∀ call ∈ calls, call.2 ≤ memorySize

theorem called_initial : Progress.initial.Called := ⟨[], rfl, by simp⟩

/-- A statement that is accepted calls for its label, if it has one, and the call succeeds. -/
theorem Called.next {p : Progress} {s : Statement} (hp : p.Called) (h : p.Accepts s) :
    (p.next s).Called := by
  obtain ⟨calls, hsymbols, hcalls⟩ := hp
  cases hlabel : s.label with
  | none =>
    refine ⟨calls, ?_, hcalls⟩
    simp [Progress.next, bind, Statement.key?, hlabel, hsymbols]
  | some label =>
    have hkey : s.key? = some (Text.upperCase label) := by simp [Statement.key?, hlabel]
    have hfresh : p.symbols.find? label = none := h.unbound _ hkey
    refine ⟨calls ++ [(label, p.locate s)], ?_, ?_⟩
    · rw [SymbolTable.ofCalls, List.foldl_append, List.foldl_cons, List.foldl_nil]
      rw [SymbolTable.ofCalls] at hsymbols
      rw [← hsymbols, SymbolTable.call_of_none hfresh]
      simp [Progress.next, bind, hkey]
    · intro call hcall
      rcases List.mem_append.1 hcall with hcall | hcall
      · exact hcalls call hcall
      · obtain rfl := List.mem_singleton.1 hcall
        have hfits := h.fits
        omega

theorem Called.nextAll {p : Progress} {S : List Statement} (hp : p.Called) (h : p.AcceptsAll S) :
    (p.nextAll S).Called := by
  induction S generalizing p with
  | nil => exact hp
  | cons s rest ih =>
    obtain ⟨hfirst, hrest⟩ := h
    exact ih (hp.next hfirst) hrest

end Progress

theorem called_of_run {lines : List String} {table : SymbolTable} {summary : Summary}
    (h : run lines = .ok (table, summary)) :
    ∃ calls, table = .ofCalls calls ∧ ∀ call ∈ calls, call.2 < wideLimit := by
  obtain ⟨hall, address, -, rfl, -⟩ := run_eq_ok_iff.1 h
  have hinitial : Progress.initial.location ≤ memorySize := by decide
  have haccepts := (Progress.acceptsAll_iff hinitial _).2 hall
  obtain ⟨calls, hsymbols, hcalls⟩ := Progress.called_initial.nextAll haccepts
  exact ⟨calls, hsymbols, fun call hcall => Nat.lt_of_le_of_lt (hcalls call hcall) (by decide)⟩

end PassOne

/-! ### Images of tables -/

/-- However a table has come about, an image with its symbols answers as the table does, and so
does the image read back from its text. The tables of Pass One are among them. -/
theorem Image.symbols_agree :
    (∀ (calls : List (String × Nat)) (startAddress : Nat) (words : List Nat),
      let image := (Image.ofWords startAddress words).withSymbols (.ofCalls calls)
      image.Answers calls ∧
        ((∀ call ∈ calls, call.2 < wideLimit) → startAddress < wideLimit →
          (∀ word ∈ words, word < wideLimit) →
            ∃ copy, Image.ofJson image.toJson = .ok copy ∧ copy.Answers calls)) ∧
    ∀ (lines : List String) (table : SymbolTable) (summary : PassOne.Summary),
      PassOne.run lines = .ok (table, summary) →
        ∃ calls, table = .ofCalls calls ∧ ∀ call ∈ calls, call.2 < wideLimit := by
  constructor
  · intro calls startAddress words image
    have hanswers : image.Answers calls := answers_withSymbols _ calls
    refine ⟨hanswers, fun hcalls hstart hwords => ⟨image, ?_, hanswers⟩⟩
    have hsymbols : image.symbols = (SymbolTable.ofCalls calls).labels := symbols_withSymbols _ _
    apply ofJson_toJson
    refine ⟨hstart, nofun, hwords, ?_⟩
    rw [hsymbols]
    exact SymbolTable.forall_bindings_ofCalls (P := fun address => address < wideLimit) hcalls
  · intro lines table summary hrun
    exact PassOne.called_of_run hrun

/-- Calls of which the second fails, because its upper-case form has been defined. -/
def clashingCalls : List (String × Nat) := [("straße", 5), ("STRASSE", 7), ("ö\"", 0xFFFFFFFF)]

theorem clashingCalls_agree :
    (∀ call ∈ clashingCalls, call.2 < wideLimit) ∧ (0xFFFFFFFF : Nat) < wideLimit ∧
      SymbolTable.FirstDefines clashingCalls "Strasse" 5 ∧
      ∃ copy, Image.ofJson
            ((Image.ofWords 0xFFFFFFFF [0x1000000]).withSymbols (.ofCalls clashingCalls)).toJson =
          .ok copy ∧
        copy.symbol? "Strasse" = some 5 := by
  have hcalls : ∀ call ∈ clashingCalls, call.2 < wideLimit := by decide
  have hstart : (0xFFFFFFFF : Nat) < wideLimit := by decide
  have hwords : ∀ word ∈ [0x1000000], word < wideLimit := by decide
  have hfirst : SymbolTable.FirstDefines clashingCalls "Strasse" 5 :=
    SymbolTable.firstDefines_iff.2 (by decide +kernel)
  have hagree := Image.symbols_agree.1 clashingCalls 0xFFFFFFFF [0x1000000]
  obtain ⟨copy, hread, hcopy⟩ := hagree.2 hcalls hstart hwords
  exact ⟨hcalls, hstart, hfirst, copy, hread, (hcopy.first _ _).2 hfirst⟩

end SicMachine
