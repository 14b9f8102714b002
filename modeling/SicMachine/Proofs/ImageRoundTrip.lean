import SicMachine.Snapshot
import SicMachine.Proofs.RecordInvariants
import SicMachine.Proofs.WrittenRecords

/-!
Images and the results of an assembly come back from their JSON as they were.
The condition is that their numbers have 32 bits: labels and names may be any
text, and any number of words and symbols may be there. An entry that is absent
and a table without symbols are not written at all; they come back because
their fields may be left out.
-/
namespace SicMachine

open Json

/-! ### Images -/

namespace Image

/-- The numbers of the image are 32-bit numbers. -/
structure Wide (image : Image) : Prop where
  startAddress : image.startAddress < wideLimit
  entry : ∀ entry ∈ image.entry, entry < wideLimit
  words : ∀ word ∈ image.words, word < wideLimit
  symbols : ∀ binding ∈ image.symbols.bindings, binding.2 < wideLimit

instance (image : Image) : Decidable image.Wide :=
  decidable_of_iff
    (image.startAddress < wideLimit ∧ (∀ entry ∈ image.entry, entry < wideLimit) ∧
      (∀ word ∈ image.words, word < wideLimit) ∧
      ∀ binding ∈ image.symbols.bindings, binding.2 < wideLimit)
    ⟨fun ⟨startAddress, entry, words, symbols⟩ => ⟨startAddress, entry, words, symbols⟩,
      fun ⟨startAddress, entry, words, symbols⟩ => ⟨startAddress, entry, words, symbols⟩⟩

/-- The keys of the members with which an image is written. -/
def keys (image : Image) : List String :=
  ["start_address"] ++ (if image.entry = none then [] else ["entry"]) ++ ["words"] ++
    (if image.symbols = .empty then [] else ["symbols"])

variable {image : Image}

theorem eq_empty_of_isEmpty {map : LabelMap} (h : map.bindings.isEmpty = true) : map = .empty := by
  obtain ⟨bindings, increasing⟩ := map
  obtain rfl : bindings = [] := List.isEmpty_iff.1 h
  rfl

/-- The words and the symbols fill in what the start address and the entry leave open. -/
theorem fills_words (h : image.Wide) (seen : List String) (hstart : "start_address" ∈ seen)
    (hwords : "words" ∉ seen) (hsymbols : "symbols" ∉ seen) :
    record.Fills seen { image with words := [], symbols := .empty }
      ([("words", arrayTokens (image.words.map fun word => [Token.ofNat word]))] ++
        (if image.symbols.bindings.isEmpty then []
          else [("symbols", objectTokens (image.symbols.bindings.map fun binding =>
            (binding.1, [Token.ofNat binding.2])))])) image := by
  have hcomplete : ∀ more value, record.endObject (more ++ "words" :: seen) value = .ok value := by
    intro more value
    refine Record.endObject_eq_ok_iff.2 ⟨rfl, ?_⟩
    simp [record, Field.of, hstart]
  have hend : ∀ word, Reader.wide .endArray ≠ .ok word := by
    intro word hword
    cases hword
  have htakes := Reader.takes_array hend fun word hword => Reader.wide_ofNat (h.words word hword)
  refine .member _ rfl (by simpa using hwords) (Field.takes_of htakes _ _ _ _) ?_
  split
  · next hempty =>
    have hnone : image.symbols = .empty := eq_empty_of_isEmpty hempty
    rw [← hnone]
    exact .done (hcomplete [] _)
  · next hsome =>
    have htakes := Reader.takes_map fun binding hbinding =>
      Reader.wide_ofNat (h.symbols binding hbinding)
    refine .member _ rfl (by simpa using hsymbols) (Field.takes_of htakes _ _ _ _) ?_
    have hmap : LabelMap.ofList image.symbols.bindings = image.symbols :=
      LabelMap.ofList_of_perm (.refl _)
    simp only [hmap]
    exact .done (hcomplete ["symbols"] _)

theorem takes_tokens (h : image.Wide) : record.reader.Takes image.tokens image := by
  have hstart : (Reader.ofScalar Reader.wide).Takes [Token.ofNat image.startAddress]
      image.startAddress :=
    Reader.takes_ofScalar (Reader.wide_ofNat h.startAddress)
  apply Record.takes_of_fills
  simp only [List.append_assoc]
  refine .member _ rfl rfl (Field.takes_of hstart _ _ _ _) ?_
  cases hentry : image.entry with
  | none =>
    have hwords := fills_words h ["start_address"] (by simp) (by simp) (by simp)
    rw [hentry] at hwords
    exact hwords
  | some entry =>
    have hvalue : Reader.wide (Token.ofNat entry) = .ok entry :=
      Reader.wide_ofNat (h.entry entry hentry)
    have htakes := Reader.takes_ofScalar (Reader.optional_of_ok hvalue nofun)
    refine .member _ rfl rfl (Field.takes_of htakes _ _ _ _) ?_
    have hwords := fills_words h ["entry", "start_address"] (by simp) (by simp) (by simp)
    rw [hentry] at hwords
    exact hwords

theorem writable_tokens (image : Image) : Writable image.tokens := by
  apply Writable.object
  intro member hmember
  simp only [List.mem_append, List.mem_singleton, Option.mem_toList, Option.map_eq_some_iff]
    at hmember
  rcases hmember with ((rfl | ⟨entry, -, rfl⟩) | rfl) | hsymbols
  · exact .ofNat _
  · exact .ofNat _
  · exact .numbers image.words fun word => word
  · split at hsymbols
    · cases hsymbols
    · obtain rfl := List.mem_singleton.1 hsymbols
      apply Writable.object
      intro binding hbinding
      obtain ⟨bound, -, rfl⟩ := List.mem_map.1 hbinding
      exact .ofNat bound.2

/-- An image comes back from its text as it was. -/
theorem ofJson_toJson (h : image.Wide) : ofJson image.toJson = .ok image :=
  (Codec.decode_encode image.writable_tokens (takes_tokens h)).2

/-- An entry that is absent and a table without symbols leave no trace in the text. -/
theorem exists_members (image : Image) :
    ∃ members, scan image.toJson.toList = objectTokens members ∧
      members.map Prod.fst = image.keys := by
  have hscan : scan image.toJson.toList = image.tokens := scan_pretty image.writable_tokens
  refine ⟨_, hscan, ?_⟩
  have hsymbols : image.symbols.bindings.isEmpty = decide (image.symbols = .empty) := by
    by_cases hempty : image.symbols = .empty
    · simp [hempty, LabelMap.empty]
    · simpa [hempty] using fun h => hempty (eq_empty_of_isEmpty (by simp [h]))
  rw [hsymbols]
  unfold keys
  cases image.entry <;> split <;> simp_all

end Image

/-! ### Results of an assembly -/

namespace PassOne.Summary

/-- The numbers of the results are 32-bit numbers. -/
structure Wide (summary : Summary) : Prop where
  startAddress : summary.startAddress < wideLimit
  programLength : summary.programLength < wideLimit
  executionStart : summary.executionStart < wideLimit

theorem takes_name (name : Option String) :
    (Reader.ofScalar (Reader.optional Reader.string)).Takes
      (optionalTokens (fun name => [Token.ofString name]) name) name := by
  cases name with
  | none => exact fun rest => rfl
  | some name =>
    exact Reader.takes_ofScalar (Reader.optional_of_ok (Reader.string_ofString name) nofun)

theorem writable_name (name : Option String) :
    Writable (optionalTokens (fun name => [Token.ofString name]) name) := by
  cases name with
  | none =>
    have hnull : Token.null.Writable := trivial
    exact .single hnull
  | some name => exact .ofString name

theorem takes_tokens {summary : Summary} (h : summary.Wide) :
    record.reader.Takes summary.tokens summary := by
  have hstart := Reader.takes_ofScalar (Reader.wide_ofNat h.startAddress)
  have hlength := Reader.takes_ofScalar (Reader.wide_ofNat h.programLength)
  have hexecution := Reader.takes_ofScalar (Reader.wide_ofNat h.executionStart)
  apply Record.takes_of_fills
  refine .member _ rfl rfl (Field.takes_of (takes_name summary.programName) _ _ _ _) ?_
  refine .member _ rfl rfl (Field.takes_of hstart _ _ _ _) ?_
  refine .member _ rfl rfl (Field.takes_of hlength _ _ _ _) ?_
  refine .member _ rfl rfl (Field.takes_of hexecution _ _ _ _) ?_
  exact .done rfl

theorem writable_tokens (summary : Summary) : Writable summary.tokens := by
  apply Writable.object
  intro member hmember
  simp only [List.mem_cons, List.not_mem_nil, or_false] at hmember
  rcases hmember with rfl | rfl | rfl | rfl
  · exact writable_name summary.programName
  · exact .ofNat _
  · exact .ofNat _
  · exact .ofNat _

end PassOne.Summary

/-- Images and the results of an assembly, whatever is in them, come back from their text as they
were. What is absent is not written. -/
theorem written_values_restored :
    (∀ image : Image, image.Wide →
      Image.ofJson image.toJson = .ok image ∧
        ∃ members, scan image.toJson.toList = objectTokens members ∧
          members.map Prod.fst = image.keys) ∧
    ∀ summary : PassOne.Summary, summary.Wide →
      PassOne.Summary.codec.decode (PassOne.Summary.codec.encode summary) = .ok summary := by
  constructor
  · intro image h
    exact ⟨Image.ofJson_toJson h, image.exists_members⟩
  · intro summary h
    exact (Codec.decode_encode summary.writable_tokens (PassOne.Summary.takes_tokens h)).1

/-- Words wider than 24 bits, and labels that need escapes or go beyond ASCII. -/
def unusualImage : Image where
  startAddress := 0xFFFFFFFF
  entry := none
  words := [0, 0x1000000, 0xFFFFFFFF]
  symbols := .ofList [("é😀", 0xFFFFFFFF), ("\"\\", 1), ("\x01\n", 2), ("", 3)]

theorem unusualImage_restored :
    unusualImage.Wide ∧ Image.ofJson unusualImage.toJson = .ok unusualImage ∧
      (Image.ofWords 0 []).Wide ∧
      Image.ofJson (Image.ofWords 0 []).toJson = .ok (Image.ofWords 0 []) ∧
      PassOne.Summary.Wide ⟨some "\t\u00DF", 0, 3, 0xFFFFFFFF⟩ ∧
      PassOne.Summary.codec.decode
          (PassOne.Summary.codec.encode ⟨some "\t\u00DF", 0, 3, 0xFFFFFFFF⟩) =
        .ok ⟨some "\t\u00DF", 0, 3, 0xFFFFFFFF⟩ := by
  have hunusual : unusualImage.Wide := by decide
  have hempty : (Image.ofWords 0 []).Wide := by decide
  have hsummary : PassOne.Summary.Wide ⟨some "\t\u00DF", 0, 3, 0xFFFFFFFF⟩ :=
    ⟨by decide, by decide, by decide⟩
  obtain ⟨himages, hsummaries⟩ := written_values_restored
  exact ⟨hunusual, (himages _ hunusual).1, hempty, (himages _ hempty).1, hsummary,
    hsummaries _ hsummary⟩

end SicMachine
