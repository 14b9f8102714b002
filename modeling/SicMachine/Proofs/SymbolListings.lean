import SicMachine.Proofs.ByteOrder
import SicMachine.Proofs.ImageSymbols
import SicMachine.Proofs.UpperCaseForms

/-!
The listing of a symbol table. The calls that succeed are the bindings of the
table, each with its label in upper case, and the listing has them in one order
that no two bindings share: by address, and by the bytes of the label where the
addresses are the same. So the listing does not depend on the order in which
the bindings are kept or have been made. A label that is listed is its own
upper-case form, so every look-up of it finds the binding that is listed.
-/
namespace SicMachine

namespace SymbolTable

/-- The calls that succeed, one after the other, from a table on. -/
def successes (table : SymbolTable) : List (String × Nat) → List (String × Nat)
  | [] => []
  | call :: rest =>
    match table.add call.1 call.2 with
    | .ok added => call :: added.successes rest
    | .error _ => table.successes rest

/-- What a call that succeeds binds. -/
def binding (call : String × Nat) : String × Nat := (Text.upperCase call.1, call.2)

/-- By address, and by the bytes of the label where the addresses are the same. -/
def ListedBefore (left right : String × Nat) : Prop :=
  left.2 < right.2 ∨ left.2 = right.2 ∧ Text.bytes left.1 < Text.bytes right.1

/-- What the table made up by these calls says of every label, of a further call and of all
labels. -/
structure Records (table : SymbolTable) (calls : List (String × Nat)) : Prop where
  refuses : ∀ label address, (∃ error, table.add label address = .error error) ↔
    ∃ earlier other later, calls = earlier ++ other :: later ∧ Succeeds earlier other ∧
      Text.upperCase other.1 = Text.upperCase label
  refusal : ∀ label address error, table.add label address = .error error →
    error = .duplicate (Text.upperCase label) ∧ table.call label address = table
  size : table.size = (successes empty calls).length
  has : ∀ label, table.has label = true ↔ ∃ address, FirstDefines calls label address
  get : ∀ label address, table.get label = .ok address ↔ FirstDefines calls label address
  undefined : ∀ label, (¬ ∃ address, FirstDefines calls label address) →
    table.get label = .error (.undefined label)
  listed : ∀ label address, (label, address) ∈ table.entries ↔
    ∃ spelling, Text.upperCase spelling = label ∧ FirstDefines calls spelling address
  /-- The listing has the binding of every call that succeeds, and none of them twice. -/
  listing : table.entries.Perm ((successes empty calls).map binding)
  increasing : table.entries.Pairwise ListedBefore

variable {table : SymbolTable} {calls : List (String × Nat)} {label : String} {address : Nat}
  {left right : String × Nat}

/-! ### The bindings of a table -/

theorem successes_of_none (h : table.find? label = none) (address : Nat)
    (rest : List (String × Nat)) :
    table.successes ((label, address) :: rest) =
      (label, address) :: (table.call label address).successes rest := by
  have hadd : table.add label address = .ok _ := add_eq_ok_iff.2 ⟨h, rfl⟩
  rw [successes, call_of_none h]
  simp only [hadd]

theorem successes_of_some {value : Nat} (h : table.find? label = some value) (address : Nat)
    (rest : List (String × Nat)) :
    table.successes ((label, address) :: rest) = table.successes rest := by
  rw [successes]
  split
  · next hadd =>
    rw [(add_eq_ok_iff.1 hadd).1] at h
    cases h
  · rfl

/-- The calls that succeed add their bindings to those of the table, and the others add nothing. -/
theorem foldl_call_perm (calls : List (String × Nat)) (table : SymbolTable) :
    (calls.foldl (fun table call => table.call call.1 call.2) table).labels.bindings.Perm
      ((table.successes calls).map binding ++ table.labels.bindings) := by
  induction calls generalizing table with
  | nil => exact .refl _
  | cons call rest ih =>
    obtain ⟨label, address⟩ := call
    have hrest := ih (table.call label address)
    rw [List.foldl_cons]
    cases hfound : table.find? label with
    | some value =>
      rw [call_of_some hfound] at hrest
      rw [successes_of_some hfound, call_of_some hfound]
      exact hrest
    | none =>
      have hinsert := LabelMap.insert_perm hfound address
      rw [successes_of_none hfound, List.map_cons, List.cons_append]
      refine hrest.trans ?_
      refine ((List.Perm.refl _).append ?_).trans List.perm_middle
      rw [call_of_none hfound]
      exact hinsert

theorem bindings_perm (calls : List (String × Nat)) :
    (ofCalls calls).labels.bindings.Perm ((successes empty calls).map binding) := by
  have hfold := foldl_call_perm calls empty
  rwa [show empty.labels.bindings = [] from rfl, List.append_nil] at hfold

/-! ### The order of the listing -/

theorem precedes_iff : precedes left right = true ↔ ListedBefore left right ∨ left = right := by
  obtain ⟨leftLabel, leftAddress⟩ := left
  obtain ⟨rightLabel, rightAddress⟩ := right
  simp only [precedes, ListedBefore, Text.bytes_lt_iff, Bool.or_eq_true, Bool.and_eq_true,
    decide_eq_true_eq, beq_iff_eq, Std.le_iff_lt_or_eq, Prod.mk.injEq]
  tauto

theorem ListedBefore.trans {middle : String × Nat} (h : ListedBefore left middle)
    (hrest : ListedBefore middle right) : ListedBefore left right := by
  rcases h with h | ⟨haddress, hlabel⟩
  · rcases hrest with hrest | ⟨hsame, -⟩
    · exact Or.inl (Nat.lt_trans h hrest)
    · exact Or.inl (hsame ▸ h)
  · rcases hrest with hrest | ⟨hsame, hnext⟩
    · exact Or.inl (haddress ▸ hrest)
    · exact Or.inr ⟨haddress.trans hsame, List.lt_trans hlabel hnext⟩

theorem ListedBefore.irrefl (binding : String × Nat) : ¬ ListedBefore binding binding := by
  rintro (h | ⟨-, h⟩)
  · exact Nat.lt_irrefl _ h
  · exact List.lt_irrefl _ h

theorem precedes_trans {middle : String × Nat} (h : precedes left middle = true)
    (hrest : precedes middle right = true) : precedes left right = true := by
  rw [precedes_iff] at h hrest ⊢
  rcases h with h | rfl
  · rcases hrest with hrest | rfl
    · exact Or.inl (h.trans hrest)
    · exact Or.inl h
  · exact hrest

theorem precedes_total (left right : String × Nat) :
    (precedes left right || precedes right left) = true := by
  simp only [precedes, Bool.or_eq_true, Bool.and_eq_true, decide_eq_true_eq, beq_iff_eq]
  rcases Nat.lt_trichotomy left.2 right.2 with h | h | h
  · exact Or.inl (Or.inl h)
  · rcases Std.le_total (a := left.1) (b := right.1) with hlabel | hlabel
    · exact Or.inl (Or.inr ⟨h, hlabel⟩)
    · exact Or.inr (Or.inr ⟨h.symm, hlabel⟩)
  · exact Or.inr (Or.inl h)

theorem precedes_antisymm (h : precedes left right = true) (hback : precedes right left = true) :
    left = right := by
  rw [precedes_iff] at h hback
  rcases h with h | h
  · rcases hback with hback | hback
    · exact absurd (h.trans hback) (ListedBefore.irrefl left)
    · exact hback.symm
  · exact h

theorem pairwise_mergeSort (bindings : List (String × Nat)) :
    (bindings.mergeSort precedes).Pairwise fun left right => precedes left right = true := by
  have htrans : ∀ left middle right, precedes left middle = true →
      precedes middle right = true → precedes left right = true := fun _ _ _ => precedes_trans
  exact List.pairwise_mergeSort htrans precedes_total bindings

/-- Sorting forgets the order in which bindings come. -/
theorem mergeSort_eq_of_perm {bindings others : List (String × Nat)} (h : bindings.Perm others) :
    bindings.mergeSort precedes = others.mergeSort precedes := by
  have hperm : (bindings.mergeSort precedes).Perm (others.mergeSort precedes) :=
    (List.mergeSort_perm ..).trans (h.trans (List.mergeSort_perm ..).symm)
  exact hperm.eq_of_pairwise (fun _ _ _ _ => precedes_antisymm) (pairwise_mergeSort bindings)
    (pairwise_mergeSort others)

theorem entries_perm (table : SymbolTable) : table.entries.Perm table.labels.bindings :=
  List.mergeSort_perm ..

theorem mem_entries_iff :
    (label, address) ∈ table.entries ↔ table.labels.find? label = some address := by
  rw [table.entries_perm.mem_iff, LabelMap.find?_eq_some_iff]

theorem distinct_entries (table : SymbolTable) :
    table.entries.Pairwise fun left right => left.1 ≠ right.1 :=
  table.entries_perm.symm.pairwise table.labels.distinct fun hne => hne.symm

theorem pairwise_entries (table : SymbolTable) : table.entries.Pairwise ListedBefore := by
  refine ((pairwise_mergeSort table.labels.bindings).and table.distinct_entries).imp ?_
  rintro left right ⟨hprecedes, hne⟩
  rcases precedes_iff.1 hprecedes with hbefore | rfl
  · exact hbefore
  · exact absurd rfl hne

/-! ### Calls and their table -/

theorem add_eq_error_iff {error : Error} :
    table.add label address = .error error ↔
      (∃ value, table.find? label = some value) ∧ error = .duplicate (Text.upperCase label) := by
  unfold add find?
  simp only
  cases table.labels.find? (Text.upperCase label) with
  | some value => simp [eq_comm]
  | none => simp

/-- A label has been defined when a call that succeeded has its upper-case form. -/
theorem exists_firstDefines_iff :
    (∃ address, FirstDefines calls label address) ↔
      ∃ earlier other later, calls = earlier ++ other :: later ∧ Succeeds earlier other ∧
        Text.upperCase other.1 = Text.upperCase label := by
  constructor
  · rintro ⟨address, earlier, spelling, later, hcalls, hlabel, hsucceeds, -⟩
    exact ⟨earlier, (spelling, address), later, hcalls, hsucceeds, hlabel⟩
  · rintro ⟨earlier, other, later, rfl, -, hlabel⟩
    have hmem : other ∈ earlier ++ other :: later :=
      List.mem_append_right earlier List.mem_cons_self
    simp only [firstDefines_iff, find?_ofCalls, firstCall?]
    rw [← Option.isSome_iff_exists, Option.isSome_map, List.find?_isSome]
    exact ⟨other, hmem, beq_iff_eq.2 hlabel⟩

/-- The labels of a listing are the upper-case forms of those that have been defined. -/
theorem mem_entries_ofCalls_iff :
    (label, address) ∈ (ofCalls calls).entries ↔
      ∃ spelling, Text.upperCase spelling = label ∧ FirstDefines calls spelling address := by
  simp only [firstDefines_iff]
  constructor
  · intro h
    have hbound := ((entries_perm _).trans (bindings_perm calls)).mem_iff.1 h
    obtain ⟨⟨spelling, _⟩, -, hbinding⟩ := List.mem_map.1 hbound
    cases hbinding
    exact ⟨spelling, rfl, mem_entries_iff.1 h⟩
  · rintro ⟨spelling, rfl, hfound⟩
    exact mem_entries_iff.2 hfound

theorem records_ofCalls (calls : List (String × Nat)) : (ofCalls calls).Records calls where
  refuses label address := by
    simp only [add_eq_error_iff, exists_and_left, exists_eq, and_true, ← firstDefines_iff]
    exact exists_firstDefines_iff
  refusal label address error h := ⟨(add_eq_error_iff.1 h).2, call_of_error h⟩
  size := by
    rw [size, LabelMap.size, (bindings_perm calls).length_eq, List.length_map]
  has label := by
    simp only [has, Option.isSome_iff_exists, ← firstDefines_iff]
  get label address := by
    rw [firstDefines_iff, get]
    cases (ofCalls calls).find? label <;> simp
  undefined label h := by
    simp only [firstDefines_iff, ← Option.isSome_iff_exists, Option.not_isSome_iff_eq_none] at h
    rw [get, h]
  listed label address := mem_entries_ofCalls_iff
  listing := (entries_perm _).trans (bindings_perm calls)
  increasing := pairwise_entries _

/-- A table binds every label to the address of the first call that has its upper-case form, calls
that come later for it fail, and the listing has each binding once and in the order of addresses and
labels. The listing is the same in whatever order the bindings are kept, and for all sequences of
calls that make the same bindings. -/
theorem calls_listed (calls : List (String × Nat)) :
    (ofCalls calls).Records calls ∧
    (∀ kept : List (String × Nat), kept.Perm (ofCalls calls).labels.bindings →
      kept.mergeSort precedes = (ofCalls calls).entries) ∧
    ∀ others : List (String × Nat),
      ((successes empty others).map binding).Perm ((successes empty calls).map binding) →
        (ofCalls others).entries = (ofCalls calls).entries := by
  refine ⟨records_ofCalls calls, fun kept => mergeSort_eq_of_perm, fun others hsame => ?_⟩
  have hperm := (bindings_perm others).trans (hsame.trans (bindings_perm calls).symm)
  exact mergeSort_eq_of_perm hperm

/-- Two labels share an address, and the last call fails. -/
def scattered : List (String × Nat) := [("c", 6), ("b", 0), ("straße", 9), ("a", 0), ("STRASSE", 2)]

/-- The same labels in another order and in other spellings. -/
def scatteredAgain : List (String × Nat) := [("A", 0), ("strasse", 9), ("B", 0), ("C", 6), ("c", 8)]

theorem scattered_listed :
    (ofCalls scattered).entries = [("A", 0), ("B", 0), ("C", 6), ("STRASSE", 9)] ∧
      (ofCalls scatteredAgain).entries = (ofCalls scattered).entries ∧
      (ofCalls scattered).size = 4 := by
  obtain ⟨hrecords, hkept, hothers⟩ := calls_listed scattered
  have hsame : ((successes empty scatteredAgain).map binding).Perm
      ((successes empty scattered).map binding) := by
    decide +kernel
  have hperm : [("A", 0), ("B", 0), ("C", 6), ("STRASSE", 9)].Perm
      (ofCalls scattered).labels.bindings := by
    decide +kernel
  refine ⟨?_, hothers _ hsame, ?_⟩
  · rw [← hkept _ hperm]
    exact List.mergeSort_of_pairwise (by decide)
  · rw [hrecords.size]
    decide +kernel

/-! ### Labels of a listing -/

/-- A label of the listing is its own upper-case form, so the table and every image with its symbols
find it under its own name, and no call can define it again. -/
theorem listed_labels_stable {calls : List (String × Nat)} {label : String} {address : Nat}
    (h : (label, address) ∈ (ofCalls calls).entries) :
    (ofCalls calls).has label = true ∧ (ofCalls calls).get label = .ok address ∧
      (∀ other, (ofCalls calls).add label other = .error (.duplicate label)) ∧
      ∀ image : Image, (image.withSymbols (ofCalls calls)).symbol? label = some address := by
  obtain ⟨spelling, rfl, -⟩ := mem_entries_ofCalls_iff.1 h
  have hupper := Text.upperCase_upperCase spelling
  have hfound : (ofCalls calls).find? (Text.upperCase spelling) = some address := by
    rw [find?, hupper]
    exact mem_entries_iff.1 h
  refine ⟨?_, ?_, fun other => ?_, fun image => ?_⟩
  · rw [has, hfound]
    rfl
  · rw [get, hfound]
  · exact add_eq_error_iff.2 ⟨⟨address, hfound⟩, by rw [hupper]⟩
  · rw [Image.symbol?_withSymbols, hfound]

/-- Labels that are longer in upper case. -/
def ligatures : List (String × Nat) := [("ﬃ", 5), ("ᾳ", 7)]

theorem ligatures_stable :
    ("FFI", 5) ∈ (ofCalls ligatures).entries ∧ (ofCalls ligatures).get "FFI" = .ok 5 ∧
      (ofCalls ligatures).add "FFI" 9 = .error (.duplicate "FFI") ∧
      ((Image.ofWords 0 []).withSymbols (ofCalls ligatures)).symbol? "FFI" = some 5 := by
  have hlisted : ("FFI", 5) ∈ (ofCalls ligatures).entries :=
    mem_entries_iff.2 (by decide +kernel)
  obtain ⟨-, hget, hadd, himage⟩ := listed_labels_stable hlisted
  exact ⟨hlisted, hget, hadd 9, himage _⟩

end SymbolTable

end SicMachine
