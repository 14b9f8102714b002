import SicMachine.Memory
import SicMachine.Proofs.PassOneAgreement

/-!
Where an assembled program lies. The start address is inside memory and the
program ends there at the latest, so the words of the program can be loaded
wherever the assembly has succeeded. All addresses that are found out belong
to the program or to its end, they grow in the order of the source, and no
label can be mistaken for an instruction or a directive.
-/
namespace SicMachine

namespace Statement

theorem isKeyword_eq_false_iff {field : String} :
    isKeyword field = false ↔
      (∀ mnemonic : Mnemonic, mnemonic.name ≠ Text.upperCase field) ∧
        ∀ directive : Directive, directive.name ≠ Text.upperCase field := by
  simp only [isKeyword, Bool.or_eq_false_iff, Option.isSome_eq_false_iff, Option.isNone_iff_eq_none,
    Option.eq_none_iff_forall_ne_some, ne_eq, Mnemonic.ofName?_eq_some_iff,
    Directive.ofName?_eq_some_iff]

/-- A field that is a keyword is never taken for a label. -/
theorem isKeyword_of_label {text : List Char} {s : Statement} {label : String}
    (h : parseChars text = some s) (hlabel : s.label = some label) : isKeyword label = false := by
  unfold parseChars at h
  split at h
  · cases h
  · simp only at h
    split at h
    · next hmargin =>
      cases h
      cases hlabel
      rw [Bool.and_eq_true, Bool.not_eq_true', Bool.not_eq_true'] at hmargin
      exact hmargin.2
    · cases h
      cases hlabel

end Statement

namespace Source

theorem mem_of_mem_upToFinish {S : List Statement} {s : Statement} (h : s ∈ upToFinish S) :
    s ∈ S := by
  induction S with
  | nil => exact h
  | cons first rest ih =>
    unfold upToFinish at h
    split at h
    · rw [List.mem_singleton.1 h]
      exact List.mem_cons_self
    · rcases List.mem_cons.1 h with rfl | h
      · exact List.mem_cons_self
      · exact List.mem_cons_of_mem first (ih h)

theorem exists_label_of_mem_keys {lines : List String} {key : String}
    (h : key ∈ keys (statements lines)) :
    ∃ text s label, Statement.parse text = some s ∧ s.label = some label ∧
      Text.upperCase label = key := by
  obtain ⟨s, hs, hkey⟩ := mem_keys_iff.1 h
  obtain ⟨text, -, hparse⟩ := List.mem_filterMap.1 (mem_of_mem_upToFinish hs)
  obtain ⟨label, hlabel, rfl⟩ := Option.map_eq_some_iff.1 hkey
  exact ⟨text, s, label, hparse, hlabel, rfl⟩

/-- No label of a source is the name of an instruction or a directive. -/
theorem names_ne_key {lines : List String} {key : String} (h : key ∈ keys (statements lines)) :
    (∀ mnemonic : Mnemonic, mnemonic.name ≠ key) ∧
      ∀ directive : Directive, directive.name ≠ key := by
  obtain ⟨text, s, label, hparse, hlabel, rfl⟩ := exists_label_of_mem_keys h
  exact Statement.isKeyword_eq_false_iff.1 (Statement.isKeyword_of_label hparse hlabel)

/-- An address that is bound lies in the program or at its end. -/
theorem Binds.bounds {location : Nat} {S : List Statement} {key : String} {address : Nat}
    (h : Binds location S key address) :
    location ≤ address ∧ address ≤ location + extent S := by
  obtain ⟨before, s, after, rfl, -, rfl⟩ := h
  rw [extent_append]
  omega

/-- Labels that follow each other are bound to addresses that do not decrease. The induction is on
the statements, and the location moves on with them. -/
theorem pairwise_binds (location : Nat) {S : List Statement} (h : (keys S).Nodup) :
    (keys S).Pairwise fun earlier later => ∀ low high, Binds location S earlier low →
      Binds location S later high → low ≤ high := by
  induction S generalizing location with
  | nil => exact .nil
  | cons s rest ih =>
    obtain ⟨hfirst, hrest⟩ := nodup_keys_cons_iff.1 h
    have hbehind : (keys rest).Pairwise fun earlier later => ∀ low high,
        Binds location (s :: rest) earlier low → Binds location (s :: rest) later high →
          low ≤ high := by
      refine (ih (location + s.bytes) hrest).imp_of_mem ?_
      intro earlier later hearlier hlater hle low high hlow hhigh
      rcases binds_cons_iff.1 hlow with ⟨hkey, -⟩ | hlow
      · exact absurd hearlier (hfirst earlier hkey)
      · rcases binds_cons_iff.1 hhigh with ⟨hkey, -⟩ | hhigh
        · exact absurd hlater (hfirst later hkey)
        · exact hle low high hlow hhigh
    cases hkey : s.key? with
    | none =>
      have hkeys : keys (s :: rest) = keys rest := by simp [keys, hkey]
      rw [hkeys]
      exact hbehind
    | some key =>
      have hkeys : keys (s :: rest) = key :: keys rest := by simp [keys, hkey]
      rw [hkeys]
      refine List.pairwise_cons.2 ⟨fun later _ low high hlow hhigh => ?_, hbehind⟩
      rcases binds_cons_iff.1 hlow with ⟨-, rfl⟩ | hlow
      · exact hhigh.bounds.1
      · exact absurd (key_of_binds hlow) (hfirst key hkey)

theorem origin_lt {S : List Statement} (h : Acceptable S) : origin S < memorySize := by
  cases S with
  | nil => decide
  | cons s rest =>
    simp only [origin]
    by_cases hstart : s.directive? = some .start
    · obtain ⟨address, haddress⟩ := Option.isSome_iff_exists.1 (h.startAddress s rfl hstart)
      obtain ⟨operand, -, hread⟩ := Option.bind_eq_some_iff.1 haddress
      rw [if_pos hstart, haddress]
      exact of_decide_eq_true (Option.filter_eq_some_iff.1 hread).2
    · rw [if_neg hstart]
      decide

theorem Layout.mem_bindings_iff {S : List Statement} {table : SymbolTable}
    {summary : PassOne.Summary} (h : Layout S table summary) {key : String} {address : Nat} :
    (key, address) ∈ table.labels.bindings ↔ Binds summary.startAddress S key address := by
  rw [← LabelMap.find?_eq_some_iff, h.symbols, h.startAddress]

theorem Layout.executionStart_bounds {S : List Statement} {table : SymbolTable}
    {summary : PassOne.Summary} (h : Layout S table summary) :
    summary.startAddress ≤ summary.executionStart ∧
      summary.executionStart ≤ summary.startAddress + summary.programLength := by
  rw [h.startAddress, h.programLength]
  cases hlabel : finishLabel? S with
  | some operand => exact (h.executionStart.1 operand hlabel).bounds
  | none =>
    rw [h.executionStart.2 hlabel]
    omega

end Source

namespace PassOne

open Source

/-- The room that an assembled program takes up, and what lies in it. -/
structure Placed (lines : List String) (table : SymbolTable) (summary : Summary) : Prop where
  start : summary.startAddress < memorySize
  finish : summary.startAddress + summary.programLength ≤ memorySize
  /-- The location at the end is never behind the start address, so the length is exact. -/
  length : ∃ progress finish, scan .initial 1 lines = .ok (progress, finish) ∧
    progress.startAddress = summary.startAddress ∧
    progress.location = summary.startAddress + summary.programLength
  symbols : ∀ key address, (key, address) ∈ table.labels.bindings →
    summary.startAddress ≤ address ∧ address ≤ summary.startAddress + summary.programLength
  entry : summary.startAddress ≤ summary.executionStart ∧
    summary.executionStart ≤ summary.startAddress + summary.programLength
  /-- The table has the labels of the source, with addresses that grow in the order of the source. -/
  labels : ∀ key, key ∈ keys (statements lines) ↔
    ∃ address, (key, address) ∈ table.labels.bindings
  ordered : (keys (statements lines)).Pairwise fun earlier later => ∀ low high,
    (earlier, low) ∈ table.labels.bindings → (later, high) ∈ table.labels.bindings → low ≤ high
  names : ∀ key address, (key, address) ∈ table.labels.bindings →
    (∀ mnemonic : Mnemonic, mnemonic.name ≠ key) ∧ ∀ directive : Directive, directive.name ≠ key
  /-- As many words as the program is long can be loaded where it starts. -/
  loads : ∀ (memory : Memory) (words : List Nat), 3 * words.length ≤ summary.programLength →
    ∃ loaded, memory.loadWords summary.startAddress words = .ok loaded

/-- The scan of an assembled source ends behind its last byte. -/
theorem location_of_scan {lines : List String} {table : SymbolTable} {summary : Summary}
    (h : run lines = .ok (table, summary)) :
    ∃ progress finish, scan .initial 1 lines = .ok (progress, finish) ∧
      progress.startAddress = summary.startAddress ∧
      progress.location = summary.startAddress + summary.programLength := by
  obtain ⟨hall, address, hentry, -, rfl⟩ := run_eq_ok_iff.1 h
  have hinitial : Progress.initial.location ≤ memorySize := by decide
  have hsource := (Progress.acceptsAll_iff hinitial _).2 hall
  obtain ⟨number, hscan⟩ := (scan_eq_ok_iff hinitial 1 lines _).2 ⟨hsource, rfl, rfl⟩
  have hlayout := layout_known hall hentry
  have hlocation := Progress.location_nextAll hall
  rw [Progress.reach_initial, ← hlayout.startAddress, ← hlayout.programLength] at hlocation
  exact ⟨known lines, _, hscan, rfl, hlocation⟩

/-- An assembled program lies in memory with all that the assembly has found out about it, and it
can be loaded there. -/
theorem run_placed (lines : List String) (table : SymbolTable) (summary : Summary)
    (h : run lines = .ok (table, summary)) : Placed lines table summary := by
  obtain ⟨hall, address, hentry, rfl, rfl⟩ := run_eq_ok_iff.1 h
  have hlayout := layout_known hall hentry
  have hacceptable : Acceptable (statements lines) :=
    Progress.acceptsTogether_initial_iff.1 ⟨hall, (exists_enters_iff hall).1 ⟨address, hentry⟩⟩
  have hfinish : origin (statements lines) + extent (statements lines) ≤ memorySize :=
    fits_take_iff.1 hacceptable.fits
  rw [← hlayout.startAddress, ← hlayout.programLength] at hfinish
  refine
    { start := ?_
      finish := hfinish
      length := location_of_scan h
      symbols := ?_
      entry := hlayout.executionStart_bounds
      labels := ?_
      ordered := ?_
      names := ?_
      loads := ?_ }
  · rw [hlayout.startAddress]
    exact origin_lt hacceptable
  · intro key address hmem
    rw [hlayout.programLength]
    exact (hlayout.mem_bindings_iff.1 hmem).bounds
  · intro key
    simp only [hlayout.mem_bindings_iff]
    exact ⟨exists_binds, fun hkey => key_of_binds hkey.choose_spec⟩
  · simp only [hlayout.mem_bindings_iff]
    exact pairwise_binds _ hacceptable.distinct
  · intro key address hmem
    exact names_ne_key (key_of_binds (hlayout.mem_bindings_iff.1 hmem))
  · intro memory words hwords
    refine ⟨_, memory.loadWords_of_fits ?_⟩
    rw [wordBytes]
    omega

theorem copying_placed :
    run copying = .ok (copyingTable, ⟨some "COPY", 0x1000, 6, 0x1000⟩) ∧
      0x1000 + 6 ≤ memorySize ∧
      ∀ memory : Memory, ∃ loaded, memory.loadWords 0x1000 [0x001003, 0x000000] = .ok loaded := by
  have hplaced := run_placed copying _ _ run_copying
  exact ⟨run_copying, hplaced.finish, fun memory => hplaced.loads memory _ (by decide)⟩

end PassOne

end SicMachine
