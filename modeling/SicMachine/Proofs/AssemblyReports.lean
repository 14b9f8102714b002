import SicMachine.CommandLine.Report
import SicMachine.Proofs.JsonValues
import SicMachine.Proofs.ListingLines
import SicMachine.Proofs.OperandEnds
import SicMachine.Proofs.ProgramPlacement
import SicMachine.Proofs.SymbolListings

/-!
What the command line says about an assembly. Its two reports are made from one
table and one summary, and each of them gives both back: the JSON to a reader of
records and the names and values of its members, the listing to a reader of
lines. A label is a field of its line and stays without white space in upper
case, so a row of the listing is one line and no two bindings share a row. A
source that cannot be assembled has one report, in whatever form it was asked
for.
-/
namespace SicMachine

/-! ### Trees with named members -/

namespace Json.Value

/-- Members with their names spelled out. -/
def spelled (members : List (String × Value)) : List (List TextUnit × Value) :=
  members.map fun member => (member.1.toList.map .char, member.2)

/-- The object with these members. -/
def named (members : List (String × Value)) : Value := .object (spelled members)

def ofNat (n : Nat) : Value := .scalar (Token.ofNat n) rfl

def ofName? : Option String → Value
  | some name => .scalar (Token.ofString name) rfl
  | none => .scalar .null rfl

theorem tokens_ofNat (n : Nat) : (ofNat n).tokens = [Token.ofNat n] := tokens_scalar _ _

theorem tokens_ofName? (name : Option String) :
    (ofName? name).tokens = optionalTokens (fun name => [Token.ofString name]) name := by
  cases name <;> exact tokens_scalar _ _

theorem tokens_named (members : List (String × Value)) :
    (named members).tokens =
      objectTokens (members.map fun member => (member.1, member.2.tokens)) := by
  rw [named, tokens, objectTokens, spelled]
  simp only [List.map_map]
  rfl

theorem names_spelled (members : List (String × Value)) :
    (spelled members).map (fun member => textOf? member.1) =
      members.map fun member => some member.1 := by
  simp [spelled, textOf?_chars]

theorem part?_named (place : Nat) (name : String) (members : List (String × Value)) :
    (named members).part? place name =
      (members.find? fun member => member.1 == name).map Prod.snd := by
  simp [named, part?, spelled, List.find?_map, textOf?_chars, Function.comp_def]

theorem natural?_ofNat (n : Nat) : (ofNat n).natural? = some n := Token.natural?_ofNat n

end Json.Value

/-! ### Labels in upper case -/

namespace Source

/-- The label of a line is one of its fields. -/
theorem field_of_label {line : String} {s : Statement} {label : String}
    (h : Statement.parse line = some s) (hlabel : s.label = some label) :
    Statement.Field label := by
  cases Statement.laidOut_of_parse h with
  | labelAlone hfield => exact Option.some.inj hlabel ▸ hfield
  | labelled hfield => exact Option.some.inj hlabel ▸ hfield
  | indented => cases hlabel
  | unlabelled => cases hlabel

/-- There is no white space in the labels of a source, and none in their upper-case forms. -/
theorem solid_of_mem_keys {lines : List String} {key : String}
    (h : key ∈ keys (statements lines)) : ∀ c ∈ key.toList, Text.isBlank c = false := by
  obtain ⟨line, s, label, hparse, hlabel, rfl⟩ := exists_label_of_mem_keys h
  exact Text.isBlank_of_mem_upperCase (field_of_label hparse hlabel).solid

theorem mem_keys_of_title {S : List Statement} {name : String} (h : title? S = some name) :
    name ∈ keys S := by
  cases S with
  | nil => cases h
  | cons s rest =>
    simp only [title?] at h
    split at h
    · exact mem_keys_cons_iff.2 (Or.inl h)
    · cases h

end Source

namespace PassOne

open Source

variable {lines : List String} {table : SymbolTable} {summary : Summary}

theorem solid_of_mem_bindings (h : run lines = .ok (table, summary)) {label : String}
    {address : Nat} (hmem : (label, address) ∈ table.labels.bindings) :
    ∀ c ∈ label.toList, Text.isBlank c = false := by
  have hbinds := (layout_of_run h).2.mem_bindings_iff.1 hmem
  exact solid_of_mem_keys (key_of_binds hbinds)

theorem solid_of_programName (h : run lines = .ok (table, summary)) {name : String}
    (hname : summary.programName = some name) : ∀ c ∈ name.toList, Text.isBlank c = false := by
  rw [(layout_of_run h).2.programName] at hname
  exact solid_of_mem_keys (mem_keys_of_title hname)

/-- All that an assembly finds out lies in memory, or right behind it. -/
theorem wide_of_run (h : run lines = .ok (table, summary)) : summary.Wide := by
  obtain ⟨hacceptable, hlayout⟩ := layout_of_run h
  have hfits : origin (statements lines) + extent (statements lines) ≤ memorySize :=
    fits_take_iff.1 hacceptable.fits
  rw [← hlayout.startAddress, ← hlayout.programLength] at hfits
  have hentry := hlayout.executionStart_bounds
  have hmemory : memorySize < wideLimit := by decide
  exact ⟨by omega, by omega, by omega⟩

end PassOne

/-! ### The JSON of an assembly -/

namespace CommandLine

open Json

variable {table : SymbolTable} {summary : PassOne.Summary}

/-- The text is one JSON object with two members. One is read as the summary, and the other has the
bindings of the table for its members. -/
structure Encodes (table : SymbolTable) (summary : PassOne.Summary) (text : String)
    (members : List (List TextUnit × Value)) : Prop where
  parsed : scan text.toList = (Value.object members).tokens
  keys : members.map (fun member => textOf? member.1) = [some "result", some "symbols"]
  result : ∃ result, (Value.object members).part? 0 "result" = some result ∧
    PassOne.Summary.record.reader result.tokens = .ok (summary, [])
  symbols : ∃ symbols, (Value.object members).part? 1 "symbols" = some (.object symbols) ∧
    symbols.map (fun symbol => (textOf? symbol.1, symbol.2.natural?)) =
      table.labels.bindings.map (fun binding => (some binding.1, some binding.2)) ∧
    (symbols.map fun symbol => textOf? symbol.1).Nodup

def resultTree (summary : PassOne.Summary) : Value :=
  .named [("execution_start_address", .ofNat summary.executionStart),
    ("program_length", .ofNat summary.programLength),
    ("program_name", .ofName? summary.programName),
    ("start_address", .ofNat summary.startAddress)]

def symbolMembers (table : SymbolTable) : List (String × Value) :=
  table.labels.bindings.map fun binding => (binding.1, .ofNat binding.2)

def assemblyMembers (table : SymbolTable) (summary : PassOne.Summary) : List (String × Value) :=
  [("result", resultTree summary), ("symbols", .named (symbolMembers table))]

theorem assemblyTokens_eq (table : SymbolTable) (summary : PassOne.Summary) :
    assemblyTokens table summary = (Value.named (assemblyMembers table summary)).tokens := by
  simp only [assemblyTokens, assemblyMembers, resultTree, symbolMembers, Value.tokens_named,
    Value.tokens_ofNat, Value.tokens_ofName?, List.map_cons, List.map_nil, List.map_map,
    Function.comp_def]

/-- The fields of a summary are read back in the order of their names. -/
theorem takes_resultTree (h : summary.Wide) :
    PassOne.Summary.record.reader.Takes (resultTree summary).tokens summary := by
  have hexecution := Reader.takes_ofScalar (Reader.wide_ofNat h.executionStart)
  have hlength := Reader.takes_ofScalar (Reader.wide_ofNat h.programLength)
  have hstart := Reader.takes_ofScalar (Reader.wide_ofNat h.startAddress)
  have hname := PassOne.Summary.takes_name summary.programName
  simp only [resultTree, Value.tokens_named, List.map_cons, List.map_nil, Value.tokens_ofNat,
    Value.tokens_ofName?]
  apply Record.takes_of_fills
  refine .member _ rfl rfl (Field.takes_of hexecution _ _ _ _) ?_
  refine .member _ rfl rfl (Field.takes_of hlength _ _ _ _) ?_
  refine .member _ rfl rfl (Field.takes_of hname _ _ _ _) ?_
  refine .member _ rfl rfl (Field.takes_of hstart _ _ _ _) ?_
  exact .done rfl

theorem writable_assemblyTokens (table : SymbolTable) (summary : PassOne.Summary) :
    Writable (assemblyTokens table summary) := by
  apply Writable.object
  intro member hmember
  simp only [List.mem_cons, List.not_mem_nil, or_false] at hmember
  rcases hmember with rfl | rfl
  · apply Writable.object
    intro field hfield
    simp only [List.mem_cons, List.not_mem_nil, or_false] at hfield
    rcases hfield with rfl | rfl | rfl | rfl
    · exact .ofNat _
    · exact .ofNat _
    · exact PassOne.Summary.writable_name summary.programName
    · exact .ofNat _
  · apply Writable.object
    intro symbol hsymbol
    obtain ⟨binding, -, rfl⟩ := List.mem_map.1 hsymbol
    exact .ofNat binding.2

theorem exists_encodes (h : summary.Wide) (table : SymbolTable) :
    ∃ members, Encodes table summary (pretty (assemblyTokens table summary)) members := by
  have hread := takes_resultTree h []
  rw [List.append_nil] at hread
  have hpart := fun place name => Value.part?_named place name (assemblyMembers table summary)
  refine ⟨Value.spelled (assemblyMembers table summary),
    { parsed := ?_
      keys := Value.names_spelled _
      result := ⟨resultTree summary, (hpart 0 "result").trans ?_, hread⟩
      symbols := ⟨Value.spelled (symbolMembers table), (hpart 1 "symbols").trans ?_, ?_, ?_⟩ }⟩
  · rw [scan_pretty (writable_assemblyTokens table summary), assemblyTokens_eq]
    rfl
  · simp [assemblyMembers]
  · simp [assemblyMembers, Value.named]
  · simp only [Value.spelled, symbolMembers, List.map_map]
    refine List.map_congr_left fun binding _ => ?_
    simp [textOf?_chars, Value.natural?_ofNat]
  · rw [Value.names_spelled, symbolMembers, List.map_map, List.Nodup, List.pairwise_map]
    exact table.labels.distinct.imp fun hne heq => hne (Option.some.inj heq)

/-! ### The listing of an assembly -/

/-- The row of a symbol in the listing. -/
def symbolRow (entry : String × Nat) : String :=
  Text.padRight 8 entry.1 ++ " " ++ Text.hex 6 entry.2

/-- The lines have what is in the summary for a heading and below it one row for each binding of the
table, in order. -/
structure Tabulates (table : SymbolTable) (summary : PassOne.Summary) (lines : List String)
    (entries : List (String × Nat)) : Prop where
  heading : lines =
    ["Program:  " ++ summary.programName.getD "(unnamed)",
      "Start:    " ++ Text.hex 6 summary.startAddress,
      "Length:   " ++ Text.hex 6 summary.programLength,
      "Entry:    " ++ Text.hex 6 summary.executionStart,
      "",
      "━━━ SYMTAB ━━━"] ++ entries.map symbolRow
  complete : entries.Perm table.labels.bindings
  /-- Put into a map, the bindings make up the table again. -/
  collected : LabelMap.ofList entries = table.labels
  ordered : entries.Pairwise SymbolTable.ListedBefore
  distinct : (entries.map symbolRow).Nodup
  /-- Printed one below the other, they are the lines of the text. -/
  printed : TextFile.lines (Report.text lines) = lines

theorem oneLine_of_solid {s : String} (h : ∀ c ∈ s.toList, Text.isBlank c = false) :
    Text.OneLine s := by
  intro c hc
  have hsolid := h c hc
  constructor
  · rintro rfl
    cases hsolid
  · rintro rfl
    cases hsolid

theorem toList_symbolRow (entry : String × Nat) :
    (symbolRow entry).toList = entry.1.toList ++
      (List.replicate (8 - entry.1.toList.length) ' ' ++ ' ' :: (Text.hex 6 entry.2).toList) := by
  have hblank : " ".toList = [' '] := rfl
  simp [symbolRow, Text.padRight, List.rightpad, hblank]

/-- The label is what stands in a row up to the first white space. -/
theorem label_of_symbolRow_eq {entry other : String × Nat}
    (hentry : ∀ c ∈ entry.1.toList, Text.isBlank c = false)
    (hother : ∀ c ∈ other.1.toList, Text.isBlank c = false)
    (h : symbolRow entry = symbolRow other) : entry.1 = other.1 := by
  have hstop : ∀ (count : Nat) (rest : List Char),
      ∀ c ∈ (List.replicate count ' ' ++ ' ' :: rest).head?, (!Text.isBlank c) = false := by
    rintro (_ | count) rest c ⟨⟩ <;> rfl
  have htexts := congrArg String.toList h
  rw [toList_symbolRow, toList_symbolRow] at htexts
  have hlabels := Text.append_eq_append_of_stop (p := fun c => !Text.isBlank c)
    (by simpa using hentry) (by simpa using hother) (hstop _ _) (hstop _ _) htexts
  exact String.toList_inj.1 hlabels.1

section Listing

variable {source : List String} (h : PassOne.run source = .ok (table, summary))
include h

theorem nodup_symbolRows : (table.entries.map symbolRow).Nodup := by
  have hsolid : ∀ entry ∈ table.entries, ∀ c ∈ entry.1.toList, Text.isBlank c = false :=
    fun entry hentry => PassOne.solid_of_mem_bindings h (table.entries_perm.mem_iff.1 hentry)
  refine List.pairwise_map.2 (table.distinct_entries.imp_of_mem ?_)
  intro left right hleft hright hne hrows
  exact hne (label_of_symbolRow_eq (hsolid left hleft) (hsolid right hright) hrows)

theorem oneLine_of_mem_assemblyLines {line : String} (hline : line ∈ assemblyLines table summary) :
    Text.OneLine line := by
  have htext : ∀ s ∈ ["Program:  ", "Start:    ", "Length:   ", "Entry:    ", "", "━━━ SYMTAB ━━━",
      "(unnamed)", " "], Text.OneLine s := by decide
  have hname : Text.OneLine (summary.programName.getD "(unnamed)") := by
    cases hname : summary.programName with
    | none => exact htext _ (by simp)
    | some name => exact oneLine_of_solid (PassOne.solid_of_programName h hname)
  rcases List.mem_append.1 hline with hline | hline
  · simp only [List.mem_cons, List.not_mem_nil, or_false] at hline
    rcases hline with rfl | rfl | rfl | rfl | rfl | rfl
    · exact (htext _ (by simp)).append hname
    · exact (htext _ (by simp)).append (Text.oneLine_hex _ _)
    · exact (htext _ (by simp)).append (Text.oneLine_hex _ _)
    · exact (htext _ (by simp)).append (Text.oneLine_hex _ _)
    · exact htext _ (by simp)
    · exact htext _ (by simp)
  · obtain ⟨entry, hentry, rfl⟩ := List.mem_map.1 hline
    have hsolid := PassOne.solid_of_mem_bindings h (table.entries_perm.mem_iff.1 hentry)
    have hlabel := (oneLine_of_solid hsolid).padRight 8
    exact (hlabel.append (htext _ (by simp))).append (Text.oneLine_hex _ _)

theorem tabulates_assemblyLines :
    Tabulates table summary (assemblyLines table summary) table.entries where
  heading := rfl
  complete := table.entries_perm
  collected := LabelMap.ofList_of_perm table.entries_perm
  ordered := table.pairwise_entries
  distinct := nodup_symbolRows h
  printed := TextFile.lines_join fun _ => oneLine_of_mem_assemblyLines h

end Listing

/-! ### Both reports -/

theorem execute_passOne_of_error {text : String} {error : PassOne.Error}
    (h : PassOne.run (TextFile.lines text) = .error error) (path : String) (json : Bool) :
    (Command.passOne path json).execute (.ok text) =
      ⟨1, [], ["❌ Assembly error: " ++ error.message]⟩ := by
  simp only [Command.execute, assemble, h, Report.failure, ← String.append_assoc]
  rfl

theorem execute_passOne_of_ok {text : String}
    (h : PassOne.run (TextFile.lines text) = .ok (table, summary)) (path : String) :
    (Command.passOne path true).execute (.ok text) =
        ⟨0, [pretty (assemblyTokens table summary)], []⟩ ∧
      (Command.passOne path false).execute (.ok text) = ⟨0, assemblyLines table summary, []⟩ := by
  simp only [Command.execute, assemble, h]
  exact ⟨rfl, rfl⟩

/-- A source that cannot be assembled is reported the same way in both forms. For any other source
the JSON and the listing tell the same: the summary, and the bindings of the symbol table. -/
theorem assembly_reports_agree (path text : String) :
    let report := fun json => (Command.passOne path json).execute (.ok text)
    (∀ json, (report json).exitCode = 1 ↔
      ∃ error, PassOne.run (TextFile.lines text) = .error error) ∧
    (∀ error, PassOne.run (TextFile.lines text) = .error error → ∀ json,
      report json = ⟨1, [], ["❌ Assembly error: " ++ error.message]⟩) ∧
    ∀ table summary, PassOne.run (TextFile.lines text) = .ok (table, summary) →
      (∃ printed members, report true = ⟨0, [printed], []⟩ ∧
        Encodes table summary printed members) ∧
      ∃ lines entries, report false = ⟨0, lines, []⟩ ∧
        Tabulates table summary lines entries := by
  intro report
  cases hrun : PassOne.run (TextFile.lines text) with
  | error error =>
    have hreport := execute_passOne_of_error hrun path
    refine ⟨fun json => ⟨fun _ => ⟨error, rfl⟩, fun _ => ?_⟩, ?_, ?_⟩
    · simp only [report, hreport json]
    · rintro _ ⟨⟩
      exact hreport
    · rintro table summary ⟨⟩
  | ok results =>
    obtain ⟨table, summary⟩ := results
    obtain ⟨hjson, hplain⟩ := execute_passOne_of_ok hrun path
    obtain ⟨members, hencodes⟩ := exists_encodes (PassOne.wide_of_run hrun) table
    refine ⟨fun json => ⟨?_, ?_⟩, ?_, ?_⟩
    · cases json <;> simp [report, hjson, hplain]
    · rintro ⟨error, ⟨⟩⟩
    · rintro error ⟨⟩
    · rintro _ _ ⟨⟩
      exact ⟨⟨_, members, hjson, hencodes⟩, _, _, hplain, tabulates_assemblyLines hrun⟩

/-- Labels that grow in upper case or need escapes, in another order than their addresses. -/
def umlauts : String := "Straße START 1000\nb RSUB\n\"é\\ WORD 1\n END b\n"

def umlautTable : SymbolTable :=
  ⟨⟨[("\"É\\", 0x1003), ("B", 0x1000), ("STRASSE", 0x1000)], by decide⟩⟩

theorem run_umlauts : PassOne.run (TextFile.lines umlauts) =
    .ok (umlautTable, ⟨some "STRASSE", 0x1000, 6, 0x1000⟩) := by
  decide +kernel

theorem run_unknown : PassOne.run (TextFile.lines " JUMP") =
    .error ⟨1, .unknownMnemonic "JUMP"⟩ := by
  decide +kernel

theorem umlaut_reports_agree :
    (∃ printed members,
      (Command.passOne "u.asm" true).execute (.ok umlauts) = ⟨0, [printed], []⟩ ∧
        Encodes umlautTable ⟨some "STRASSE", 0x1000, 6, 0x1000⟩ printed members) ∧
    (∃ lines entries, (Command.passOne "u.asm" false).execute (.ok umlauts) = ⟨0, lines, []⟩ ∧
      Tabulates umlautTable ⟨some "STRASSE", 0x1000, 6, 0x1000⟩ lines entries) ∧
    ∀ json, (Command.passOne "j.asm" json).execute (.ok " JUMP") =
      ⟨1, [], ["❌ Assembly error: unknown mnemonic on line 1: JUMP"]⟩ := by
  obtain ⟨-, -, hassembled⟩ := assembly_reports_agree "u.asm" umlauts
  obtain ⟨hjson, hplain⟩ := hassembled _ _ run_umlauts
  obtain ⟨-, hfailed, -⟩ := assembly_reports_agree "j.asm" " JUMP"
  exact ⟨hjson, hplain, hfailed _ run_unknown⟩

end CommandLine

end SicMachine
