import SicMachine.Proofs.ListingLines
import SicMachine.Proofs.WordTexts

/-!
Listings read back. A row begins with the digits of its address and ends with
those of its word, and no other line of a listing begins with a digit, so the
addresses and words of all rows are found in the text. Rows are written as long
as the addresses have 32 bits; the first word behind them ends the listing with
a note, and a listing without the note has all words.
-/
namespace SicMachine.Disassembly

open Text

/-- The address and the word of a row: the number that a line begins with, and the one that it ends
with. -/
def listed? (line : String) : Option (Nat × Nat) :=
  let leading := line.toList.takeWhile (· ∈ digitRow)
  let trailing := (line.toList.reverse.takeWhile (· ∈ digitRow)).reverse
  if leading = [] then none else some (number 16 leading, number 16 trailing)

/-- All addresses and words that a text lists. -/
def recovered (text : String) : List (Nat × Nat) := (TextFile.lines text).filterMap listed?

/-- The last line of a listing that ends early. -/
def truncation : String := "; address overflow, listing truncated"

/-- A text lists words from an address on. -/
structure Lists (start : Nat) (words : List Nat) (entries : List (Nat × Nat)) (text : String) :
    Prop where
  /-- One entry for each word whose address has 32 bits. -/
  entry : ∀ i address word, entries[i]? = some (address, word) ↔
    words[i]? = some word ∧ address = start + 3 * i ∧ address < 2 ^ 32
  lines : TextFile.lines text =
    header ++ (entries.map fun entry =>
      hex 6 entry.1 ++ ": " ++ padRight 20 (ofWord entry.2) ++ " ; " ++ hex 6 entry.2) ++
    if ∃ i < words.length, 2 ^ 32 ≤ start + 3 * i then [truncation] else []
  /-- Each line is ended by a line feed. -/
  ended : text = String.join ((TextFile.lines text).map (· ++ "\n"))
  recovered : recovered text = entries

variable {start address word : Nat} {words others : List Nat}

/-! ### The words that are listed -/

/-- The words whose addresses have 32 bits, behind their addresses. -/
def located : Nat → List Nat → List (Nat × Nat)
  | _, [] => []
  | address, word :: rest =>
    if address < wideLimit then (address, word) :: located (address + wordBytes) rest else []

theorem located_getElem? (start : Nat) (words : List Nat) (i : Nat) :
    (located start words)[i]? = some (address, word) ↔
      words[i]? = some word ∧ address = start + 3 * i ∧ address < 2 ^ 32 := by
  induction words generalizing start i with
  | nil => simp [located]
  | cons first rest ih =>
    by_cases hstart : start < wideLimit
    · rw [located, if_pos hstart]
      cases i with
      | zero =>
        simp only [List.getElem?_cons_zero, Option.some.injEq, Prod.mk.injEq]
        constructor
        · rintro ⟨rfl, rfl⟩
          exact ⟨rfl, rfl, hstart⟩
        · rintro ⟨rfl, rfl, -⟩
          exact ⟨rfl, rfl⟩
      | succ i =>
        have hplace : start + wordBytes + 3 * i = start + 3 * (i + 1) := by
          rw [wordBytes]
          omega
        rw [List.getElem?_cons_succ, List.getElem?_cons_succ, ih, hplace]
    · rw [located, if_neg hstart, List.getElem?_nil]
      rw [wideLimit] at hstart
      constructor
      · rintro ⟨⟩
      · rintro ⟨-, rfl, hless⟩
        omega

/-- The rows of a listing, and the note when an address is too wide. -/
theorem rows_eq (start : Nat) (words : List Nat) :
    rows start words = ((located start words).map fun entry => row entry.1 entry.2) ++
      if ∃ i < words.length, 2 ^ 32 ≤ start + 3 * i then [truncation] else [] := by
  induction words generalizing start with
  | nil => simp [rows, located]
  | cons word rest ih =>
    by_cases hstart : start < wideLimit
    · have hnote : (∃ i < (word :: rest).length, 2 ^ 32 ≤ start + 3 * i) ↔
          ∃ i < rest.length, 2 ^ 32 ≤ start + wordBytes + 3 * i := by
        rw [wideLimit] at hstart
        rw [wordBytes, List.length_cons]
        constructor
        · rintro ⟨i, hi, hwide⟩
          exact ⟨i - 1, by omega, by omega⟩
        · rintro ⟨i, hi, hwide⟩
          exact ⟨i + 1, by omega, by omega⟩
      rw [rows, if_pos hstart, located, if_pos hstart, ih, List.map_cons, List.cons_append]
      simp only [hnote]
    · have hnote : ∃ i < (word :: rest).length, 2 ^ 32 ≤ start + 3 * i :=
        ⟨0, by simp, by rw [wideLimit] at hstart; omega⟩
      rw [rows, if_neg hstart, located, if_neg hstart, if_pos hnote]
      rfl

/-! ### Reading a row -/

theorem toList_row (address word : Nat) :
    (row address word).toList = (hex 6 address).toList ++ ':' ::
      (' ' :: (padRight 20 (ofWord word)).toList ++ [' ', ';', ' '] ++ (hex 6 word).toList) := by
  have hcolon : ": ".toList = [':', ' '] := rfl
  have hsemicolon : " ; ".toList = [' ', ';', ' '] := rfl
  simp [row, hcolon, hsemicolon]

theorem listed?_row (address word : Nat) : listed? (row address word) = some (address, word) := by
  have hdigits : ∀ n, ∀ c ∈ (hex 6 n).toList, decide (c ∈ digitRow) = true :=
    fun n c hc => decide_eq_true (mem_digitRow_of_hex 6 n c hc)
  have hleading : (row address word).toList.takeWhile (· ∈ digitRow) = (hex 6 address).toList := by
    rw [toList_row]
    refine (takeWhile_append_of_stop (hdigits address) ?_).1
    rintro c ⟨⟩
    decide
  have htrailing : (row address word).toList.reverse.takeWhile (· ∈ digitRow) =
      (hex 6 word).toList.reverse := by
    have hback : ∀ c ∈ (hex 6 word).toList.reverse, decide (c ∈ digitRow) = true :=
      fun c hc => hdigits word c (List.mem_reverse.1 hc)
    rw [toList_row]
    simp only [List.reverse_append, List.reverse_cons, List.append_assoc]
    refine (takeWhile_append_of_stop hback ?_).1
    rintro c ⟨⟩
    decide
  rw [listed?, hleading, htrailing, if_neg (hex_ne_nil 6 address), List.reverse_reverse, number_hex,
    number_hex]

theorem listed?_truncation : listed? truncation = none := by decide

theorem filterMap_header : header.filterMap listed? = [] := by decide

/-- The rows of a listing give back what they have been written for. -/
theorem recovered_listing (start : Nat) (words : List Nat) :
    recovered (listing start words) = located start words := by
  have hrows : ((located start words).map fun entry => row entry.1 entry.2).filterMap listed? =
      located start words := by
    simp [List.filterMap_map, listed?_row]
  rw [recovered, lines_listing, rows_eq, List.filterMap_append, List.filterMap_append,
    filterMap_header, hrows]
  split <;> simp [listed?_truncation]

theorem lists_listing (start : Nat) (words : List Nat) :
    Lists start words (located start words) (listing start words) where
  entry i address word := located_getElem? start words i
  lines := by
    rw [lines_listing, rows_eq, List.append_assoc]
    rfl
  ended := by
    rw [lines_listing]
    rfl
  recovered := recovered_listing start words

/-- Entries of a listing that is not truncated have all words. -/
theorem Lists.words_eq {entries : List (Nat × Nat)} {text other : String}
    (h : Lists start words entries text) (hothers : Lists start others entries other)
    (hfits : ∀ i < words.length, start + 3 * i < 2 ^ 32)
    (hothersFit : ∀ i < others.length, start + 3 * i < 2 ^ 32) : words = others := by
  refine List.ext_getElem? fun i => Option.ext fun word => ?_
  constructor
  · intro hword
    have hless := hfits i (List.getElem?_eq_some_iff.1 hword).1
    exact ((hothers.entry i _ word).1 ((h.entry i _ word).2 ⟨hword, rfl, hless⟩)).1
  · intro hword
    have hless := hothersFit i (List.getElem?_eq_some_iff.1 hword).1
    exact ((h.entry i _ word).1 ((hothers.entry i _ word).2 ⟨hword, rfl, hless⟩)).1

/-- A listing has one row for each word up to the last address of 32 bits and ends with the note if
there are further words. The addresses and words of all rows are recovered from the text, so
without the note a listing tells which words have been listed. -/
theorem listing_recovered (start : Nat) (words : List Nat) :
    (∃ entries, Lists start words entries (listing start words)) ∧
    ∀ others, (∀ i < words.length, start + 3 * i < 2 ^ 32) →
      (∀ i < others.length, start + 3 * i < 2 ^ 32) →
        (listing start words = listing start others ↔ words = others) := by
  refine ⟨⟨_, lists_listing start words⟩, fun others hfits hothersFit => ?_⟩
  constructor
  · intro h
    have hentries : located start words = located start others := by
      rw [← recovered_listing, h, recovered_listing]
    have hothers := lists_listing start others
    rw [← hentries] at hothers
    exact (lists_listing start words).words_eq hothers hfits hothersFit
  · rintro rfl
    rfl

/-- Three words of which the last has no address of 32 bits, and the first two without it. -/
theorem last_word_not_listed :
    Lists 0xFFFFFFFC [0x00100C, 0x1000000, 0x0C1012]
        [(0xFFFFFFFC, 0x00100C), (0xFFFFFFFF, 0x1000000)]
        (listing 0xFFFFFFFC [0x00100C, 0x1000000, 0x0C1012]) ∧
      (∀ i < [0x00100C, 0x1000000].length, 0xFFFFFFFC + 3 * i < 2 ^ 32) ∧
      listing 0xFFFFFFFC [0x00100C, 0x1000000] ≠ listing 0xFFFFFFFC [0x00100C, 0] := by
  obtain ⟨⟨entries, hlists⟩, -⟩ := listing_recovered 0xFFFFFFFC [0x00100C, 0x1000000, 0x0C1012]
  have hentries : entries = [(0xFFFFFFFC, 0x00100C), (0xFFFFFFFF, 0x1000000)] :=
    hlists.recovered.symm.trans (recovered_listing _ _)
  have hfits : ∀ i < [0x00100C, 0x1000000].length, 0xFFFFFFFC + 3 * i < 2 ^ 32 := by decide
  refine ⟨hentries ▸ hlists, hfits, ?_⟩
  rw [Ne, (listing_recovered 0xFFFFFFFC [0x00100C, 0x1000000]).2 [0x00100C, 0] hfits hfits]
  decide

end SicMachine.Disassembly
