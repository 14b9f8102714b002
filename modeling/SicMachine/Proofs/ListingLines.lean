import SicMachine.Disassembly
import SicMachine.TextFile

/-!
Listings taken apart into lines. Nothing in a row ends a line, so the lines of
a listing are its header and one row for each word. As long as addresses stay
within 32 bits, the row of a word is found three lines behind its number.
-/
namespace SicMachine

namespace Text

/-- No character of the text ends a line. -/
def OneLine (s : String) : Prop := ∀ c ∈ s.toList, c ≠ '\n' ∧ c ≠ '\r'

instance (s : String) : Decidable (OneLine s) :=
  List.decidableBAll (fun c => c ≠ '\n' ∧ c ≠ '\r') s.toList

theorem OneLine.append {s t : String} (hs : OneLine s) (ht : OneLine t) : OneLine (s ++ t) := by
  intro c hc
  rw [String.toList_append] at hc
  exact (List.mem_append.1 hc).elim (hs c) (ht c)

theorem oneLine_digit :
    ∀ d < 16, (Nat.digitChar d).toUpper ≠ '\n' ∧ (Nat.digitChar d).toUpper ≠ '\r' := by
  decide

theorem oneLine_hex (width n : Nat) : OneLine (hex width n) :=
  forall_mem_hex oneLine_digit width n

theorem oneLine_marked (width n : Nat) : OneLine (marked width n) :=
  OneLine.append (by decide) (oneLine_hex width n)

theorem OneLine.padRight {s : String} (h : OneLine s) (width : Nat) :
    OneLine (Text.padRight width s) := by
  intro c hc
  rw [Text.padRight, String.toList_ofList, List.rightpad] at hc
  rcases List.mem_append.1 hc with hc | hc
  · exact h c hc
  · rw [List.eq_of_mem_replicate hc]
    decide

end Text

namespace TextFile

/-- The characters up to the next line feed make up a line. -/
theorem linesFrom_line (lines : List String) (done chars rest : List Char)
    (h : ∀ c ∈ chars, c ≠ '\n') :
    linesFrom lines done (chars ++ '\n' :: rest) =
      linesFrom (endLine (chars.reverse ++ done) :: lines) [] rest := by
  induction chars generalizing done with
  | nil => simp [linesFrom]
  | cons c chars ih =>
    have hc : c ≠ '\n' := h c List.mem_cons_self
    have hrest := ih (c :: done) fun d hd => h d (List.mem_cons_of_mem c hd)
    rw [List.cons_append, linesFrom, hrest]
    · simp
    · exact hc

theorem endLine_reverse {s : String} (h : Text.OneLine s) : endLine s.toList.reverse = s := by
  have hlast : ∀ rest, s.toList.reverse ≠ '\r' :: rest := by
    intro rest heq
    have hmem : '\r' ∈ s.toList := by
      rw [← List.mem_reverse, heq]
      exact List.mem_cons_self
    exact (h _ hmem).2 rfl
  rw [endLine, List.reverse_reverse, String.ofList_toList]
  exact hlast

/-- Lines that are written one below the other are read back. -/
theorem lines_join {all : List String} (h : ∀ line ∈ all, Text.OneLine line) :
    lines (String.join (all.map (· ++ "\n"))) = all := by
  -- The lines found so far are kept in reverse, and the induction leaves them open.
  have hfrom : ∀ found : List String,
      linesFrom found [] (String.join (all.map (· ++ "\n"))).toList = found.reverse ++ all := by
    induction all with
    | nil =>
      intro found
      simp [linesFrom]
    | cons line rest ih =>
      intro found
      have hline := h line List.mem_cons_self
      have hrest := ih fun other hother => h other (List.mem_cons_of_mem line hother)
      have hbreak : "\n".toList = ['\n'] := rfl
      rw [List.map_cons, String.join_cons, String.toList_append, String.toList_append, hbreak,
        List.append_assoc, List.singleton_append,
        linesFrom_line _ _ _ _ fun c hc => (hline c hc).1, List.append_nil,
        endLine_reverse hline, hrest]
      simp
  exact hfrom []

end TextFile

namespace Disassembly

open Text

theorem oneLine_name (mnemonic : Mnemonic) : OneLine mnemonic.name := by
  cases mnemonic <;> decide

theorem oneLine_ofInstruction (i : Instruction) : OneLine (ofInstruction i) := by
  unfold ofInstruction
  split
  · exact oneLine_name .rsub
  · refine (((oneLine_name _).append (by decide)).append (oneLine_marked _ _)).append ?_
    split <;> decide
  · exact OneLine.append (by decide) (oneLine_marked _ _)

theorem oneLine_ofWord (word : Nat) : OneLine (ofWord word) := by
  unfold ofWord
  split
  · exact oneLine_ofInstruction _
  · exact OneLine.append (by decide) (oneLine_marked _ _)

theorem oneLine_row (address word : Nat) : OneLine (row address word) := by
  have hcolon : OneLine ": " := by decide
  have hsemicolon : OneLine " ; " := by decide
  exact ((((oneLine_hex 6 address).append hcolon).append ((oneLine_ofWord word).padRight 20)).append
    hsemicolon).append (oneLine_hex 6 word)

theorem oneLine_of_mem_rows {address : Nat} {words : List Nat} {line : String}
    (h : line ∈ rows address words) : OneLine line := by
  induction words generalizing address with
  | nil => cases h
  | cons word rest ih =>
    unfold rows at h
    split at h
    · rcases List.mem_cons.1 h with rfl | h
      · exact oneLine_row address word
      · exact ih h
    · rw [List.mem_singleton.1 h]
      decide

/-- The lines of a listing are the three lines of the header and the rows. -/
theorem lines_listing (start : Nat) (words : List Nat) :
    TextFile.lines (listing start words) = header ++ rows start words := by
  apply TextFile.lines_join
  intro line hline
  rcases List.mem_append.1 hline with hline | hline
  · have hheader : ∀ line ∈ header, OneLine line := by decide
    exact hheader line hline
  · exact oneLine_of_mem_rows hline

/-- The rows of words whose addresses stay within 32 bits. -/
theorem rows_getElem? {start : Nat} {words : List Nat}
    (h : start + words.length * wordBytes ≤ wideLimit) (i : Nat) :
    (rows start words)[i]? = words[i]?.map (row (start + i * wordBytes)) := by
  induction words generalizing start i with
  | nil => rfl
  | cons word rest ih =>
    simp only [List.length_cons, wordBytes] at h
    have hstart : start < wideLimit := by omega
    rw [rows, if_pos hstart]
    cases i with
    | zero => simp
    | succ i =>
      have hplace : start + wordBytes + i * wordBytes = start + (i + 1) * wordBytes := by
        simp only [wordBytes]
        omega
      rw [List.getElem?_cons_succ, ih (by simp only [wordBytes]; omega), hplace,
        List.getElem?_cons_succ]

/-- The row of a word stands three lines behind its number. -/
theorem lines_listing_getElem? {start : Nat} {words : List Nat}
    (h : start + words.length * wordBytes ≤ wideLimit) (i : Nat) :
    (TextFile.lines (listing start words))[3 + i]? =
      words[i]?.map (row (start + i * wordBytes)) := by
  have hheader : header.length = 3 := rfl
  rw [lines_listing, List.getElem?_append_right (by omega), hheader, Nat.add_sub_cancel_left,
    rows_getElem? h]

end Disassembly

end SicMachine
