import SicMachine.Proofs.PassOneAgreement

/-!
The line that an error is reported for. The lines before it are read without a
fault and without END, so what is known at that line depends on nothing else,
and the error depends on that and on the line alone. The lines behind it are
never looked at, not even when END names a label that does not exist.
-/
namespace SicMachine.PassOne

/-- The progress behind lines that are read without a fault and have no END among them. -/
inductive Reads : Progress → List String → Progress → Prop
  | done {p : Progress} : Reads p [] p
  | skip {p q : Progress} {text : String} {rest : List String}
      (hparse : Statement.parse text = none) (hrest : Reads p rest q) : Reads p (text :: rest) q
  | next {p q r : Progress} {text : String} {s : Statement} {rest : List String}
      (hparse : Statement.parse text = some s) (hplace : place p s = .ok (q, false))
      (hrest : Reads q rest r) : Reads p (text :: rest) r

/-- The statement cannot come next, or it is an END that names no label. -/
inductive Faults (p : Progress) (s : Statement) : Cause → Prop
  | statement {cause : Cause} (hplace : place p s = .error cause) : Faults p s cause
  | finish {q : Progress} {label : String} {error : SymbolTable.Error}
      (hplace : place p s = .ok (q, true)) (hlabel : s.operand = some label)
      (hget : q.symbols.get label = .error error) : Faults p s (.symbol error)

/-- What comes of a statement that ends the reading: its fault, or the program up to its END. -/
def conclude (p : Progress) (s : Statement) (line : Nat) : Except Error (SymbolTable × Summary) :=
  match place p s with
  | .error cause => .error ⟨line, cause⟩
  | .ok (q, _) =>
    (executionStart q (s.operand.map fun label => (line, label))).map fun address =>
      (q.symbols, q.summary address)

section Scan

variable {p q : Progress} {s : Statement} {line : Nat} {text : String} {before rest : List String}

/-- Lines are read in order, until END comes or a statement that is at fault. -/
theorem reads_or_stops (p : Progress) (lines : List String) :
    (∃ q, Reads p lines q) ∨
      ∃ before text s after q, lines = before ++ text :: after ∧ Reads p before q ∧
        Statement.parse text = some s ∧ ∀ next, place q s ≠ .ok (next, false) := by
  induction lines generalizing p with
  | nil => exact Or.inl ⟨p, .done⟩
  | cons text rest ih =>
    cases hparse : Statement.parse text with
    | none =>
      rcases ih p with ⟨q, hread⟩ | ⟨before, stop, s, after, q, rfl, hread, hstop⟩
      · exact Or.inl ⟨q, .skip hparse hread⟩
      · exact Or.inr ⟨text :: before, stop, s, after, q, rfl, .skip hparse hread, hstop⟩
    | some s =>
      by_cases hnext : ∃ next, place p s = .ok (next, false)
      · obtain ⟨next, hplace⟩ := hnext
        rcases ih next with ⟨q, hread⟩ | ⟨before, stop, t, after, q, rfl, hread, hstop⟩
        · exact Or.inl ⟨q, .next hparse hplace hread⟩
        · exact Or.inr ⟨text :: before, stop, t, after, q, rfl, .next hparse hplace hread, hstop⟩
      · exact Or.inr ⟨[], text, s, rest, p, rfl, .done, hparse, fun next h => hnext ⟨next, h⟩⟩

theorem scan_of_reads (h : Reads p before q) (line : Nat) (rest : List String) :
    scan p line (before ++ rest) = scan q (line + before.length) rest := by
  induction h generalizing line with
  | done => rfl
  | skip hparse hread ih =>
    rw [List.cons_append, scan, hparse]
    simp only
    rw [ih, List.length_cons, Nat.add_assoc, Nat.add_comm 1]
  | next hparse hplace hread ih =>
    rw [List.cons_append, scan, hparse]
    simp only [hplace]
    rw [ih, List.length_cons, Nat.add_assoc, Nat.add_comm 1]

theorem scan_of_place_error {cause : Cause} (hparse : Statement.parse text = some s)
    (hplace : place p s = .error cause) : scan p line (text :: rest) = .error ⟨line, cause⟩ := by
  simp only [scan, hparse, hplace]

theorem scan_of_place_finish (hparse : Statement.parse text = some s)
    (hplace : place p s = .ok (q, true)) :
    scan p line (text :: rest) = .ok (q, s.operand.map fun label => (line, label)) := by
  simp only [scan, hparse, hplace]

end Scan

section Run

variable {p q : Progress} {s : Statement} {text : String} {before after : List String}

theorem run_of_scan_error {lines : List String} {error : Error}
    (h : scan .initial 1 lines = .error error) : run lines = .error error := by
  rw [run, h]
  rfl

theorem run_of_scan_ok {lines : List String} {finish : Option (Nat × String)}
    (h : scan .initial 1 lines = .ok (p, finish)) :
    run lines = (executionStart p finish).map fun address => (p.symbols, p.summary address) := by
  rw [run, h]
  rfl

/-- Lines without a fault and without END can be assembled alone. -/
theorem run_of_reads (h : Reads .initial before p) :
    run before = .ok (p.symbols, p.summary p.startAddress) := by
  have hscan := scan_of_reads h 1 []
  rw [List.append_nil] at hscan
  rw [run_of_scan_ok hscan]
  rfl

/-- The line behind some that have been read is at fault. -/
theorem run_of_faults {cause : Cause} (hread : Reads .initial before p)
    (hparse : Statement.parse text = some s) (h : Faults p s cause) :
    run (before ++ text :: after) = .error ⟨before.length + 1, cause⟩ := by
  have hscan := scan_of_reads hread 1 (text :: after)
  rw [Nat.add_comm] at hscan
  cases h with
  | statement hplace =>
    rw [scan_of_place_error hparse hplace] at hscan
    exact run_of_scan_error hscan
  | finish hplace hlabel hget =>
    rw [scan_of_place_finish hparse hplace, hlabel] at hscan
    rw [run_of_scan_ok hscan, Option.map_some, executionStart, hget]
    rfl

/-- A statement that ends the reading is at fault, or it is an END with which the source can be
assembled. -/
theorem faults_or_run_ok (after : List String) (hread : Reads .initial before p)
    (hparse : Statement.parse text = some s) (hstop : ∀ next, place p s ≠ .ok (next, false)) :
    (∃ cause, Faults p s cause) ∨ ∃ result, run (before ++ text :: after) = .ok result := by
  cases hplace : place p s with
  | error cause => exact Or.inl ⟨cause, .statement hplace⟩
  | ok result =>
    obtain ⟨q, finished⟩ := result
    cases finished with
    | false => exact absurd hplace (hstop q)
    | true =>
      have hscan := scan_of_reads hread 1 (text :: after)
      rw [scan_of_place_finish hparse hplace] at hscan
      rw [run_of_scan_ok hscan]
      cases hlabel : s.operand with
      | none => exact Or.inr ⟨_, rfl⟩
      | some label =>
        cases hget : q.symbols.get label with
        | error error => exact Or.inl ⟨_, .finish hplace hlabel hget⟩
        | ok address =>
          rw [Option.map_some, executionStart, hget]
          exact Or.inr ⟨_, rfl⟩

/-- A statement that ends the reading decides the run, whatever follows it. -/
theorem run_of_stops (after : List String) (hread : Reads .initial before p)
    (hparse : Statement.parse text = some s) (hstop : ∀ next, place p s ≠ .ok (next, false)) :
    run (before ++ text :: after) = conclude p s (before.length + 1) := by
  have hscan := scan_of_reads hread 1 (text :: after)
  rw [Nat.add_comm] at hscan
  cases hplace : place p s with
  | error cause =>
    rw [scan_of_place_error hparse hplace] at hscan
    rw [run_of_scan_error hscan, conclude, hplace]
  | ok result =>
    obtain ⟨q, finished⟩ := result
    cases finished with
    | false => exact absurd hplace (hstop q)
    | true =>
      rw [scan_of_place_finish hparse hplace] at hscan
      rw [run_of_scan_ok hscan, conclude, hplace]

theorem exists_faults_of_run {lines : List String} {error : Error} (h : run lines = .error error) :
    ∃ before text s after p, lines = before ++ text :: after ∧ Reads .initial before p ∧
      Statement.parse text = some s ∧ Faults p s error.cause ∧ error.line = before.length + 1 := by
  rcases reads_or_stops .initial lines with
    ⟨p, hread⟩ | ⟨before, text, s, after, p, rfl, hread, hparse, hstop⟩
  · rw [run_of_reads hread] at h
    cases h
  · rcases faults_or_run_ok after hread hparse hstop with ⟨cause, hfaults⟩ | ⟨result, hok⟩
    · rw [run_of_faults hread hparse hfaults] at h
      cases h
      exact ⟨before, text, s, after, p, rfl, hread, hparse, hfaults, rfl⟩
    · rw [hok] at h
      cases h

end Run

/-- An error names a line that holds a statement. The lines before it can be assembled alone, and
every source that begins with the lines up to it fails in the same way. -/
theorem run_reports_first_fault (lines : List String) (error : Error)
    (h : run lines = .error error) :
    1 ≤ error.line ∧ error.line ≤ lines.length ∧
      (∃ text s, lines[error.line - 1]? = some text ∧ Statement.parse text = some s) ∧
      (∃ table summary, run (lines.take (error.line - 1)) = .ok (table, summary)) ∧
      ∀ other : List String, other.take error.line = lines.take error.line →
        run other = .error error := by
  obtain ⟨line, cause⟩ := error
  obtain ⟨before, text, s, after, p, rfl, hread, hparse, hfaults, rfl⟩ := exists_faults_of_run h
  refine ⟨Nat.le_add_left 1 before.length, ?_, ⟨text, s, ?_, hparse⟩,
    ⟨p.symbols, p.summary p.startAddress, ?_⟩, ?_⟩
  · show before.length + 1 ≤ _
    rw [List.length_append, List.length_cons]
    omega
  · rw [Nat.add_sub_cancel, List.getElem?_append_right (Nat.le_refl _), Nat.sub_self]
    rfl
  · rw [Nat.add_sub_cancel, List.take_left]
    exact run_of_reads hread
  · intro other hother
    rw [List.take_length_add_append] at hother
    rw [← List.take_append_drop (before.length + 1) other, hother, List.append_assoc]
    exact run_of_faults hread hparse hfaults

/-- END names a label that is defined nowhere, and text follows that is never read. -/
def endingNowhere : List String := ["first LDA ALPHA", ". comment", "   END alpha", "alpha WORD"]

theorem run_endingNowhere :
    run endingNowhere = .error ⟨3, .symbol (.undefined "alpha")⟩ := by
  rfl

theorem endingNowhere_reports_first_fault :
    run endingNowhere = .error ⟨3, .symbol (.undefined "alpha")⟩ ∧
      (∃ table summary, run ["first LDA ALPHA", ". comment"] = .ok (table, summary)) ∧
      run ["first LDA ALPHA", ". comment", "   END alpha", "first LDA ALPHA"] =
        .error ⟨3, .symbol (.undefined "alpha")⟩ := by
  obtain ⟨-, -, -, hbefore, hother⟩ := run_reports_first_fault _ _ run_endingNowhere
  exact ⟨run_endingNowhere, hbefore, hother _ rfl⟩

end SicMachine.PassOne
