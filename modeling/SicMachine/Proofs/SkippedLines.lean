import Mathlib.Algebra.BigOperators.Group.Finset.Basic
import SicMachine.Proofs.FieldLayout
import SicMachine.Proofs.FirstFaults

/-!
Lines that are passed over. Blank lines and comments may stand anywhere, before
START and behind END as well: they change nothing but the number of the line at
fault, which counts them. The lines behind an END are never read, whether or
not the reading comes as far as that END. Both hold because a run is decided by
the first statement that ends the reading and by the statements before it.
-/
namespace SicMachine.PassOne

/-- A blank line, or one that begins with a period behind its white space. -/
def Idle (text : String) : Prop :=
  Statement.Blank text ∨ ∃ gap rest, Statement.Blank gap ∧ text = gap ++ "." ++ rest

/-- A source with further lines: `gaps i` stand in front of the line with that index, and the last
ones behind all lines. -/
def interleave (gaps : Nat → List String) : List String → List String
  | [] => gaps 0
  | text :: rest => gaps 0 ++ text :: interleave (fun i => gaps (i + 1)) rest

/-- The number of further lines in front of the first lines, as many as given. -/
def inserted (gaps : Nat → List String) (count : Nat) : Nat :=
  ∑ i ∈ Finset.range count, (gaps i).length

section Gaps

variable {gaps : Nat → List String} {lines before after : List String} {text : String}

theorem inserted_succ (gaps : Nat → List String) (count : Nat) :
    inserted gaps (count + 1) = (gaps 0).length + inserted (fun i => gaps (i + 1)) count := by
  rw [inserted, Finset.sum_range_succ', Nat.add_comm]
  rfl

theorem interleave_append (gaps : Nat → List String) (before : List String) (text : String)
    (after : List String) :
    interleave gaps (before ++ text :: after) =
      interleave gaps before ++
        text :: interleave (fun i => gaps (i + (before.length + 1))) after := by
  induction before generalizing gaps with
  | nil => rfl
  | cons first rest ih =>
    rw [List.cons_append, interleave, interleave, ih, List.append_assoc]
    rfl

theorem length_interleave (gaps : Nat → List String) (lines : List String) :
    (interleave gaps lines).length = lines.length + inserted gaps (lines.length + 1) := by
  induction lines generalizing gaps with
  | nil => simp [interleave, inserted]
  | cons text rest ih =>
    rw [interleave, List.length_append, List.length_cons, ih, List.length_cons,
      inserted_succ gaps (rest.length + 1)]
    omega

end Gaps

section Reading

variable {p q : Progress} {s : Statement} {gaps : Nat → List String}
  {gap lines before : List String} {text : String} {line : Nat}

theorem parse_of_idle (h : Idle text) : Statement.parse text = none :=
  Statement.parse_eq_none_iff.2 h

theorem Reads.idle_append (hgap : ∀ text ∈ gap, Idle text) (h : Reads p lines q) :
    Reads p (gap ++ lines) q := by
  induction gap with
  | nil => exact h
  | cons text rest ih =>
    obtain ⟨htext, hrest⟩ := List.forall_mem_cons.1 hgap
    exact .skip (parse_of_idle htext) (ih hrest)

/-- Idle lines between lines that are read are read as well. -/
theorem Reads.interleave (hgaps : ∀ i, ∀ text ∈ gaps i, Idle text) (h : Reads p lines q) :
    Reads p (PassOne.interleave gaps lines) q := by
  induction h generalizing gaps with
  | @done p =>
    have hlast : Reads p (gaps 0 ++ []) p := .idle_append (hgaps 0) .done
    rwa [List.append_nil] at hlast
  | skip hparse hrest ih =>
    exact .idle_append (hgaps 0) (.skip hparse (ih fun i => hgaps (i + 1)))
  | next hparse hplace hrest ih =>
    exact .idle_append (hgaps 0) (.next hparse hplace (ih fun i => hgaps (i + 1)))

/-- END is never followed by a further statement. -/
theorem place_of_finish (h : s.directive? = some .finish) (next : Progress) :
    place p s ≠ .ok (next, false) := by
  intro hplace
  unfold place at hplace
  cases hmnemonic : s.mnemonic with
  | none =>
    rw [hmnemonic] at hplace
    cases hplace
  | some mnemonic =>
    rw [Statement.directive?, hmnemonic, Option.bind_some] at h
    simp only [hmnemonic, h, if_true, ok_of_bind] at hplace
    obtain ⟨started, -, defined, -, hlast⟩ := hplace
    cases hlast

/-- The line at which the reading ends counts for nothing but the error. -/
theorem conclude_eq_mapError (p : Progress) (s : Statement) (line other : Nat) :
    conclude p s other =
      (conclude p s line).mapError fun error => { error with line := other } := by
  unfold conclude
  cases place p s with
  | error cause => rfl
  | ok result =>
    cases s.operand with
    | none => rfl
    | some label =>
      simp only [Option.map_some, executionStart]
      cases result.1.symbols.get label <;> rfl

theorem line_of_conclude {error : Error} (h : conclude p s line = .error error) :
    error.line = line := by
  rw [conclude_eq_mapError p s line line] at h
  cases hresult : conclude p s line with
  | error other =>
    rw [hresult] at h
    cases h
    rfl
  | ok result =>
    rw [hresult] at h
    cases h

/-- What follows an END does not count, whether or not the reading comes as far as that END. -/
theorem run_of_finish (before : List String) (hparse : Statement.parse text = some s)
    (hfinish : s.directive? = some .finish) (after other : List String) :
    run (before ++ text :: other) = run (before ++ text :: after) := by
  rcases reads_or_stops .initial before with
    ⟨p, hread⟩ | ⟨front, stop, t, rest, p, rfl, hread, hstopped, hstop⟩
  · rw [run_of_stops other hread hparse (place_of_finish hfinish),
      run_of_stops after hread hparse (place_of_finish hfinish)]
  · simp only [List.append_assoc, List.cons_append]
    rw [run_of_stops _ hread hstopped hstop, run_of_stops _ hread hstopped hstop]

theorem run_interleave (hgaps : ∀ i, ∀ text ∈ gaps i, Idle text) (lines : List String) :
    run (interleave gaps lines) =
      (run lines).mapError fun error =>
        { error with line := error.line + inserted gaps error.line } := by
  rcases reads_or_stops .initial lines with
    ⟨p, hread⟩ | ⟨before, text, s, after, p, rfl, hread, hparse, hstop⟩
  · rw [run_of_reads hread, run_of_reads (hread.interleave hgaps)]
    rfl
  · rw [interleave_append, run_of_stops _ (hread.interleave hgaps) hparse hstop,
      run_of_stops _ hread hparse hstop, length_interleave,
      conclude_eq_mapError p s (before.length + 1)]
    cases hresult : conclude p s (before.length + 1) with
    | ok result => rfl
    | error error =>
      rw [Except.mapError, Except.mapError, line_of_conclude hresult]
      simp only [Nat.add_right_comm]

end Reading

/-- Idle lines put anywhere into a source leave its run as it is, apart from the line of an error,
which grows by the number of the idle lines in front of it. The lines behind an END may be replaced
by any others. -/
theorem run_skips_lines (lines : List String) :
    (∀ gaps : Nat → List String, (∀ i, ∀ text ∈ gaps i, Idle text) →
      (∀ table summary, run lines = .ok (table, summary) →
        run (interleave gaps lines) = .ok (table, summary)) ∧
      ∀ error, run lines = .error error →
        run (interleave gaps lines) =
          .error { error with line := error.line + inserted gaps error.line }) ∧
    ∀ before text s after, lines = before ++ text :: after → Statement.parse text = some s →
      s.directive? = some .finish →
      ∀ other : List String, run (before ++ text :: other) = run lines := by
  refine ⟨fun gaps hgaps => ⟨?_, ?_⟩, ?_⟩
  · intro table summary h
    rw [run_interleave hgaps, h]
    rfl
  · intro error h
    rw [run_interleave hgaps, h]
    rfl
  · rintro before text s after rfl hparse hfinish other
    exact run_of_finish before hparse hfinish after other

theorem endingNowhere_skips_lines :
    Idle "" ∧ run endingNowhere = .error ⟨3, .symbol (.undefined "alpha")⟩ ∧
      run ["", "first LDA ALPHA", "", ". comment", "", "   END alpha", "", "alpha WORD", ""] =
        .error ⟨6, .symbol (.undefined "alpha")⟩ ∧
      run ["first LDA ALPHA", ". comment", "   END alpha", "first END"] = run endingNowhere := by
  have hidle : Idle "" := Or.inl Statement.blank_empty
  have hgaps : ∀ i : Nat, ∀ text ∈ (fun _ => [""]) i, Idle text := by
    intro i text htext
    rw [List.mem_singleton.1 htext]
    exact hidle
  obtain ⟨hinserted, hending⟩ := run_skips_lines endingNowhere
  refine ⟨hidle, run_endingNowhere, ?_, ?_⟩
  · exact (hinserted _ hgaps).2 _ run_endingNowhere
  · exact hending ["first LDA ALPHA", ". comment"] _ _ _ rfl rfl rfl ["first END"]

end SicMachine.PassOne
