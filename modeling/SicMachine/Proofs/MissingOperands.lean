import SicMachine.Proofs.FirstFaults

/-!
Operands that are left out. BYTE, RESB and RESW tell their storage from the
operand, so without one they are at fault on every line before END. WORD takes
up one word and its operand is never looked at: one that is left out makes no
difference to any source.
-/
namespace SicMachine

namespace Directive

/-- The directives that tell their storage from an operand. -/
def measured : List Directive := [byte, resb, resw]

theorem measured_cases {d : Directive} (h : d ∈ measured) : d = byte ∨ d = resb ∨ d = resw := by
  simpa [measured] using h

theorem size_none_of_measured {d : Directive} (h : d ∈ measured) :
    d.size none = .error (.missingOperand d) := by
  rcases measured_cases h with rfl | rfl | rfl <;> rfl

theorem ne_start_of_measured {d : Directive} (h : d ∈ measured) : d ≠ start := by
  rcases measured_cases h with rfl | rfl | rfl <;> decide

theorem ne_finish_of_measured {d : Directive} (h : d ∈ measured) : d ≠ finish := by
  rcases measured_cases h with rfl | rfl | rfl <;> decide

theorem size_word (operand : Option String) : word.size operand = .ok wordBytes := by
  cases operand <;> rfl

end Directive

namespace Source

/-- There is no END on these lines, so the lines behind them count. -/
def Open (lines : List String) : Prop :=
  ∀ text ∈ lines, (Statement.parse text).bind Statement.directive? ≠ some .finish

instance (lines : List String) : Decidable (Open lines) :=
  List.decidableBAll _ lines

/-- A statement with no END before it counts. -/
theorem mem_statements_of_open {before after : List String} {text : String} {s : Statement}
    (hopen : Open before) (hparse : Statement.parse text = some s) :
    s ∈ statements (before ++ text :: after) := by
  induction before with
  | nil =>
    rw [List.nil_append, PassOne.statements_of_some hparse]
    split <;> simp
  | cons first rest ih =>
    obtain ⟨hfirst, hrest⟩ := List.forall_mem_cons.1 hopen
    rw [List.cons_append]
    cases hread : Statement.parse first with
    | none =>
      rw [PassOne.statements_of_none hread]
      exact ih hrest
    | some t =>
      rw [hread, Option.bind_some] at hfirst
      rw [PassOne.statements_of_some hread, if_neg hfirst]
      exact List.mem_cons_of_mem t (ih hrest)

end Source

namespace PassOne

open Source

variable {p : Progress} {s t : Statement} {d : Directive} {lines before after : List String}
  {text other : String}

/-! ### Storage told from an operand -/

theorem operand_of_run_ok {result : SymbolTable × Summary} (hrun : run lines = .ok result)
    (hs : s ∈ statements lines) (hdirective : s.directive? = some d) (hd : d ∈ Directive.measured) :
    s.operand.isSome := by
  obtain ⟨table, summary⟩ := result
  have hsized := (run_eq_ok_iff.1 hrun).1.sized s hs
  obtain ⟨bytes, hbytes⟩ := hsized d hdirective (Directive.ne_finish_of_measured hd)
  rw [Option.isSome_iff_ne_none]
  intro hnone
  rw [hnone, Directive.size_none_of_measured hd] at hbytes
  cases hbytes

/-- Such a statement is at fault for its operand, unless it is for its label. -/
theorem place_of_missing_operand (p : Progress) (hdirective : s.directive? = some d)
    (hd : d ∈ Directive.measured) (hmissing : s.operand = none) :
    ∃ cause, place p s = .error cause ∧
      (s.label = none → cause = .directive (.missingOperand d)) := by
  obtain ⟨name, hname, -⟩ := Option.bind_eq_some_iff.1 hdirective
  have hstart : s.directive? ≠ some .start := by
    rw [hdirective, Ne, Option.some.injEq]
    exact Directive.ne_start_of_measured hd
  have hfinish : s.directive? ≠ some .finish := by
    rw [hdirective, Ne, Option.some.injEq]
    exact Directive.ne_finish_of_measured hd
  have hstorage : storage name (some d) none = .error (.directive (.missingOperand d)) := by
    rw [storage, Directive.size_none_of_measured hd]
    rfl
  rw [place_of_ne hname hstart hfinish, hmissing, hdirective, hstorage]
  cases hdefine : define { p with fresh := false } (some d) s.label with
  | error cause =>
    refine ⟨cause, rfl, fun hlabel => ?_⟩
    rw [hlabel] at hdefine
    cases hdefine
  | ok q => exact ⟨_, rfl, fun _ => rfl⟩

/-- A source with such a statement fails where it stands, or before. -/
theorem run_of_missing_operand (after : List String) (hopen : Open before)
    (hparse : Statement.parse text = some s) (hdirective : s.directive? = some d)
    (hd : d ∈ Directive.measured) (hmissing : s.operand = none) :
    ∃ error, run (before ++ text :: after) = .error error ∧ error.line ≤ before.length + 1 ∧
      (error.line = before.length + 1 → s.label = none →
        error.cause = .directive (.missingOperand d)) := by
  rcases reads_or_stops .initial before with
    ⟨p, hread⟩ | ⟨front, stop, t, rest, p, rfl, hread, hstopped, hstop⟩
  · obtain ⟨cause, hplace, hcause⟩ := place_of_missing_operand p hdirective hd hmissing
    exact ⟨_, run_of_faults hread hparse (.statement hplace), Nat.le_refl _, fun _ => hcause⟩
  · rcases faults_or_run_ok (rest ++ text :: after) hread hstopped hstop with
      ⟨cause, hfaults⟩ | ⟨result, hrun⟩
    · rw [List.append_assoc, List.cons_append, List.length_append, List.length_cons]
      refine ⟨_, run_of_faults hread hstopped hfaults, by simp, ?_⟩
      simp only
      omega
    · have hmem : s ∈ statements ((front ++ stop :: rest) ++ text :: after) :=
        mem_statements_of_open hopen hparse
      rw [List.append_assoc, List.cons_append] at hmem
      have hoperand := operand_of_run_ok hrun hmem hdirective hd
      rw [hmissing] at hoperand
      cases hoperand

/-! ### The operand of WORD -/

theorem place_of_word (p : Progress) (hs : s.directive? = some .word) :
    place p s = (do
      let q ← define { p with fresh := false } (some .word) s.label
      reserve q wordBytes).map fun r => (r, false) := by
  obtain ⟨name, hname, -⟩ := Option.bind_eq_some_iff.1 hs
  have hstorage : storage name (some .word) s.operand = .ok wordBytes := by
    rw [storage, Directive.size_word]
    rfl
  rw [place_of_ne hname (by rw [hs]; decide) (by rw [hs]; decide), hs, hstorage]
  cases define { p with fresh := false } (some .word) s.label with
  | error cause => rfl
  | ok q =>
    show (reserve q wordBytes >>= fun r => Except.ok (r, false)) = (reserve q wordBytes).map _
    cases reserve q wordBytes <;> rfl

/-- Of a WORD only the label counts. -/
theorem scan_of_word (hparse : Statement.parse text = some s)
    (hother : Statement.parse other = some t) (hs : s.directive? = some .word)
    (ht : t.directive? = some .word) (hlabel : t.label = s.label) (p : Progress) (line : Nat) :
    scan p line (other :: after) = scan p line (text :: after) := by
  simp only [scan, hparse, hother, place_of_word p hs, place_of_word p ht, hlabel]
  cases (do
    let q ← define { p with fresh := false } (some .word) s.label
    reserve q wordBytes) <;> rfl

theorem run_of_word (before after : List String) (hparse : Statement.parse text = some s)
    (hother : Statement.parse other = some t) (hs : s.directive? = some .word)
    (ht : t.directive? = some .word) (hlabel : t.label = s.label) :
    run (before ++ other :: after) = run (before ++ text :: after) := by
  rcases reads_or_stops .initial before with
    ⟨p, hread⟩ | ⟨front, stop, u, rest, p, rfl, hread, hstopped, hstop⟩
  · rw [run, run, scan_of_reads hread, scan_of_reads hread,
      scan_of_word hparse hother hs ht hlabel]
  · simp only [List.append_assoc, List.cons_append]
    rw [run_of_stops _ hread hstopped hstop, run_of_stops _ hread hstopped hstop]

/-- BYTE, RESB and RESW need an operand: an assembled source has one in each of them, and a source
in which one is missing fails on that line or before. WORD needs none, and takes up one word with or
without one. -/
theorem run_needs_operands (lines : List String) :
    (∀ d ∈ Directive.measured,
      d.size none = .error (.missingOperand d) ∧
      (∀ table summary, run lines = .ok (table, summary) →
        ∀ s ∈ statements lines, s.directive? = some d → s.operand.isSome) ∧
      ∀ before text s after, lines = before ++ text :: after → Open before →
        Statement.parse text = some s → s.directive? = some d → s.operand = none →
        ∃ error, run lines = .error error ∧ error.line ≤ before.length + 1 ∧
          (error.line = before.length + 1 → s.label = none →
            error.cause = .directive (.missingOperand d))) ∧
    (∀ operand, Directive.word.size operand = .ok 3) ∧
    ∀ before text s after, lines = before ++ text :: after → Statement.parse text = some s →
      s.directive? = some .word →
      ∀ other t, Statement.parse other = some t → t.directive? = some .word → t.label = s.label →
        run (before ++ other :: after) = run lines := by
  refine ⟨fun d hd => ⟨Directive.size_none_of_measured hd, ?_, ?_⟩, Directive.size_word, ?_⟩
  · intro table summary hrun s hs hdirective
    exact operand_of_run_ok hrun hs hdirective hd
  · rintro before text s after rfl hopen hparse hdirective hmissing
    exact run_of_missing_operand after hopen hparse hdirective hd hmissing
  · rintro before text s after rfl hparse hs other t hother ht hlabel
    exact run_of_word before after hparse hother hs ht hlabel

/-- The second RESW has nothing to count, and neither has the WORD behind it, which is no fault. -/
theorem reserving_needs_operands :
    (∃ error, run ["ALPHA RESW 1", " resw", " WORD"] = .error error ∧ error.line ≤ 2 ∧
      (error.line = 2 → error.cause = .directive (.missingOperand .resw))) ∧
    run ["ALPHA RESW 1", " WORD ."] = run ["ALPHA RESW 1", " WORD"] := by
  obtain ⟨hmeasured, -, -⟩ := run_needs_operands ["ALPHA RESW 1", " resw", " WORD"]
  obtain ⟨-, -, hword⟩ := run_needs_operands ["ALPHA RESW 1", " WORD"]
  obtain ⟨-, -, hmissing⟩ := hmeasured .resw (by decide)
  obtain ⟨error, hrun, hline, hcause⟩ :=
    hmissing ["ALPHA RESW 1"] " resw" ⟨none, some "resw", none⟩ [" WORD"] rfl (by decide) rfl rfl rfl
  refine ⟨⟨error, hrun, hline, fun h => hcause h rfl⟩, ?_⟩
  exact hword ["ALPHA RESW 1"] " WORD" ⟨none, some "WORD", none⟩ [] rfl rfl rfl
    " WORD ." ⟨none, some "WORD", some "."⟩ rfl rfl rfl

/-- A constant that is not there takes up a word. -/
theorem word_assembled_without_operand :
    ¬ ∀ lines table summary, run lines = .ok (table, summary) → ∀ s ∈ statements lines,
      ∀ d ∈ [Directive.byte, .word, .resb, .resw], s.directive? = some d → s.operand.isSome := by
  intro h
  have hrun : run [" WORD"] = .ok (.empty, ⟨none, 0, 3, 0⟩) := by
    rfl
  have hmem : ⟨none, some "WORD", none⟩ ∈ statements [" WORD"] := by
    decide
  have hoperand := h _ _ _ hrun _ hmem .word (by decide) rfl
  cases hoperand

end PassOne

end SicMachine
