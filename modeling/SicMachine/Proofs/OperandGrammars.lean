import Mathlib.Data.Nat.Digits.Defs
import Mathlib.Tactic.Ring
import SicMachine.Proofs.ListedSources
import SicMachine.Proofs.MissingOperands
import SicMachine.Proofs.SkippedLines
import SicMachine.Proofs.StorageCounts

/-!
The operands that can be read, written down as a grammar. RESB, RESW and START
read a number, with or without a plus sign in front and with any number of
zeros, and BYTE a constant between quotes. All other operands are refused, and
so is a number that is too large, whether its digits show that or only the
multiplication by the bytes of a word. The address that START reads becomes the
start address, and an operand that it refuses ends the assembly on its line.
-/
namespace SicMachine

namespace Text

/-- The digits in the order of their values. -/
def digitRow : List Char := "0123456789ABCDEF".toList

/-- The number that digits of either case stand for. Each counts `base` times as much as the one
behind it. -/
def number (base : Nat) (digits : List Char) : Nat :=
  Nat.ofDigits base (digits.reverse.map fun c => digitRow.idxOf c.toUpper)

/-- A number written in a base: one digit at least, with or without a plus sign in front. -/
def Numeral (base n : Nat) (text : List Char) : Prop :=
  ∃ digits, (text = digits ∨ text = '+' :: digits) ∧ digits ≠ [] ∧
    (∀ c ∈ digits, c.toUpper ∈ digitRow.take base) ∧ number base digits = n

variable {base limit n : Nat} {c : Char} {digits front back text : List Char}

/-- The value of a digit is its place in the row. -/
theorem digitValue?_eq_ite (hbase : base = 10 ∨ base = 16) (c : Char) :
    digitValue? base c =
      if c.toUpper ∈ digitRow.take base then some (digitRow.idxOf c.toUpper) else none := by
  -- The characters of ASCII are looked at one by one, and there are no digits behind them.
  by_cases hascii : c.toNat < 128
  · have hall : ∀ code < 128, digitValue? base (Char.ofNat code) =
        if (Char.ofNat code).toUpper ∈ digitRow.take base then
          some (digitRow.idxOf (Char.ofNat code).toUpper)
        else none := by
      rcases hbase with rfl | rfl <;> decide +kernel
    have hcode := hall c.toNat hascii
    rwa [Char.ofNat_toNat] at hcode
  · have hrow : digitRow.all (fun d => d.toNat < 128) = true := by decide
    have houtside : c.toUpper ∉ digitRow.take base := by
      intro hmem
      have hsmall := List.all_eq_true.1 hrow _ (List.mem_of_mem_take hmem)
      exact hascii ((toUpper_ascii_iff c).1 (of_decide_eq_true hsmall))
    rw [if_neg houtside, ← Option.not_isSome_iff_eq_none]
    intro hdigit
    have hrange := toNat_of_digit hdigit
    omega

theorem digits_iff (hbase : base = 10 ∨ base = 16) :
    Digits base digits ↔ ∀ c ∈ digits, c.toUpper ∈ digitRow.take base := by
  have hdigit : ∀ c, (digitValue? base c).isSome = true ↔ c.toUpper ∈ digitRow.take base := by
    intro c
    rw [digitValue?_eq_ite hbase]
    split <;> simp [*]
  simp only [Digits, hdigit]

/-- The value that is built up from the left is the sum of the digits at their places. -/
theorem valueFrom_eq_number (hbase : base = 10 ∨ base = 16)
    (h : ∀ c ∈ digits, c.toUpper ∈ digitRow.take base) :
    valueFrom base 0 digits = number base digits := by
  induction digits using List.reverseRecOn with
  | nil => rfl
  | append_singleton front c ih =>
    obtain ⟨hfront, hlast⟩ := List.forall_mem_append.1 h
    have hvalue : digitValue? base c = some (digitRow.idxOf c.toUpper) := by
      rw [digitValue?_eq_ite hbase, if_pos (hlast c List.mem_cons_self)]
    rw [valueFrom_append, ih hfront, number, number, List.reverse_append, List.reverse_singleton,
      List.singleton_append, List.map_cons, Nat.ofDigits_cons, valueFrom, List.foldl_cons,
      List.foldl_nil, hvalue, Option.getD_some]
    ring

theorem numeral_iff (hbase : base = 10 ∨ base = 16) :
    Numeral base n text ↔
      ∃ digits, (text = digits ∨ text = '+' :: digits) ∧ digits ≠ [] ∧ Digits base digits ∧
        valueFrom base 0 digits = n := by
  unfold Numeral
  refine exists_congr fun digits => and_congr_right fun _ => and_congr_right fun _ => ?_
  rw [digits_iff hbase]
  exact and_congr_right fun h => by rw [valueFrom_eq_number hbase h]

theorem readNumeral_eq_ok_iff_numeral (hbase : base = 10 ∨ base = 16) (hlimit : 0 < limit) :
    readNumeral base limit text = .ok n ↔ Numeral base n text ∧ n < limit := by
  have hpos : 0 < base := by omega
  rw [readNumeral_eq_ok_iff hpos hlimit, numeral_iff hbase]
  simp only [← and_assoc, exists_and_right]

/-- No product on the way to a number is larger than the number. -/
theorem number_mul_le (hbase : base = 10 ∨ base = 16) (hback : back ≠ [])
    (h : ∀ c ∈ front ++ back, c.toUpper ∈ digitRow.take base) :
    number base front * base ≤ number base (front ++ back) := by
  obtain ⟨c, rest, rfl⟩ := List.exists_cons_of_ne_nil hback
  have hfront : valueFrom base 0 front = number base front :=
    valueFrom_eq_number hbase fun d hd => h d (List.mem_append_left _ hd)
  have hpos : 0 < base := by omega
  have hgrows := le_valueFrom hpos (number base front * base + (digitValue? base c).getD 0) rest
  rw [← valueFrom_eq_number hbase h, valueFrom_append, hfront]
  exact Nat.le_trans (Nat.le_add_right _ _) hgrows

end Text

namespace Directive

open Text

/-- A body between quotes, behind one letter out of some. -/
def Quoted (letters body : List Char) (operand : String) : Prop :=
  ∃ letter ∈ letters, operand.toList = letter :: '\'' :: (body ++ ['\''])

/-- Which directives take an operand, what they make of it, and how the others refuse it. -/
structure Grammar (operand : String) : Prop where
  resb (bytes : Nat) :
    resb.size (some operand) = .ok bytes ↔ Numeral 10 bytes operand.toList ∧ bytes < 2 ^ 32
  resw (bytes : Nat) :
    resw.size (some operand) = .ok bytes ↔
      ∃ n, Numeral 10 n operand.toList ∧ 3 * n < 2 ^ 32 ∧ bytes = 3 * n
  byte :
    (∃ bytes, byte.size (some operand) = .ok bytes) ↔
      ∃ body, Quoted ['c', 'C'] body operand ∨
        Quoted ['x', 'X'] body operand ∧ ∀ c ∈ body, c.toUpper ∈ digitRow
  /-- Two hexadecimal digits make a byte, and the length of a body is counted in 32 bits. -/
  byteSize (bytes : Nat) (h : Directive.byte.size (some operand) = .ok bytes) :
    ∃ body, Quoted ['c', 'C'] body operand ∧ bytes = body.length % 2 ^ 32 ∨
      Quoted ['x', 'X'] body operand ∧ bytes = body.length % 2 ^ 32 / 2
  start (address : Nat) :
    PassOne.startAddress (some operand) = .ok address ↔
      Numeral 16 address operand.toList ∧ address < 32768
  /-- An operand that is refused is named, or the number of words that it counts. -/
  refused (d : Directive) (hd : d ∈ measured) (error : Error)
    (h : d.size (some operand) = .error error) :
    error = .invalidOperand d operand ∨
      ∃ n, error = .invalidOperand d (toString n) ∧ d = .resw ∧ Numeral 10 n operand.toList ∧
        2 ^ 32 ≤ 3 * n
  startRefused (cause : PassOne.Cause) (h : PassOne.startAddress (some operand) = .error cause) :
    cause = .invalidStart operand
  /-- No product overflows on the way to a number that is read. -/
  products (base n : Nat) (hbase : base = 10 ∨ base = 16)
    (hread : readNumeral base wideLimit operand.toList = .ok n) (front back : List Char)
    (hdigits : ∀ c ∈ front ++ back, c.toUpper ∈ digitRow.take base) (hback : back ≠ [])
    (htext : operand.toList = front ++ back ∨ operand.toList = '+' :: (front ++ back)) :
    number base front * base < 2 ^ 32

variable {operand : String} {body : List Char} {n : Nat} {d : Directive}

theorem counts_iff : Counts n operand ↔ Numeral 10 n operand.toList :=
  (numeral_iff (Or.inl rfl)).symm

/-- Two letters differ in their case only when they are the same capital. -/
theorem constant_iff_quoted {capital small : Char}
    (hletters : ∀ letter : Char, letter.toUpper = capital ↔ letter = small ∨ letter = capital) :
    Constant capital body operand ↔ Quoted [small, capital] body operand := by
  simp only [Constant, Quoted, hletters, List.mem_cons, List.not_mem_nil, or_false]

theorem toUpper_eq_capital_iff {capital small letter : Char} (hsmall : small.toUpper = capital)
    (hcode : small.toNat = capital.toNat + 32) :
    letter.toUpper = capital ↔ letter = small ∨ letter = capital := by
  constructor
  · rintro rfl
    rcases toUpper_cases letter with hsame | ⟨hfrom, -, hupper⟩
    · exact Or.inr hsame.symm
    · have hsmallcode : letter.toNat = small.toNat := by omega
      exact Or.inl (Char.toNat_inj.1 hsmallcode)
  · rintro (rfl | rfl)
    · exact hsmall
    · rw [← hsmall, Text.toUpper_toUpper]

theorem error_of_count {error : Error} (h : count d operand = .error error) :
    error = .invalidOperand d operand := by
  rw [count] at h
  cases hread : readNumeral 10 wideLimit operand.toList with
  | ok n =>
    rw [hread] at h
    cases h
  | error _ =>
    rw [hread] at h
    cases h
    rfl

theorem refused_of_size {error : Error} (hd : d ∈ measured)
    (h : d.size (some operand) = .error error) :
    error = .invalidOperand d operand ∨
      ∃ n, error = .invalidOperand d (toString n) ∧ d = .resw ∧ Numeral 10 n operand.toList ∧
        2 ^ 32 ≤ 3 * n := by
  rcases measured_cases hd with rfl | rfl | rfl
  · rw [size] at h
    cases hsize : constantSize? operand with
    | some bytes =>
      rw [hsize] at h
      cases h
    | none =>
      rw [hsize] at h
      cases h
      exact Or.inl rfl
  · exact Or.inl (error_of_count h)
  · cases hwords : count resw operand with
    | error cause =>
      rw [size, hwords] at h
      cases h
      exact Or.inl (error_of_count hwords)
    | ok n =>
      -- The count could be read, so the multiplication is what RESW refuses.
      have hsplit : (if n * wordBytes < wideLimit then Except.ok (n * wordBytes)
          else .error (.invalidOperand resw (toString n))) = .error error := by
        rwa [size, hwords] at h
      split at hsplit
      · cases hsplit
      · next hlarge =>
        cases hsplit
        have hnumeral := counts_iff.1 (count_eq_ok_iff.1 hwords).1
        rw [wordBytes, wideLimit] at hlarge
        exact Or.inr ⟨n, rfl, rfl, hnumeral, by omega⟩

theorem startAddress_eq_ok_iff_numeral {address : Nat} :
    PassOne.startAddress (some operand) = .ok address ↔
      Numeral 16 address operand.toList ∧ address < memorySize := by
  have hread : ∀ n, readNumeral 16 wideLimit operand.toList = .ok n ↔
      Numeral 16 n operand.toList ∧ n < wideLimit :=
    fun n => readNumeral_eq_ok_iff_numeral (Or.inr rfl) (by decide)
  have hless : memorySize < wideLimit := by decide
  constructor
  · intro h
    rw [PassOne.startAddress] at h
    cases hnumeral : readNumeral 16 wideLimit operand.toList with
    | error _ =>
      rw [hnumeral] at h
      cases h
    | ok n =>
      simp only [hnumeral] at h
      split at h
      · next hinside =>
        cases h
        exact ⟨((hread address).1 hnumeral).1, hinside⟩
      · cases h
  · rintro ⟨hnumeral, hinside⟩
    simp only [PassOne.startAddress, (hread address).2 ⟨hnumeral, by omega⟩, if_pos hinside]

theorem cause_of_startAddress {cause : PassOne.Cause}
    (h : PassOne.startAddress (some operand) = .error cause) : cause = .invalidStart operand := by
  rw [PassOne.startAddress] at h
  split at h
  · split at h
    · cases h
    · cases h
      rfl
  · cases h
    rfl

theorem size_byte_iff {bytes : Nat} :
    byte.size (some operand) = .ok bytes ↔
      ∃ body, Quoted ['c', 'C'] body operand ∧ bytes = body.length % wideLimit ∨
        Quoted ['x', 'X'] body operand ∧ (∀ c ∈ body, c.toUpper ∈ digitRow) ∧
          bytes = body.length % wideLimit / 2 := by
  have hcharacters : ∀ body, Constant 'C' body operand ↔ Quoted ['c', 'C'] body operand :=
    fun body => constant_iff_quoted fun letter => toUpper_eq_capital_iff rfl rfl
  have hpairs : ∀ body, Constant 'X' body operand ↔ Quoted ['x', 'X'] body operand :=
    fun body => constant_iff_quoted fun letter => toUpper_eq_capital_iff rfl rfl
  have hdigits : ∀ body : List Char, Digits 16 body ↔ ∀ c ∈ body, c.toUpper ∈ digitRow :=
    fun body => digits_iff (Or.inr rfl)
  simp only [size_byte_eq_ok_iff, constantSize?_eq_some_iff, Option.some.injEq, exists_eq_left',
    hcharacters, hpairs, hdigits, exists_or]

theorem product_lt {base : Nat} {front back : List Char} (hbase : base = 10 ∨ base = 16)
    (hread : readNumeral base wideLimit operand.toList = .ok n)
    (hdigits : ∀ c ∈ front ++ back, c.toUpper ∈ digitRow.take base) (hback : back ≠ [])
    (htext : operand.toList = front ++ back ∨ operand.toList = '+' :: (front ++ back)) :
    number base front * base < wideLimit := by
  obtain ⟨digits, hother, -, hmore, hn, hless⟩ :=
    (readNumeral_eq_ok_iff (by omega) (by decide)).1 hread
  rw [digits_unique hother htext hmore ((digits_iff hbase).2 hdigits),
    valueFrom_eq_number hbase hdigits] at hn
  have hle := number_mul_le hbase hback hdigits
  omega

theorem grammar (operand : String) : Grammar operand where
  resb bytes := by
    simp only [size_resb_eq_ok_iff, counts_iff, Option.some.injEq, exists_eq_left']
    rfl
  resw bytes := by
    simp only [size_resw_eq_ok_iff, counts_iff, Option.some.injEq, exists_and_left,
      exists_eq_left']
    constructor
    · rintro ⟨n, hn, rfl, hless⟩
      exact ⟨n, hn, hless, rfl⟩
    · rintro ⟨n, hn, hless, rfl⟩
      exact ⟨n, hn, rfl, hless⟩
  byte := by
    simp only [size_byte_iff]
    constructor
    · rintro ⟨bytes, body, ⟨hbody, -⟩ | ⟨hbody, hhex, -⟩⟩
      · exact ⟨body, Or.inl hbody⟩
      · exact ⟨body, Or.inr ⟨hbody, hhex⟩⟩
    · rintro ⟨body, hbody | ⟨hbody, hhex⟩⟩
      · exact ⟨_, body, Or.inl ⟨hbody, rfl⟩⟩
      · exact ⟨_, body, Or.inr ⟨hbody, hhex, rfl⟩⟩
  byteSize bytes h := by
    obtain ⟨body, hbody | ⟨hbody, -, hbytes⟩⟩ := size_byte_iff.1 h
    · exact ⟨body, Or.inl hbody⟩
    · exact ⟨body, Or.inr ⟨hbody, hbytes⟩⟩
  start address := startAddress_eq_ok_iff_numeral
  refused d hd error h := refused_of_size hd h
  startRefused cause h := cause_of_startAddress h
  products base n hbase hread front back hdigits hback htext :=
    product_lt hbase hread hdigits hback htext

end Directive

namespace PassOne

open Source Text

variable {s : Statement} {before after : List String} {text operand : String} {address : Nat}

/-! ### START in front of a source -/

theorem reads_of_no_statement (p : Progress) (h : ∀ line ∈ before, Statement.parse line = none) :
    Reads p before p := by
  induction before with
  | nil => exact .done
  | cons first rest ih =>
    obtain ⟨hfirst, hrest⟩ := List.forall_mem_cons.1 h
    exact .skip hfirst (ih hrest)

theorem statements_of_no_statement (h : ∀ line ∈ before, Statement.parse line = none) :
    statements (before ++ after) = statements after := by
  induction before with
  | nil => rfl
  | cons first rest ih =>
    obtain ⟨hfirst, hrest⟩ := List.forall_mem_cons.1 h
    rw [List.cons_append, statements_of_none hfirst, ih hrest]

theorem place_of_startAddress_error {cause : Cause} (hs : s.directive? = some .start)
    (hcause : startAddress s.operand = .error cause) : place .initial s = .error cause := by
  obtain ⟨name, hname, hstart⟩ := Option.bind_eq_some_iff.1 hs
  simp only [place, hname, hstart, applyStart, Progress.initial, if_true, hcause]
  rfl

/-- A START with an address can come first, and the program begins there. -/
theorem place_of_startAddress (hs : s.directive? = some .start)
    (haddress : startAddress s.operand = .ok address) :
    place .initial s = .ok (Progress.initial.next s, false) ∧
      (Progress.initial.next s).startAddress = address := by
  have hsome : s.address? = some address := startAddress_eq_ok_iff.1 haddress
  have hlocate : Progress.initial.locate s = address := by
    rw [Progress.locate, if_pos hs, hsome, Option.getD_some]
  have hbytes : s.bytes = 0 := Statement.bytes_of_size hs rfl
  have hsized : s.Sized := by
    intro d hd _
    rw [hs] at hd
    cases hd
    exact ⟨0, rfl⟩
  have hinside : address < memorySize := by
    obtain ⟨operand, -, hfilter⟩ := Option.bind_eq_some_iff.1 hsome
    exact of_decide_eq_true (Option.filter_eq_some_iff.1 hfilter).2
  have haccepts : Progress.initial.Accepts s :=
    { known := Statement.known_of_directive hs
      start := fun _ => ⟨rfl, by rw [hsome]; rfl⟩
      sized := hsized
      unbound := fun _ _ => rfl
      fits := by
        rw [hlocate, hbytes]
        omega }
  constructor
  · exact (place_eq_ok_iff (by decide)).2 ⟨haccepts, rfl, by rw [hs]; rfl⟩
  · exact (if_pos hs).trans hlocate

/-- Behind a START that can come first, only a line further down can be at fault. -/
theorem line_of_run_after_start {error : Error} (hs : s.directive? = some .start)
    (hbefore : ∀ line ∈ before, Statement.parse line = none)
    (hparse : Statement.parse text = some s) (haddress : startAddress s.operand = .ok address)
    (h : run (before ++ text :: after) = .error error) : before.length + 1 < error.line := by
  obtain ⟨hplace, -⟩ := place_of_startAddress hs haddress
  have hread : Reads .initial (before ++ [text]) (Progress.initial.next s) :=
    (reads_of_no_statement .initial hbefore).append (.next hparse hplace .done)
  rw [List.append_cons] at h
  rcases reads_or_stops (Progress.initial.next s) after with
    ⟨q, hrest⟩ | ⟨front, stop, t, rest, q, rfl, hrest, hstopped, hstop⟩
  · rw [run_of_reads (hread.append hrest)] at h
    cases h
  · rw [← List.append_assoc, run_of_stops rest (hread.append hrest) hstopped hstop] at h
    rw [line_of_conclude h, List.length_append, List.length_append, List.length_singleton]
    omega

theorem startAddress_of_run {table : SymbolTable} {summary : Summary}
    (hs : s.directive? = some .start) (hbefore : ∀ line ∈ before, Statement.parse line = none)
    (hparse : Statement.parse text = some s) (haddress : startAddress s.operand = .ok address)
    (h : run (before ++ text :: after) = .ok (table, summary)) :
    summary.startAddress = address := by
  have hlayout := (layout_of_run h).2
  have hother : s.directive? ≠ some .finish := by
    rw [hs]
    decide
  have hsome : s.address? = some address := startAddress_eq_ok_iff.1 haddress
  rw [hlayout.startAddress, statements_of_no_statement hbefore, statements_of_some hparse,
    if_neg hother, origin, if_pos hs, hsome, Option.getD_some]

/-- BYTE, RESB, RESW and START take the operands of the grammar and no others. With an address that
can be read a START in front can be assembled, the program starts there, and only a line further
down can be at fault. With any other operand, and without one, the assembly ends on its line. -/
theorem run_takes_operands (operand : String) :
    Directive.Grammar operand ∧
    (∀ d ∈ Directive.measured, d.size none = .error (.missingOperand d)) ∧
    startAddress none = .error .startWithoutAddress ∧
    ∀ before text s after, (∀ line ∈ before, Statement.parse line = none) →
      Statement.parse text = some s → s.directive? = some .start →
      (s.operand = none →
        run (before ++ text :: after) = .error ⟨before.length + 1, .startWithoutAddress⟩) ∧
      (s.operand = some operand →
        ((¬ ∃ address < 32768, Numeral 16 address operand.toList) →
          run (before ++ text :: after) = .error ⟨before.length + 1, .invalidStart operand⟩) ∧
        ∀ address < 32768, Numeral 16 address operand.toList →
          (∃ table summary, run (before ++ [text]) = .ok (table, summary)) ∧
          (∀ table summary, run (before ++ text :: after) = .ok (table, summary) →
            summary.startAddress = address) ∧
          ∀ error, run (before ++ text :: after) = .error error →
            before.length + 1 < error.line) := by
  refine ⟨Directive.grammar operand, fun d => Directive.size_none_of_measured, rfl, ?_⟩
  intro before text s after hbefore hparse hs
  have hread := reads_of_no_statement .initial hbefore
  have hfails : ∀ cause, startAddress s.operand = .error cause →
      run (before ++ text :: after) = .error ⟨before.length + 1, cause⟩ := by
    intro cause hcause
    exact run_of_faults hread hparse (.statement (place_of_startAddress_error hs hcause))
  constructor
  · intro hmissing
    exact hfails _ (by rw [hmissing]; rfl)
  · intro hoperand
    constructor
    · intro hnone
      cases hresult : startAddress (some operand) with
      | ok address =>
        obtain ⟨hnumeral, hinside⟩ := Directive.startAddress_eq_ok_iff_numeral.1 hresult
        exact absurd ⟨address, hinside, hnumeral⟩ hnone
      | error cause =>
        rw [Directive.cause_of_startAddress hresult] at hresult
        exact hfails _ (by rw [hoperand]; exact hresult)
    · intro address hinside hnumeral
      have haddress : startAddress s.operand = .ok address := by
        rw [hoperand]
        exact Directive.startAddress_eq_ok_iff_numeral.2 ⟨hnumeral, hinside⟩
      refine ⟨?_, fun table summary h => startAddress_of_run hs hbefore hparse haddress h,
        fun error h => line_of_run_after_start hs hbefore hparse haddress h⟩
      obtain ⟨hplace, -⟩ := place_of_startAddress hs haddress
      exact ⟨_, _, run_of_reads (hread.append (.next hparse hplace .done))⟩

/-- The last address of memory, with a sign, zeros and letters of either case. -/
theorem last_address_taken :
    ∃ table summary, run [". note", "Alpha START +0007fFf"] = .ok (table, summary) ∧
      summary.startAddress = 0x7FFF := by
  have hdigits : ['0', '0', '0', '7', 'f', 'F', 'f'].all
      (fun c => c.toUpper ∈ digitRow.take 16) = true := by
    decide
  have hnumeral : Numeral 16 0x7FFF "+0007fFf".toList :=
    ⟨['0', '0', '0', '7', 'f', 'F', 'f'], Or.inr rfl, by decide,
      fun c hc => of_decide_eq_true (List.all_eq_true.1 hdigits c hc), rfl⟩
  have hbefore : ∀ line ∈ [". note"], Statement.parse line = none := by
    decide
  obtain ⟨-, -, -, hruns⟩ := run_takes_operands "+0007fFf"
  obtain ⟨-, hstart⟩ := hruns [". note"] "Alpha START +0007fFf"
    ⟨some "Alpha", some "START", some "+0007fFf"⟩ [] hbefore rfl rfl
  obtain ⟨-, haccepted⟩ := hstart rfl
  obtain ⟨⟨table, summary, hrun⟩, hstarts, -⟩ := haccepted 0x7FFF (by decide) hnumeral
  exact ⟨table, summary, hrun, hstarts table summary hrun⟩

end PassOne

end SicMachine
