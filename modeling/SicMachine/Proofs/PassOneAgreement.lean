import SicMachine.Proofs.SourceLayout

/-!
Pass One finds out what the source means. Each statement is accepted or not,
and when it is, the progress behind it can be computed without a further
check. The start of a source is special, because only there START may stand;
behind it, what the statements need of each other is collected by induction.
-/
namespace SicMachine.PassOne

open Source

theorem ok_of_bind {ε α β : Type} {first : Except ε α} {next : α → Except ε β} {result : β} :
    (first >>= next) = .ok result ↔ ∃ value, first = .ok value ∧ next value = .ok result := by
  cases first with
  | error error =>
    constructor
    · intro h
      cases h
    · intro h
      obtain ⟨value, hvalue, -⟩ := h
      cases hvalue
  | ok value =>
    constructor
    · intro h
      exact ⟨value, rfl, h⟩
    · intro h
      obtain ⟨other, hvalue, hnext⟩ := h
      cases hvalue
      exact hnext

namespace Progress

/-- The address of a statement: START brings its own. -/
def locate (p : Progress) (s : Statement) : Nat :=
  if s.directive? = some .start then s.address?.getD 0 else p.location

/-- What a statement must be like to come next. -/
structure Accepts (p : Progress) (s : Statement) : Prop where
  known : s.Known
  start : s.directive? = some .start → p.fresh = true ∧ s.address?.isSome
  sized : s.Sized
  unbound : ∀ key, s.key? = some key → p.symbols.labels.find? key = none
  fits : p.locate s + s.bytes ≤ memorySize

/-- The symbols with the label of a statement, if it has one. -/
def bind (p : Progress) (s : Statement) : SymbolTable :=
  match s.key? with
  | some key => ⟨p.symbols.labels.insert key (p.locate s)⟩
  | none => p.symbols

/-- The progress behind a statement that comes next. -/
def next (p : Progress) (s : Statement) : Progress where
  symbols := p.bind s
  programName := if s.directive? = some .start then s.key?.or p.programName else p.programName
  startAddress := if s.directive? = some .start then p.locate s else p.startAddress
  location := p.locate s + s.bytes
  fresh := false

/-- Each statement is accepted behind those before it. -/
def AcceptsAll (p : Progress) : List Statement → Prop
  | [] => True
  | s :: rest => p.Accepts s ∧ (p.next s).AcceptsAll rest

end Progress

/-! ### One statement -/

theorem startAddress_eq_ok_iff {s : Statement} {address : Nat} :
    startAddress s.operand = .ok address ↔ s.address? = some address := by
  unfold Statement.address?
  cases s.operand with
  | none => simp [startAddress]
  | some operand =>
    cases hread : Text.readNumeral 16 wideLimit operand.toList with
    | error error => simp [startAddress, hread, Except.toOption]
    | ok value =>
      by_cases hvalue : value < memorySize
      · simp [startAddress, hread, Except.toOption, hvalue]
        intro h
        omega
      · simp [startAddress, hread, Except.toOption, hvalue]
        intro h
        omega

theorem applyStart_eq_ok_iff {p q : Progress} {s : Statement} :
    applyStart p s.directive? s.operand = .ok q ↔
      (s.directive? = some .start → p.fresh = true ∧ s.address?.isSome) ∧
        { p with
          startAddress := if s.directive? = some .start then p.locate s else p.startAddress
          location := p.locate s
          fresh := false } = q := by
  unfold applyStart Progress.locate
  by_cases hstart : s.directive? = some .start
  · cases hfresh : p.fresh with
    | false => simp [hstart]
    | true =>
      simp only [hstart, if_true, ok_of_bind, startAddress_eq_ok_iff]
      cases haddress : s.address? with
      | none => simp
      | some address => simp
  · simp [hstart]

theorem define_eq_ok_iff {p q : Progress} {s : Statement} :
    define p s.directive? s.label = .ok q ↔
      (∀ key, s.key? = some key → p.symbols.labels.find? key = none) ∧
        { p with
          symbols :=
            match s.key? with
            | some key => ⟨p.symbols.labels.insert key p.location⟩
            | none => p.symbols
          programName :=
            if s.directive? = some .start then s.key?.or p.programName else p.programName } = q := by
  unfold Statement.key?
  cases s.label with
  | none => simp [define]
  | some label =>
    cases hfind : p.symbols.labels.find? (Text.upperCase label) with
    | none => simp [define, SymbolTable.add, hfind]
    | some address => simp [define, SymbolTable.add, hfind]

theorem known_iff_of_no_directive {s : Statement} {mnemonic : String}
    (hmnemonic : s.mnemonic = some mnemonic) (hnone : s.directive? = none) :
    s.Known ↔ (Mnemonic.ofName? mnemonic).isSome = true := by
  rw [Option.isSome_iff_exists]
  simp only [Mnemonic.ofName?_eq_some_iff]
  constructor
  · intro h
    obtain ⟨other, hother, hname⟩ := h
    rw [hmnemonic] at hother
    cases hother
    rcases hname with hname | hname
    · obtain ⟨directive, hname⟩ := hname
      have hsome := Statement.directive?_eq_some_iff.2 ⟨mnemonic, hmnemonic, hname⟩
      rw [hnone] at hsome
      cases hsome
    · exact hname
  · intro h
    exact ⟨mnemonic, hmnemonic, Or.inr h⟩

theorem storage_eq_ok_iff {s : Statement} {mnemonic : String} {bytes : Nat}
    (hmnemonic : s.mnemonic = some mnemonic) (hfinish : s.directive? ≠ some .finish) :
    storage mnemonic s.directive? s.operand = .ok bytes ↔ s.Known ∧ s.Sized ∧ s.bytes = bytes := by
  cases hdirective : s.directive? with
  | none =>
    rw [known_iff_of_no_directive hmnemonic hdirective]
    unfold Statement.Sized Statement.bytes
    by_cases hfound : (Mnemonic.ofName? mnemonic).isSome = true
    · simp [storage, hdirective, hfound]
    · simp [storage, hfound]
  | some directive =>
    have hknown := Statement.known_of_directive hdirective
    have hother : directive ≠ .finish := by
      intro h
      rw [h] at hdirective
      exact hfinish hdirective
    unfold Statement.Sized Statement.bytes
    cases hsize : directive.size s.operand with
    | error error => simp [storage, hdirective, hsize, Except.mapError, hother]
    | ok value => simp [storage, hdirective, hsize, Except.mapError, Except.toOption, hknown]

theorem reserve_eq_ok_iff {p q : Progress} {bytes : Nat} :
    reserve p bytes = .ok q ↔
      p.location + bytes ≤ memorySize ∧ { p with location := p.location + bytes } = q := by
  unfold reserve
  by_cases hfits : p.location + bytes ≤ memorySize
  · simp [hfits]
  · simp [hfits]

namespace Progress

theorem locate_of_finish {p : Progress} {s : Statement} (h : s.directive? = some .finish) :
    p.locate s = p.location := by
  simp [locate, h]

theorem accepts_of_finish {p : Progress} {s : Statement} (hp : p.location ≤ memorySize)
    (h : s.directive? = some .finish)
    (hunbound : ∀ key, s.key? = some key → p.symbols.labels.find? key = none) : p.Accepts s where
  known := Statement.known_of_directive h
  start := by simp [h]
  sized := Statement.sized_of_finish h
  unbound := hunbound
  fits := by
    rw [locate_of_finish h, Statement.bytes_of_finish h]
    exact hp

theorem next_of_finish {p : Progress} {s : Statement} (h : s.directive? = some .finish) :
    p.next s = { p.next s with location := p.locate s } := by
  simp only [next, Statement.bytes_of_finish h, Nat.add_zero]

end Progress

/-- What reading a statement comes to. The location of END has been checked before. -/
theorem place_eq_ok_iff {p q : Progress} {s : Statement} {finished : Bool}
    (hp : p.location ≤ memorySize) :
    place p s = .ok (q, finished) ↔
      p.Accepts s ∧ p.next s = q ∧ decide (s.directive? = some .finish) = finished := by
  unfold place
  cases hmnemonic : s.mnemonic with
  | none =>
    constructor
    · intro h
      cases h
    · intro h
      obtain ⟨mnemonic, hknown, -⟩ := h.1.known
      rw [hmnemonic] at hknown
      cases hknown
  | some mnemonic =>
    have hdirective : Directive.ofName? mnemonic = s.directive? := by
      rw [Statement.directive?, hmnemonic, Option.bind_some]
    simp only [hdirective, ok_of_bind, applyStart_eq_ok_iff, define_eq_ok_iff, and_assoc,
      exists_and_left, exists_eq_left']
    by_cases hfinish : s.directive? = some .finish
    · simp only [if_pos hfinish, decide_eq_true hfinish]
      constructor
      · intro h
        obtain ⟨-, hunbound, h⟩ := h
        cases h
        exact ⟨Progress.accepts_of_finish hp hfinish hunbound, Progress.next_of_finish hfinish, rfl⟩
      · intro h
        obtain ⟨haccepts, hq, hfinished⟩ := h
        refine ⟨haccepts.start, haccepts.unbound, ?_⟩
        rw [← hq, ← hfinished, Progress.next_of_finish hfinish]
        rfl
    · simp only [if_neg hfinish, decide_eq_false hfinish, ok_of_bind,
        storage_eq_ok_iff hmnemonic hfinish, reserve_eq_ok_iff, and_assoc, exists_and_left,
        exists_eq_left']
      constructor
      · intro h
        obtain ⟨hstart, hunbound, hknown, hsized, hfits, h⟩ := h
        cases h
        exact ⟨⟨hknown, hstart, hsized, hunbound, hfits⟩, rfl, rfl⟩
      · intro h
        obtain ⟨haccepts, hq, hfinished⟩ := h
        rw [← hq, ← hfinished]
        exact ⟨haccepts.start, haccepts.unbound, haccepts.known, haccepts.sized, haccepts.fits, rfl⟩

/-- What reading comes to for a statement that is neither START nor END. -/
theorem place_of_ne {p : Progress} {s : Statement} {name : String} (hname : s.mnemonic = some name)
    (hstart : s.directive? ≠ some .start) (hfinish : s.directive? ≠ some .finish) :
    place p s = (do
      let q ← define { p with fresh := false } s.directive? s.label
      let bytes ← storage name s.directive? s.operand
      let r ← reserve q bytes
      .ok (r, false)) := by
  have hdirective : Directive.ofName? name = s.directive? := by
    rw [Statement.directive?, hname, Option.bind_some]
  simp only [place, hname, hdirective, applyStart, if_neg hstart, if_neg hfinish]
  rfl

/-- A statement that defines nothing only moves the location on. -/
theorem place_of_storage {p : Progress} {s : Statement} {name : String} {bytes : Nat}
    (hname : s.mnemonic = some name) (hlabel : s.label = none)
    (hstart : s.directive? ≠ some .start) (hfinish : s.directive? ≠ some .finish)
    (hbytes : storage name s.directive? s.operand = .ok bytes) :
    place p s =
      if p.location + bytes ≤ memorySize then
        .ok ({ p with location := p.location + bytes, fresh := false }, false)
      else .error .programTooLarge := by
  rw [place_of_ne hname hstart hfinish, hlabel, hbytes]
  show (if p.location + bytes ≤ memorySize then _ else _ : Except _ _) >>= _ = _
  split <;> rfl

/-! ### All statements -/

/-- The progress behind all statements. -/
def Progress.nextAll (p : Progress) (S : List Statement) : Progress := S.foldl next p

theorem finishLabel?_of_finish {s : Statement} {rest : List Statement}
    (h : s.directive? = some .finish) : finishLabel? (s :: rest) = s.operand := by
  simp [finishLabel?, h]

theorem finishLabel?_of_not_finish {s : Statement} {rest : List Statement}
    (h : s.directive? ≠ some .finish) : finishLabel? (s :: rest) = finishLabel? rest := by
  simp [finishLabel?, h]

theorem statements_of_none {text : String} {rest : List String}
    (h : Statement.parse text = none) : statements (text :: rest) = statements rest := by
  simp [statements, h]

theorem statements_of_some {text : String} {rest : List String} {s : Statement}
    (h : Statement.parse text = some s) :
    statements (text :: rest) =
      if s.directive? = some .finish then [s] else s :: statements rest := by
  simp [statements, h, upToFinish]

theorem Progress.Accepts.location_next {p : Progress} {s : Statement} (h : p.Accepts s) :
    (p.next s).location ≤ memorySize :=
  h.fits

section Scan

variable {p q : Progress} {s : Statement} {line : Nat} {text : String} {rest : List String}

theorem scan_of_none (hparse : Statement.parse text = none) :
    scan p line (text :: rest) = scan p (line + 1) rest := by
  rw [scan, hparse]

theorem scan_of_accepts (hp : p.location ≤ memorySize) (hparse : Statement.parse text = some s)
    (haccepts : p.Accepts s) (hfinish : s.directive? ≠ some .finish) :
    scan p line (text :: rest) = scan (p.next s) (line + 1) rest := by
  have hplace := (place_eq_ok_iff hp).2 ⟨haccepts, rfl, rfl⟩
  simp only [scan, hparse, hplace, decide_eq_false hfinish]

theorem scan_of_finish (hp : p.location ≤ memorySize) (hparse : Statement.parse text = some s)
    (haccepts : p.Accepts s) (hfinish : s.directive? = some .finish) :
    scan p line (text :: rest) = .ok (p.next s, s.operand.map fun label => (line, label)) := by
  have hplace := (place_eq_ok_iff hp).2 ⟨haccepts, rfl, rfl⟩
  simp only [scan, hparse, hplace, decide_eq_true hfinish]

theorem accepts_of_scan {result : Progress × Option (Nat × String)} (hp : p.location ≤ memorySize)
    (hparse : Statement.parse text = some s) (h : scan p line (text :: rest) = .ok result) :
    p.Accepts s := by
  cases hplace : place p s with
  | error cause => simp [scan, hparse, hplace] at h
  | ok result => exact ((place_eq_ok_iff hp).1 hplace).1

/-- The scan accepts the lines whose statements are accepted, up to END. -/
theorem scan_eq_ok_iff (hp : p.location ≤ memorySize) (line : Nat) (lines : List String)
    (label : Option String) :
    (∃ number, scan p line lines = .ok (q, label.map fun label => (number, label))) ↔
      p.AcceptsAll (statements lines) ∧ p.nextAll (statements lines) = q ∧
        finishLabel? (statements lines) = label := by
  induction lines generalizing p line with
  | nil =>
    constructor
    · intro h
      obtain ⟨number, h⟩ := h
      cases label with
      | none =>
        cases h
        exact ⟨trivial, rfl, rfl⟩
      | some label => cases h
    · intro h
      obtain ⟨-, hq, hlabel⟩ := h
      rw [← hq, ← hlabel]
      exact ⟨line, rfl⟩
  | cons text rest ih =>
    cases hparse : Statement.parse text with
    | none =>
      rw [scan_of_none hparse, statements_of_none hparse]
      exact ih hp (line + 1)
    | some s =>
      rw [statements_of_some hparse]
      by_cases hfinish : s.directive? = some .finish
      · rw [if_pos hfinish, finishLabel?_of_finish hfinish]
        constructor
        · intro h
          obtain ⟨number, h⟩ := h
          have haccepts := accepts_of_scan hp hparse h
          rw [scan_of_finish hp hparse haccepts hfinish] at h
          simp only [Except.ok.injEq, Prod.mk.injEq] at h
          obtain ⟨hnext, hlabel⟩ := h
          have hsame := congrArg (Option.map Prod.snd) hlabel
          simp only [Option.map_map, Function.comp_def, Option.map_id'] at hsame
          exact ⟨⟨haccepts, trivial⟩, hnext, hsame⟩
        · intro h
          obtain ⟨⟨haccepts, -⟩, hq, hlabel⟩ := h
          rw [scan_of_finish hp hparse haccepts hfinish, ← hq, ← hlabel]
          exact ⟨line, rfl⟩
      · rw [if_neg hfinish, finishLabel?_of_not_finish hfinish]
        constructor
        · intro h
          obtain ⟨number, h⟩ := h
          have haccepts := accepts_of_scan hp hparse h
          rw [scan_of_accepts hp hparse haccepts hfinish] at h
          have hrest := (ih haccepts.location_next (line + 1)).1 ⟨number, h⟩
          exact ⟨⟨haccepts, hrest.1⟩, hrest.2⟩
        · intro h
          obtain ⟨⟨haccepts, hall⟩, hrest⟩ := h
          rw [scan_of_accepts hp hparse haccepts hfinish]
          exact (ih haccepts.location_next (line + 1)).2 ⟨hall, hrest⟩

end Scan

/-! ### What statements need of each other -/

namespace Progress

/-- The address of the first of the statements ahead. -/
def reach (p : Progress) : List Statement → Nat
  | [] => p.location
  | s :: _ => p.locate s

/-- What the statements ahead must be like, all at once. -/
structure AcceptsTogether (p : Progress) (S : List Statement) : Prop where
  known : ∀ s ∈ S, s.Known
  startFirst : ∀ s ∈ S.tail, s.directive? ≠ some .start
  start : ∀ s ∈ S.head?, s.directive? = some .start → p.fresh = true ∧ s.address?.isSome
  sized : ∀ s ∈ S, s.Sized
  distinct : (keys S).Nodup
  unbound : ∀ key ∈ keys S, p.symbols.labels.find? key = none
  fits : p.reach S + extent S ≤ memorySize

theorem find?_bind (p : Progress) (s : Statement) (key : String) :
    (p.bind s).labels.find? key =
      if s.key? = some key then some (p.locate s) else p.symbols.labels.find? key := by
  unfold bind
  cases s.key? with
  | none => simp
  | some label =>
    by_cases hkey : key = label
    · simp [LabelMap.find?_insert, hkey]
    · have hother : label ≠ key := fun h => hkey h.symm
      simp [LabelMap.find?_insert, hkey, hother]

theorem locate_of_not_start {p : Progress} {s : Statement} (h : s.directive? ≠ some .start) :
    p.locate s = p.location := by
  simp [locate, h]

/-- Behind a statement no START is accepted. -/
theorem AcceptsTogether.not_start {p : Progress} {s t : Statement} {rest : List Statement}
    (h : (p.next s).AcceptsTogether rest) (ht : t ∈ rest) : t.directive? ≠ some .start := by
  cases rest with
  | nil => cases ht
  | cons first rest =>
    rcases List.mem_cons.1 ht with rfl | ht
    · intro hstart
      have hfresh := (h.start t rfl hstart).1
      cases hfresh
    · exact h.startFirst t ht

theorem AcceptsTogether.reach_next {p : Progress} {s : Statement} {rest : List Statement}
    (h : (p.next s).AcceptsTogether rest) : (p.next s).reach rest = p.locate s + s.bytes := by
  cases rest with
  | nil => rfl
  | cons t rest => exact locate_of_not_start (h.not_start List.mem_cons_self)

theorem acceptsTogether_cons_iff {p : Progress} {s : Statement} {rest : List Statement} :
    p.AcceptsTogether (s :: rest) ↔ p.Accepts s ∧ (p.next s).AcceptsTogether rest := by
  constructor
  · intro h
    have hfits := h.fits
    rw [extent_cons] at hfits
    change p.locate s + (s.bytes + extent rest) ≤ memorySize at hfits
    obtain ⟨hfirst, hrest⟩ := nodup_keys_cons_iff.1 h.distinct
    refine ⟨⟨h.known s List.mem_cons_self, h.start s rfl, h.sized s List.mem_cons_self,
      fun key hkey => h.unbound key (mem_keys_cons_iff.2 (Or.inl hkey)), by omega⟩, ?_⟩
    have hreach : (p.next s).reach rest = p.locate s + s.bytes := by
      cases rest with
      | nil => rfl
      | cons t rest => exact locate_of_not_start (h.startFirst t List.mem_cons_self)
    refine
      { known := fun t ht => h.known t (List.mem_cons_of_mem _ ht)
        startFirst := fun t ht => h.startFirst t (List.mem_of_mem_tail ht)
        start := ?_
        sized := fun t ht => h.sized t (List.mem_cons_of_mem _ ht)
        distinct := hrest
        unbound := ?_
        fits := by omega }
    · intro t ht hstart
      exact absurd hstart (h.startFirst t (List.mem_of_mem_head? ht))
    · intro key hkey
      have hother : s.key? ≠ some key := fun hs => hfirst key hs hkey
      show (p.bind s).labels.find? key = none
      rw [find?_bind, if_neg hother]
      exact h.unbound key (mem_keys_cons_iff.2 (Or.inr hkey))
  · intro h
    obtain ⟨hs, hrest⟩ := h
    have hunbound : ∀ key ∈ keys rest, s.key? ≠ some key ∧ p.symbols.labels.find? key = none := by
      intro key hkey
      have hnone : (p.bind s).labels.find? key = none := hrest.unbound key hkey
      rw [find?_bind] at hnone
      by_cases hsame : s.key? = some key
      · simp [hsame] at hnone
      · rw [if_neg hsame] at hnone
        exact ⟨hsame, hnone⟩
    have hfits := hrest.fits
    rw [hrest.reach_next] at hfits
    refine
      { known := List.forall_mem_cons.2 ⟨hs.known, hrest.known⟩
        startFirst := fun t ht => hrest.not_start ht
        start := ?_
        sized := List.forall_mem_cons.2 ⟨hs.sized, hrest.sized⟩
        distinct := ?_
        unbound := ?_
        fits := ?_ }
    · intro t ht hstart
      cases ht
      exact hs.start hstart
    · rw [nodup_keys_cons_iff]
      exact ⟨fun key hkey hmem => (hunbound key hmem).1 hkey, hrest.distinct⟩
    · intro key hkey
      rcases mem_keys_cons_iff.1 hkey with hkey | hkey
      · exact hs.unbound key hkey
      · exact (hunbound key hkey).2
    · rw [extent_cons]
      show p.locate s + (s.bytes + extent rest) ≤ memorySize
      omega

theorem acceptsAll_iff {p : Progress} (hp : p.location ≤ memorySize) (S : List Statement) :
    p.AcceptsAll S ↔ p.AcceptsTogether S := by
  induction S generalizing p with
  | nil =>
    constructor
    · intro _
      exact ⟨by simp, by simp, by simp, by simp, by simp [keys], by simp [keys], hp⟩
    · intro _
      trivial
  | cons s rest ih =>
    rw [acceptsTogether_cons_iff]
    show p.Accepts s ∧ (p.next s).AcceptsAll rest ↔ _
    constructor
    · intro h
      exact ⟨h.1, (ih h.1.location_next).1 h.2⟩
    · intro h
      exact ⟨h.1, (ih h.1.location_next).2 h.2⟩

/-! ### What is known in the end -/

theorem nextAll_cons (p : Progress) (s : Statement) (rest : List Statement) :
    p.nextAll (s :: rest) = (p.next s).nextAll rest := rfl

theorem location_nextAll {p : Progress} {S : List Statement} (h : p.AcceptsTogether S) :
    (p.nextAll S).location = p.reach S + extent S := by
  induction S generalizing p with
  | nil => rfl
  | cons s rest ih =>
    obtain ⟨-, hrest⟩ := acceptsTogether_cons_iff.1 h
    rw [nextAll_cons, ih hrest, hrest.reach_next, extent_cons]
    show p.locate s + s.bytes + extent rest = p.locate s + (s.bytes + extent rest)
    omega

/-- A label has the address that it had before, or that of its statement. -/
theorem find?_nextAll {p : Progress} {S : List Statement} (h : p.AcceptsTogether S)
    (key : String) (address : Nat) :
    (p.nextAll S).symbols.labels.find? key = some address ↔
      p.symbols.labels.find? key = some address ∨ Binds (p.reach S) S key address := by
  induction S generalizing p with
  | nil =>
    constructor
    · exact Or.inl
    · intro h
      rcases h with hfind | hbinds
      · exact hfind
      · cases key_of_binds hbinds
  | cons s rest ih =>
    obtain ⟨hs, hrest⟩ := acceptsTogether_cons_iff.1 h
    have hbind : (p.next s).symbols.labels.find? key =
        if s.key? = some key then some (p.locate s) else p.symbols.labels.find? key :=
      find?_bind p s key
    rw [nextAll_cons, ih hrest, hrest.reach_next, hbind, binds_cons_iff]
    show _ ↔ p.symbols.labels.find? key = some address ∨
      (s.key? = some key ∧ address = p.locate s) ∨ Binds (p.locate s + s.bytes) rest key address
    by_cases hkey : s.key? = some key
    · simp [hkey, hs.unbound key hkey, eq_comm]
    · simp [hkey]

/-- Behind a statement the start address and the name of the program stay as they are. -/
theorem start_nextAll {p : Progress} {S : List Statement}
    (hS : ∀ s ∈ S, s.directive? ≠ some .start) :
    (p.nextAll S).startAddress = p.startAddress ∧ (p.nextAll S).programName = p.programName := by
  induction S generalizing p with
  | nil => exact ⟨rfl, rfl⟩
  | cons s rest ih =>
    obtain ⟨hs, hrest⟩ := List.forall_mem_cons.1 hS
    obtain ⟨haddress, hname⟩ := ih (p := p.next s) hrest
    rw [nextAll_cons, haddress, hname]
    simp [next, hs]

theorem start_nextAll_initial {S : List Statement} (h : initial.AcceptsTogether S) :
    (initial.nextAll S).startAddress = origin S ∧ (initial.nextAll S).programName = title? S := by
  cases S with
  | nil => exact ⟨rfl, rfl⟩
  | cons s rest =>
    obtain ⟨-, hrest⟩ := acceptsTogether_cons_iff.1 h
    obtain ⟨haddress, hname⟩ := start_nextAll (p := initial.next s) fun t ht => hrest.not_start ht
    rw [nextAll_cons, haddress, hname]
    by_cases hstart : s.directive? = some .start
    · simp [next, locate, initial, origin, title?, hstart]
    · simp [next, initial, origin, title?, hstart]

theorem reach_initial (S : List Statement) : initial.reach S = origin S := by
  cases S with
  | nil => rfl
  | cons s rest => rfl

theorem acceptsTogether_initial_iff {S : List Statement} :
    (initial.AcceptsTogether S ∧
        ∀ label, finishLabel? S = some label → Text.upperCase label ∈ keys S) ↔
      Acceptable S := by
  constructor
  · intro h
    obtain ⟨h, hentry⟩ := h
    have hfits := h.fits
    rw [reach_initial] at hfits
    exact ⟨h.known, h.startFirst, fun s hs hstart => (h.start s hs hstart).2, h.sized, h.distinct,
      fits_take_iff.2 hfits, hentry⟩
  · intro h
    have hfits := fits_take_iff.1 h.fits
    refine ⟨⟨h.known, h.startFirst, ?_, h.sized, h.distinct, ?_, ?_⟩, h.entry⟩
    · intro s hs hstart
      exact ⟨rfl, h.startAddress s hs hstart⟩
    · intro key _
      rfl
    · rw [reach_initial]
      exact hfits

/-- Where execution starts. -/
def Enters (p : Progress) (label : Option String) (address : Nat) : Prop :=
  match label with
  | some label => p.symbols.labels.find? (Text.upperCase label) = some address
  | none => p.startAddress = address

end Progress

theorem executionStart_eq_ok_iff {p : Progress} {number address : Nat} {label : Option String} :
    executionStart p (label.map fun label => (number, label)) = .ok address ↔
      p.Enters label address := by
  cases label with
  | none => simp [executionStart, Progress.Enters]
  | some label =>
    unfold Progress.Enters
    simp only [executionStart, Option.map_some, SymbolTable.get, SymbolTable.find?]
    cases hfind : p.symbols.labels.find? (Text.upperCase label) with
    | none => simp [Except.mapError]
    | some found => simp [Except.mapError]

/-- What is known when a source has been read. -/
def known (lines : List String) : Progress := Progress.initial.nextAll (statements lines)

/-- The result that goes with what is known in the end. -/
def Progress.summary (p : Progress) (address : Nat) : Summary where
  programName := p.programName
  startAddress := p.startAddress
  programLength := p.location - p.startAddress
  executionStart := address

/-- A run succeeds when all statements are accepted and END names a label, and then its result is
what is known in the end. -/
theorem run_eq_ok_iff {lines : List String} {table : SymbolTable} {summary : Summary} :
    run lines = .ok (table, summary) ↔
      Progress.initial.AcceptsTogether (statements lines) ∧
        ∃ address, (known lines).Enters (finishLabel? (statements lines)) address ∧
          (known lines).symbols = table ∧ (known lines).summary address = summary := by
  have hinitial : Progress.initial.location ≤ memorySize := by decide
  unfold run
  rw [ok_of_bind, ← Progress.acceptsAll_iff hinitial]
  constructor
  · intro h
    obtain ⟨⟨q, finish⟩, hscan, h⟩ := h
    rw [ok_of_bind] at h
    obtain ⟨address, hentry, h⟩ := h
    cases h
    obtain ⟨number, label, rfl⟩ :
        ∃ number label, finish = Option.map (fun label : String => (number, label)) label := by
      cases finish with
      | none => exact ⟨0, none, rfl⟩
      | some finish => exact ⟨finish.1, some finish.2, rfl⟩
    obtain ⟨hall, rfl, rfl⟩ := (scan_eq_ok_iff hinitial 1 lines label).1 ⟨number, hscan⟩
    exact ⟨hall, address, executionStart_eq_ok_iff.1 hentry, rfl, rfl⟩
  · intro h
    obtain ⟨hall, address, hentry, rfl, rfl⟩ := h
    obtain ⟨number, hscan⟩ := (scan_eq_ok_iff hinitial 1 lines _).2 ⟨hall, rfl, rfl⟩
    refine ⟨_, hscan, ?_⟩
    rw [ok_of_bind]
    exact ⟨address, executionStart_eq_ok_iff.2 hentry, rfl⟩

theorem find?_known {lines : List String}
    (h : Progress.initial.AcceptsTogether (statements lines)) (key : String) (address : Nat) :
    (known lines).symbols.labels.find? key = some address ↔
      Binds (origin (statements lines)) (statements lines) key address := by
  rw [known, Progress.find?_nextAll h, Progress.reach_initial]
  constructor
  · intro h
    rcases h with hnone | hbinds
    · cases hnone
    · exact hbinds
  · exact Or.inr

/-- END has an address when its operand is a label. -/
theorem exists_enters_iff {lines : List String}
    (h : Progress.initial.AcceptsTogether (statements lines)) :
    (∃ address, (known lines).Enters (finishLabel? (statements lines)) address) ↔
      ∀ label, finishLabel? (statements lines) = some label →
        Text.upperCase label ∈ keys (statements lines) := by
  cases finishLabel? (statements lines) with
  | none => simp [Progress.Enters]
  | some label =>
    simp only [Progress.Enters, find?_known h, Option.some.injEq, forall_eq']
    constructor
    · intro h
      obtain ⟨address, hbinds⟩ := h
      exact key_of_binds hbinds
    · exact exists_binds

theorem layout_known {lines : List String} {address : Nat}
    (h : Progress.initial.AcceptsTogether (statements lines))
    (hentry : (known lines).Enters (finishLabel? (statements lines)) address) :
    Layout (statements lines) (known lines).symbols ((known lines).summary address) := by
  obtain ⟨hstart, hname⟩ := Progress.start_nextAll_initial h
  have hlocation := Progress.location_nextAll h
  rw [Progress.reach_initial] at hlocation
  refine ⟨find?_known h, hname, hstart, ?_, ?_, ?_⟩
  · show (known lines).location - (known lines).startAddress = extent (statements lines)
    rw [known, hlocation, hstart]
    omega
  · intro label hlabel
    rw [hlabel] at hentry
    exact (find?_known h _ _).1 hentry
  · intro hnone
    rw [hnone] at hentry
    exact hentry.symm.trans hstart

/-- A source that has been assembled is acceptable, and the results are its layout. -/
theorem layout_of_run {lines : List String} {table : SymbolTable} {summary : Summary}
    (h : run lines = .ok (table, summary)) :
    Acceptable (statements lines) ∧ Layout (statements lines) table summary := by
  obtain ⟨hall, address, hentry, rfl, rfl⟩ := run_eq_ok_iff.1 h
  refine ⟨Progress.acceptsTogether_initial_iff.1 ⟨hall, ?_⟩, layout_known hall hentry⟩
  exact (exists_enters_iff hall).1 ⟨address, hentry⟩

/-- Pass One assembles exactly the acceptable sources, and what it finds out is their layout. -/
theorem run_agrees (lines : List String) :
    ((∃ table summary, run lines = .ok (table, summary)) ↔ Acceptable (statements lines)) ∧
      ∀ table summary, run lines = .ok (table, summary) →
        Layout (statements lines) table summary := by
  constructor
  · rw [← Progress.acceptsTogether_initial_iff]
    simp only [run_eq_ok_iff]
    constructor
    · intro hrun
      obtain ⟨table, summary, h, address, hentry, -, -⟩ := hrun
      exact ⟨h, (exists_enters_iff h).1 ⟨address, hentry⟩⟩
    · intro hsource
      obtain ⟨h, hlabels⟩ := hsource
      obtain ⟨address, hentry⟩ := (exists_enters_iff h).2 hlabels
      exact ⟨_, _, h, address, hentry, rfl, rfl⟩
  · intro table summary hrun
    obtain ⟨h, address, hentry, rfl, rfl⟩ := run_eq_ok_iff.1 hrun
    exact layout_known h hentry

/-- Lower-case labels, a comment, a label that is used before it is defined, and an END. -/
def copying : List String :=
  ["COPY  START 1000", "first LDA   ALPHA", ". comment", "alpha RESW  1", "      END   First"]

def copyingTable : SymbolTable :=
  ⟨⟨[("ALPHA", 0x1003), ("COPY", 0x1000), ("FIRST", 0x1000)], by decide⟩⟩

theorem run_copying : run copying = .ok (copyingTable, ⟨some "COPY", 0x1000, 6, 0x1000⟩) := by
  rfl

theorem copying_agrees :
    Acceptable (statements copying) ∧
      Layout (statements copying) copyingTable ⟨some "COPY", 0x1000, 6, 0x1000⟩ := by
  have hagrees := run_agrees copying
  exact ⟨hagrees.1.1 ⟨_, _, run_copying⟩, hagrees.2 _ _ run_copying⟩

end SicMachine.PassOne
