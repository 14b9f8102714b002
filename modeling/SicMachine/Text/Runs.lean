/-!
Text in which a character that is repeated is kept with its count. Characters
are taken from either end, and fields run by run, so a long run costs no more
than a short one.
-/
namespace SicMachine.Text

/-- A character and how often it follows itself. -/
structure Run where
  char : Char
  further : Nat

namespace Run

def chars (run : Run) : List Char := List.replicate (run.further + 1) run.char

/-- The characters of runs one after the other. -/
def spell (runs : List Run) : List Char := runs.flatMap chars

/-- The number of characters. -/
def total : List Run → Nat
  | [] => 0
  | run :: rest => run.further + 1 + total rest

/-- Puts a character in front. -/
def push (c : Char) : List Run → List Run
  | [] => [⟨c, 0⟩]
  | run :: rest =>
    if run.char = c then { run with further := run.further + 1 } :: rest else ⟨c, 0⟩ :: run :: rest

def ofChars (text : List Char) : List Run := text.foldr push []

/-- Takes the first character off. -/
def pop : List Run → Option (Char × List Run)
  | [] => none
  | ⟨c, 0⟩ :: rest => some (c, rest)
  | ⟨c, further + 1⟩ :: rest => some (c, ⟨c, further⟩ :: rest)

/-- Takes the last character off. -/
def popLast (runs : List Run) : Option (List Run × Char) :=
  (pop runs.reverse).map fun (c, rest) => (rest.reverse, c)

/-- Text over and over again; one run stays one run. -/
def repeated : Nat → List Run → List Run
  | count + 1, [run] => [{ run with further := count * (run.further + 1) + run.further }]
  | count, runs => (List.replicate count runs).flatten

variable {runs rest : List Run} {c : Char}

theorem spell_nil : spell [] = [] := rfl

theorem spell_cons (run : Run) (rest : List Run) :
    spell (run :: rest) = List.replicate (run.further + 1) run.char ++ spell rest := rfl

theorem spell_append (front back : List Run) : spell (front ++ back) = spell front ++ spell back :=
  List.flatMap_append

theorem spell_eq_nil_iff : spell runs = [] ↔ runs = [] := by
  cases runs with
  | nil => simp [spell_nil]
  | cons run rest => simp [spell_cons]

theorem head?_spell (runs : List Run) : (spell runs).head? = runs.head?.map char := by
  cases runs <;> rfl

theorem length_spell (runs : List Run) : (spell runs).length = total runs := by
  induction runs with
  | nil => rfl
  | cons run rest ih =>
    rw [spell_cons, List.length_append, List.length_replicate, ih, total]

theorem all_spell (p : Char → Bool) (runs : List Run) :
    (spell runs).all p = runs.all fun run => p run.char := by
  induction runs with
  | nil => rfl
  | cons run rest ih =>
    rw [spell_cons, List.all_append, ih, List.all_cons, List.all_replicate,
      if_neg (Nat.succ_ne_zero _)]

theorem mem_spell_iff : c ∈ spell runs ↔ ∃ run ∈ runs, run.char = c := by
  simp [spell, chars, eq_comm]

theorem spell_reverse (runs : List Run) : spell runs.reverse = (spell runs).reverse := by
  induction runs with
  | nil => rfl
  | cons run rest ih =>
    rw [List.reverse_cons, spell_append, ih, spell_cons, spell_cons, List.reverse_append,
      List.reverse_replicate, spell_nil, List.append_nil]

/-! ### Whole runs at the front -/

theorem forall_mem_replicate {p : Char → Bool} (count : Nat) (h : p c = true) :
    ∀ other ∈ List.replicate count c, p other = true := by
  intro other hother
  rwa [List.eq_of_mem_replicate hother]

theorem spell_dropWhile (p : Char → Bool) (runs : List Run) :
    spell (runs.dropWhile fun run => p run.char) = (spell runs).dropWhile p := by
  induction runs with
  | nil => rfl
  | cons run rest ih =>
    rw [spell_cons, List.dropWhile_cons]
    cases hp : p run.char with
    | true =>
      rw [List.dropWhile_append_of_pos (forall_mem_replicate _ hp)]
      exact ih
    | false =>
      rw [List.replicate_succ, List.cons_append, List.dropWhile_cons, hp]
      rfl

theorem spell_takeWhile (p : Char → Bool) (runs : List Run) :
    spell (runs.takeWhile fun run => p run.char) = (spell runs).takeWhile p := by
  induction runs with
  | nil => rfl
  | cons run rest ih =>
    rw [spell_cons, List.takeWhile_cons]
    cases hp : p run.char with
    | true =>
      rw [List.takeWhile_append_of_pos (forall_mem_replicate _ hp), if_pos rfl, spell_cons, ih]
    | false =>
      rw [List.replicate_succ, List.cons_append, List.takeWhile_cons, hp]
      rfl

/-! ### Single characters -/

theorem spell_push (c : Char) (runs : List Run) : spell (push c runs) = c :: spell runs := by
  cases runs with
  | nil => rfl
  | cons run rest =>
    rw [push]
    split
    · next h =>
      rw [spell_cons, spell_cons, h, List.replicate_succ, List.cons_append]
    · rfl

theorem spell_of_pop (h : pop runs = some (c, rest)) : spell runs = c :: spell rest := by
  unfold pop at h
  split at h
  · cases h
  · cases h
    rfl
  · cases h
    rfl

theorem pop_eq_none_iff : pop runs = none ↔ runs = [] := by
  unfold pop
  split <;> simp

theorem spell_of_popLast (h : popLast runs = some (rest, c)) : spell runs = spell rest ++ [c] := by
  obtain ⟨⟨last, others⟩, hpop, hrest⟩ := Option.map_eq_some_iff.1 h
  cases hrest
  have hspell := congrArg List.reverse (spell_of_pop hpop)
  rwa [spell_reverse, List.reverse_reverse, List.reverse_cons, ← spell_reverse] at hspell

theorem popLast_eq_none_iff : popLast runs = none ↔ runs = [] := by
  rw [popLast, Option.map_eq_none_iff, pop_eq_none_iff, List.reverse_eq_nil_iff]

end Run

end SicMachine.Text
