import SicMachine.SymbolTable

/-!
Symbol tables as the sequences of calls that make them up. A call defines its
label unless a call before it has defined one with the same upper-case form, so
the table answers for each label with the first call that has its upper-case
form, whatever follows.
-/
namespace SicMachine.SymbolTable

/-- The table as a call leaves it, whether or not it fails. -/
def call (table : SymbolTable) (label : String) (address : Nat) : SymbolTable :=
  ((define label address).on table).1

/-- The table behind these calls, which begin with an empty one. -/
def ofCalls (calls : List (String × Nat)) : SymbolTable :=
  calls.foldl (fun table call => table.call call.1 call.2) empty

/-- The call succeeds behind the calls before it. -/
def Succeeds (before : List (String × Nat)) (call : String × Nat) : Prop :=
  ∃ table, (ofCalls before).add call.1 call.2 = .ok table

/-- The first call that succeeds for a label of this upper-case form has this address. -/
def FirstDefines (calls : List (String × Nat)) (label : String) (address : Nat) : Prop :=
  ∃ before spelling after, calls = before ++ (spelling, address) :: after ∧
    Text.upperCase spelling = Text.upperCase label ∧ Succeeds before (spelling, address) ∧
      ∀ earlier other between, before = earlier ++ other :: between →
        Text.upperCase other.1 = Text.upperCase label → ¬ Succeeds earlier other

variable {table : SymbolTable}

theorem add_eq_ok_iff {added : SymbolTable} {label : String} {address : Nat} :
    table.add label address = .ok added ↔
      table.find? label = none ∧
        added = ⟨table.labels.insert (Text.upperCase label) address⟩ := by
  unfold add find?
  simp only
  cases table.labels.find? (Text.upperCase label) with
  | some value => simp
  | none => simp [eq_comm]

theorem call_of_ok {added : SymbolTable} {label : String} {address : Nat}
    (h : table.add label address = .ok added) : table.call label address = added := by
  rw [call, (performs_define label address).on_of_ok h]

/-- A call that fails has changed nothing. -/
theorem call_of_error {error : Error} {label : String} {address : Nat}
    (h : table.add label address = .error error) : table.call label address = table := by
  rw [call, (performs_define label address).on_of_error h]

theorem call_of_none {label : String} (h : table.find? label = none) (address : Nat) :
    table.call label address = ⟨table.labels.insert (Text.upperCase label) address⟩ :=
  call_of_ok (add_eq_ok_iff.2 ⟨h, rfl⟩)

theorem call_of_some {label : String} {value : Nat} (h : table.find? label = some value)
    (address : Nat) : table.call label address = table := by
  cases hadd : table.add label address with
  | ok added =>
    rw [(add_eq_ok_iff.1 hadd).1] at h
    cases h
  | error error => exact call_of_error hadd

/-- A call adds an answer where there has been none, and changes no other. -/
theorem find?_call (table : SymbolTable) (label : String) (address : Nat) (asked : String) :
    (table.call label address).find? asked =
      (table.find? asked).or
        (if Text.upperCase label = Text.upperCase asked then some address else none) := by
  by_cases hlabel : Text.upperCase label = Text.upperCase asked
  · have hsame : table.find? asked = table.find? label := by rw [find?, find?, hlabel]
    rw [if_pos hlabel, hsame]
    cases hfound : table.find? label with
    | some value =>
      rw [call_of_some hfound, hsame, hfound]
      rfl
    | none =>
      rw [call_of_none hfound, find?, LabelMap.find?_insert, if_pos hlabel.symm]
      rfl
  · rw [if_neg hlabel, Option.or_none]
    cases hfound : table.find? label with
    | some value => rw [call_of_some hfound]
    | none =>
      rw [call_of_none hfound, find?, LabelMap.find?_insert, if_neg (Ne.symm hlabel)]
      rfl

/-- A property of addresses that holds of the bindings before a call and of the call. -/
theorem forall_bindings_call {P : Nat → Prop}
    (htable : ∀ binding ∈ table.labels.bindings, P binding.2) (label : String) {address : Nat}
    (haddress : P address) :
    ∀ binding ∈ (table.call label address).labels.bindings, P binding.2 := by
  intro binding hbinding
  cases hfound : table.find? label with
  | some value =>
    rw [call_of_some hfound] at hbinding
    exact htable binding hbinding
  | none =>
    rw [call_of_none hfound] at hbinding
    rcases LabelMap.mem_insertSorted hbinding with rfl | hbinding
    · exact haddress
    · exact htable binding hbinding

theorem forall_bindings_ofCalls {P : Nat → Prop} {calls : List (String × Nat)}
    (h : ∀ call ∈ calls, P call.2) : ∀ binding ∈ (ofCalls calls).labels.bindings, P binding.2 := by
  have hfold : ∀ table : SymbolTable, (∀ binding ∈ table.labels.bindings, P binding.2) →
      ∀ binding ∈
        (calls.foldl (fun table call => table.call call.1 call.2) table).labels.bindings,
        P binding.2 := by
    induction calls with
    | nil => exact fun table htable => htable
    | cons call calls ih =>
      intro table htable
      obtain ⟨hcall, hcalls⟩ := List.forall_mem_cons.1 h
      exact ih hcalls _ (forall_bindings_call htable call.1 hcall)
  exact hfold empty (by simp [empty, LabelMap.empty])

/-- The address of the first call whose label has this upper-case form. -/
def firstCall? (calls : List (String × Nat)) (label : String) : Option Nat :=
  (calls.find? fun call => Text.upperCase call.1 == Text.upperCase label).map Prod.snd

theorem firstCall?_cons (call : String × Nat) (calls : List (String × Nat)) (label : String) :
    firstCall? (call :: calls) label =
      (if Text.upperCase call.1 = Text.upperCase label then some call.2 else none).or
        (firstCall? calls label) := by
  by_cases hlabel : Text.upperCase call.1 = Text.upperCase label
  · simp [firstCall?, hlabel]
  · simp [firstCall?, hlabel]

theorem find?_foldl_call (calls : List (String × Nat)) (table : SymbolTable) (label : String) :
    (calls.foldl (fun table call => table.call call.1 call.2) table).find? label =
      (table.find? label).or (firstCall? calls label) := by
  induction calls generalizing table with
  | nil => simp [firstCall?]
  | cons call calls ih => rw [List.foldl_cons, ih, find?_call, Option.or_assoc, firstCall?_cons]

theorem find?_ofCalls (calls : List (String × Nat)) (label : String) :
    (ofCalls calls).find? label = firstCall? calls label := by
  have hempty : empty.find? label = none := rfl
  rw [ofCalls, find?_foldl_call, hempty, Option.none_or]

/-- A call succeeds unless a call before it had the same upper-case form. -/
theorem succeeds_iff {before : List (String × Nat)} {call : String × Nat} :
    Succeeds before call ↔
      ∀ other ∈ before, Text.upperCase other.1 ≠ Text.upperCase call.1 := by
  have hnone : firstCall? before call.1 = none ↔
      ∀ other ∈ before, Text.upperCase other.1 ≠ Text.upperCase call.1 := by
    simp [firstCall?]
  rw [← hnone, ← find?_ofCalls]
  constructor
  · intro h
    obtain ⟨added, hadd⟩ := h
    exact (add_eq_ok_iff.1 hadd).1
  · intro h
    exact ⟨_, add_eq_ok_iff.2 ⟨h, rfl⟩⟩

/-- The table finds what the first call that defines a label has given it. -/
theorem firstDefines_iff {calls : List (String × Nat)} {label : String} {address : Nat} :
    FirstDefines calls label address ↔ (ofCalls calls).find? label = some address := by
  rw [find?_ofCalls, firstCall?, Option.map_eq_some_iff]
  simp only [List.find?_eq_some_iff_append, beq_iff_eq, Bool.not_eq_true', beq_eq_false_iff_ne]
  constructor
  · rintro ⟨before, spelling, after, rfl, hlabel, hsucceeds, -⟩
    have hbefore := succeeds_iff.1 hsucceeds
    simp only [hlabel] at hbefore
    exact ⟨(spelling, address), ⟨hlabel, before, after, rfl, hbefore⟩, rfl⟩
  · rintro ⟨⟨spelling, _⟩, ⟨hlabel, before, after, hcalls, hbefore⟩, rfl⟩
    refine ⟨before, spelling, after, hcalls, hlabel, ?_, ?_⟩
    · apply succeeds_iff.2
      rw [hlabel]
      exact hbefore
    · rintro earlier other between rfl hother
      exact absurd hother (hbefore other (by simp))

end SicMachine.SymbolTable
