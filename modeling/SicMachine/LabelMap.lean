/-!
Finite maps from labels to addresses. The bindings are kept in increasing
order of their labels, character by character, so two maps with the same
bindings are equal.
-/
namespace SicMachine

structure LabelMap where
  bindings : List (String × Nat)
  increasing : bindings.Pairwise fun left right => left.1 < right.1
  deriving DecidableEq

namespace LabelMap

def empty : LabelMap := ⟨[], .nil⟩

def find? (map : LabelMap) (label : String) : Option Nat := map.bindings.lookup label

def size (map : LabelMap) : Nat := map.bindings.length

/-- Puts a binding in its place and drops an older one of the same label. -/
def insertSorted (label : String) (address : Nat) : List (String × Nat) → List (String × Nat)
  | [] => [(label, address)]
  | (other, value) :: rest =>
    if label < other then (label, address) :: (other, value) :: rest
    else if label = other then (label, address) :: rest
    else (other, value) :: insertSorted label address rest

theorem mem_insertSorted {label : String} {address : Nat} {bindings : List (String × Nat)}
    {binding : String × Nat} (h : binding ∈ insertSorted label address bindings) :
    binding = (label, address) ∨ binding ∈ bindings := by
  induction bindings with
  | nil => simpa [insertSorted] using h
  | cons head rest ih =>
    obtain ⟨other, value⟩ := head
    simp only [insertSorted] at h
    split at h
    · simpa using h
    · split at h
      · rcases List.mem_cons.1 h with h | h
        · exact .inl h
        · exact .inr (List.mem_cons_of_mem _ h)
      · rcases List.mem_cons.1 h with h | h
        · exact .inr (h ▸ List.mem_cons_self)
        · exact (ih h).imp id (List.mem_cons_of_mem _)

theorem increasing_insertSorted (label : String) (address : Nat) {bindings : List (String × Nat)}
    (h : bindings.Pairwise fun left right => left.1 < right.1) :
    (insertSorted label address bindings).Pairwise fun left right => left.1 < right.1 := by
  induction bindings with
  | nil => simp [insertSorted]
  | cons head rest ih =>
    obtain ⟨other, value⟩ := head
    obtain ⟨hhead, hrest⟩ := List.pairwise_cons.1 h
    simp only [insertSorted]
    split
    case isTrue hlt =>
      refine List.pairwise_cons.2 ⟨fun binding hb => ?_, h⟩
      rcases List.mem_cons.1 hb with rfl | hb
      · exact hlt
      · exact String.lt_trans hlt (hhead _ hb)
    case isFalse hlt =>
      split
      case isTrue heq => exact List.pairwise_cons.2 ⟨fun binding hb => heq ▸ hhead _ hb, hrest⟩
      case isFalse hne =>
        refine List.pairwise_cons.2 ⟨fun binding hb => ?_, ih hrest⟩
        rcases mem_insertSorted hb with rfl | hb
        · exact Std.lt_of_le_of_ne (Std.not_lt.1 hlt) (Ne.symm hne)
        · exact hhead _ hb

/-- Binds a label, whether or not it was bound before. -/
def insert (map : LabelMap) (label : String) (address : Nat) : LabelMap :=
  ⟨insertSorted label address map.bindings, increasing_insertSorted label address map.increasing⟩

private theorem lookup_binding (asked label : String) (address : Nat)
    (rest : List (String × Nat)) :
    ((label, address) :: rest).lookup asked =
      if asked = label then some address else rest.lookup asked := by
  by_cases h : asked = label
  · simp [h]
  · rw [List.lookup_cons, beq_eq_false_iff_ne.2 h, if_neg h]

theorem lookup_insertSorted (label asked : String) (address : Nat)
    (bindings : List (String × Nat)) :
    (insertSorted label address bindings).lookup asked =
      if asked = label then some address else bindings.lookup asked := by
  induction bindings with
  | nil => exact lookup_binding ..
  | cons head rest ih =>
    obtain ⟨other, value⟩ := head
    simp only [insertSorted]
    split
    · exact lookup_binding ..
    · split
      case isTrue heq =>
        subst heq
        simp only [lookup_binding]
        split <;> rfl
      case isFalse hne =>
        simp only [lookup_binding, ih]
        grind

theorem find?_insert (map : LabelMap) (label asked : String) (address : Nat) :
    (map.insert label address).find? asked =
      if asked = label then some address else map.find? asked :=
  lookup_insertSorted ..

/-- A label that has not been bound adds one binding. -/
theorem insertSorted_perm {label : String} {bindings : List (String × Nat)}
    (h : ∀ binding ∈ bindings, binding.1 ≠ label) (address : Nat) :
    (insertSorted label address bindings).Perm ((label, address) :: bindings) := by
  induction bindings with
  | nil => exact .refl _
  | cons head rest ih =>
    obtain ⟨other, value⟩ := head
    obtain ⟨hhead, hrest⟩ := List.forall_mem_cons.1 h
    simp only [insertSorted]
    split
    case isTrue => exact .refl _
    case isFalse =>
      rw [if_neg (Ne.symm hhead)]
      exact ((ih hrest).cons _).trans (.swap ..)

/-- When every label is bound once, a look-up finds the binding wherever it stands. -/
theorem lookup_eq_some_iff_mem {bindings : List (String × Nat)}
    (h : bindings.Pairwise fun left right => left.1 ≠ right.1) {label : String} {address : Nat} :
    bindings.lookup label = some address ↔ (label, address) ∈ bindings := by
  rw [List.lookup_eq_some_iff]
  constructor
  · intro hfound
    obtain ⟨before, rest, hsplit, -⟩ := hfound
    rw [hsplit]
    exact List.mem_append_right before List.mem_cons_self
  · intro hmem
    obtain ⟨before, rest, hsplit⟩ := List.append_of_mem hmem
    refine ⟨before, rest, hsplit, fun binding hbinding => ?_⟩
    rw [hsplit, List.pairwise_append] at h
    exact bne_iff_ne.2 (h.2.2 binding hbinding _ List.mem_cons_self).symm

theorem distinct (map : LabelMap) :
    map.bindings.Pairwise fun left right => left.1 ≠ right.1 := by
  refine map.increasing.imp ?_
  intro left right hlt heq
  exact String.lt_irrefl right.1 (heq ▸ hlt)

/-- What a look-up finds is a binding of the map, and each binding is found. -/
theorem find?_eq_some_iff {map : LabelMap} {label : String} {address : Nat} :
    map.find? label = some address ↔ (label, address) ∈ map.bindings :=
  lookup_eq_some_iff_mem map.distinct

theorem insert_perm {map : LabelMap} {label : String} (h : map.find? label = none)
    (address : Nat) : (map.insert label address).bindings.Perm ((label, address) :: map.bindings) := by
  refine insertSorted_perm (fun binding hbinding heq => ?_) address
  have hfound : map.find? binding.1 = some binding.2 := find?_eq_some_iff.2 hbinding
  rw [heq, h] at hfound
  cases hfound

/-- Maps that give every label the same address are equal. -/
theorem eq_of_find? {left right : LabelMap}
    (h : ∀ label, left.find? label = right.find? label) : left = right := by
  have hmem : ∀ binding, binding ∈ left.bindings ↔ binding ∈ right.bindings := by
    rintro ⟨label, address⟩
    rw [← find?_eq_some_iff, ← find?_eq_some_iff, h]
  have hnodup : ∀ map : LabelMap, map.bindings.Nodup :=
    fun map => map.distinct.imp fun hne heq => hne (congrArg Prod.fst heq)
  have hperm := (List.perm_ext_iff_of_nodup (hnodup left) (hnodup right)).2 hmem
  have hbindings : left.bindings = right.bindings :=
    List.Perm.eq_of_pairwise (fun _ _ _ _ hlt hgt => absurd hgt (String.lt_asymm hlt))
      left.increasing right.increasing hperm
  cases left
  cases right
  cases hbindings
  rfl

/-- The map of a list of bindings; of several for one label the last counts. -/
def ofList (bindings : List (String × Nat)) : LabelMap :=
  bindings.foldl (fun map binding => map.insert binding.1 binding.2) empty

theorem find?_foldl_insert {bindings : List (String × Nat)}
    (h : bindings.Pairwise fun left right => left.1 ≠ right.1) (map : LabelMap) (label : String) :
    (bindings.foldl (fun map binding => map.insert binding.1 binding.2) map).find? label =
      (bindings.lookup label).or (map.find? label) := by
  induction bindings generalizing map with
  | nil => rfl
  | cons binding rest ih =>
    obtain ⟨other, value⟩ := binding
    obtain ⟨hother, hrest⟩ := List.pairwise_cons.1 h
    rw [List.foldl_cons, ih hrest, find?_insert, lookup_binding]
    split
    case isTrue heq =>
      have hlater : rest.lookup label = none := by
        refine List.lookup_eq_none_iff.2 fun binding hbinding => ?_
        exact bne_iff_ne.2 (heq ▸ hother binding hbinding)
      rw [hlater]
      rfl
    case isFalse => rfl

/-- The bindings of a map make up the map, in whatever order they come. -/
theorem ofList_of_perm {map : LabelMap} {bindings : List (String × Nat)}
    (h : bindings.Perm map.bindings) : ofList bindings = map := by
  have hdistinct : bindings.Pairwise fun left right => left.1 ≠ right.1 :=
    h.symm.pairwise map.distinct fun hne => hne.symm
  refine eq_of_find? fun label => Option.ext fun address => ?_
  have hempty : empty.find? label = none := rfl
  rw [ofList, find?_foldl_insert hdistinct, hempty, Option.or_none,
    lookup_eq_some_iff_mem hdistinct, find?_eq_some_iff, h.mem_iff]

end LabelMap

end SicMachine
