import SicMachine.Json.Record

/-!
Properties that reading a record keeps. A record is filled in field by field,
so whatever holds of the blank record and survives every field holds of each
record that can be read, in whichever form and order its fields are written.
-/
namespace SicMachine.Json

/-- Filling in the field keeps a property of records. -/
def Field.Keeps {α : Type} (P : α → Prop) (field : Field α) : Prop :=
  ∀ (value result : α) (tokens rest : List Token), P value →
    field.fill value tokens = .ok (result, rest) → P result

/-- A field whose values satisfy `Q` keeps what putting such a value keeps. -/
theorem Field.keeps_of {α β : Type} (P : α → Prop) (Q : β → Prop) (name : String)
    (presence : Presence) (reader : Reader β) (put : α → β → α)
    (hreader : ∀ tokens rest value, reader tokens = .ok (value, rest) → Q value)
    (hput : ∀ record value, P record → Q value → P (put record value)) :
    (Field.of name presence reader put).Keeps P := by
  intro value result tokens rest hvalue h
  simp only [Field.of] at h
  split at h
  · next read left hread =>
    cases h
    exact hput value read hvalue (hreader tokens _ read hread)
  · cases h

/-- A value that is passed on with the tokens behind it. -/
theorem map_rest_eq_ok_iff {α : Type} {read : Except Failure α} {left rest : List Token}
    {result : α} :
    (read.map fun value => (value, left)) = .ok (result, rest) ↔
      read = .ok result ∧ left = rest := by
  cases read with
  | error failure => simp [Except.map]
  | ok value => simp [Except.map]

namespace Record

variable {α : Type} {record : Record α} {P : α → Prop}

/-- An object is complete exactly if all required fields have been seen. -/
theorem endObject_eq_ok_iff {seen : List String} {value result : α} :
    record.endObject seen value = .ok result ↔
      result = value ∧
        ∀ field ∈ record.fields, field.presence = .required → field.name ∈ seen := by
  unfold endObject
  simp only
  split
  · next field hfound =>
    have hmissing := List.find?_some hfound
    simp only [Bool.and_eq_true, beq_iff_eq, Bool.not_eq_true', List.contains_eq_mem,
      decide_eq_false_iff_not] at hmissing
    simp only [reduceCtorEq, false_iff, not_and]
    intro _ hseen
    exact hmissing.2 (hseen field (List.mem_of_find?_eq_some hfound) hmissing.1)
  · next hnone =>
    have hseen : ∀ field ∈ record.fields, field.presence = .required → field.name ∈ seen := by
      intro field hfield hrequired
      simpa [hrequired] using List.find?_eq_none.1 hnone field hfield
    rw [and_iff_left hseen, Except.ok.injEq]
    exact eq_comm

theorem eq_of_endObject {seen : List String} {value result : α}
    (h : record.endObject seen value = .ok result) : result = value :=
  (endObject_eq_ok_iff.1 h).1

theorem eq_of_endArray {due : List (Field α)} {value result : α}
    (h : record.endArray due value = .ok result) : result = value := by
  unfold endArray at h
  split at h <;> cases h
  rfl

theorem member_keeps (hfields : ∀ field ∈ record.fields, field.Keeps P)
    {seen after : List String} {value result : α} {key : String} {tokens rest : List Token}
    (hvalue : P value) (h : record.member seen value key tokens = .ok (after, result, rest)) :
    P result := by
  unfold member at h
  split at h
  · next field hfound =>
    have hfield := hfields field (List.mem_of_find?_eq_some hfound)
    split at h
    · cases h
    · split at h
      · next left =>
        cases hfill : field.fill value left with
        | error failure => simp [hfill, Except.map] at h
        | ok pair =>
          obtain ⟨filled, behind⟩ := pair
          simp only [hfill, Except.map, Except.ok.injEq, Prod.mk.injEq] at h
          obtain ⟨-, rfl, -⟩ := h
          exact hfield value filled left behind hvalue hfill
      · cases h
  · split at h
    · split at h <;> cases h
      exact hvalue
    · cases h

theorem members_keeps (hfields : ∀ field ∈ record.fields, field.Keeps P) (fuel : Nat)
    {seen : List String} {value result : α} {tokens rest : List Token} (hvalue : P value)
    (h : record.members fuel seen value tokens = .ok (result, rest)) : P result := by
  induction fuel generalizing seen value tokens with
  | zero => simp [members] at h
  | succ fuel ih =>
    unfold members at h
    split at h
    · cases h
    · split at h
      · cases h
      · split at h
        · cases h
        · next hmember =>
          cases ‹fuel + 1 = _ + 1›
          exact ih (member_keeps hfields hvalue hmember) h
        · next hmember =>
          rw [eq_of_endObject (map_rest_eq_ok_iff.1 h).1]
          exact member_keeps hfields hvalue hmember
        · cases h
    · cases h

theorem elements_keeps (due : List (Field α)) (hdue : ∀ field ∈ due, field.Keeps P)
    {value result : α} {tokens rest : List Token} (hvalue : P value)
    (h : record.elements due value tokens = .ok (result, rest)) : P result := by
  induction due generalizing value tokens with
  | nil =>
    unfold elements at h
    split at h
    · rw [eq_of_endArray (map_rest_eq_ok_iff.1 h).1]
      exact hvalue
    · cases ‹[] = _ :: _›
    · cases h
  | cons field due ih =>
    unfold elements at h
    split at h
    · rw [eq_of_endArray (map_rest_eq_ok_iff.1 h).1]
      exact hvalue
    · cases ‹field :: due = _ :: _›
      split at h
      · next filled left hfill =>
        have hkeeps := hdue field List.mem_cons_self
        exact ih (fun other hother => hdue other (List.mem_cons_of_mem _ hother))
          (hkeeps _ _ _ _ hvalue hfill) h
      · cases h
    · cases h

/-- What holds of the blank record and survives every field holds of a record that is read. -/
theorem reader_keeps (hblank : P record.blank) (hfields : ∀ field ∈ record.fields, field.Keeps P)
    {result : α} {tokens rest : List Token} (h : record.reader tokens = .ok (result, rest)) :
    P result := by
  unfold reader at h
  split at h
  · rw [eq_of_endObject (map_rest_eq_ok_iff.1 h).1]
    exact hblank
  · exact members_keeps hfields _ hblank h
  · rw [eq_of_endArray (map_rest_eq_ok_iff.1 h).1]
    exact hblank
  · split at h
    · next field due hlist =>
      have hmember : ∀ other ∈ field :: due, other.Keeps P := hlist ▸ hfields
      split at h
      · next filled left hfill =>
        have hfilled : P filled := hmember field List.mem_cons_self _ _ _ _ hblank hfill
        exact elements_keeps due (fun other hother => hmember other (List.mem_cons_of_mem _ hother))
          hfilled h
      · cases h
    · cases h
  · cases h
  · cases h

end Record

end SicMachine.Json
