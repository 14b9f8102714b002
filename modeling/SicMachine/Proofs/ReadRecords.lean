import SicMachine.Proofs.ArrayReaders
import SicMachine.Proofs.JsonValues
import SicMachine.Proofs.RecordInvariants

/-!
What a text that is read as a record has in it. Objects may have their members
in any order and further members among them, and records may be arrays as well;
in every case the text is that of a value with a part for each required field,
and the record is what these parts say. The induction carries along that what
one field has said is left alone by all fields behind it.
-/
namespace SicMachine.Json

/-- What the fields of a record, each at its place, say about the record. Filling in a field reads
a value and makes the record say so, and what other fields have said stays. -/
structure Record.Tells {α : Type} (record : Record α) (Says : Nat → Value → α → Prop) : Prop where
  distinct : (record.fields.map Field.name).Nodup
  reads : ∀ (place : Nat) (field : Field α), record.fields[place]? = some field →
    ∀ (value next : α) (tokens rest : List Token), field.fill value tokens = .ok (next, rest) →
      ∃ part : Value, tokens = part.tokens ++ rest ∧ Says place part next
  keeps : ∀ (place : Nat) (field : Field α), record.fields[place]? = some field →
    ∀ (value next : α) (tokens rest : List Token), field.fill value tokens = .ok (next, rest) →
      ∀ (other : Nat) (part : Value), other ≠ place → Says other part value → Says other part next

namespace Record

variable {α : Type} {record : Record α} {Says : Nat → Value → α → Prop}

theorem Tells.place_eq (h : record.Tells Says) {place other : Nat} {field another : Field α}
    (hplace : record.fields[place]? = some field) (hother : record.fields[other]? = some another)
    (hname : field.name = another.name) : place = other := by
  have hbound : place < (record.fields.map Field.name).length := by
    rw [List.length_map]
    exact (List.getElem?_eq_some_iff.1 hplace).1
  refine (List.getElem?_inj hbound h.distinct).1 ?_
  rw [List.getElem?_map, List.getElem?_map, hplace, hother, Option.map_some, Option.map_some, hname]

/-! ### Objects -/

/-- A member fills in a field that has not been seen, or its key is that of no field. -/
theorem member_cases (h : record.Tells Says) {seen after : List String} {value next : α}
    {key : String} {tokens left : List Token}
    (hmember : record.member seen value key tokens = .ok (after, next, left)) :
    ∃ part : Value, tokens = .colon :: (part.tokens ++ left) ∧
      ((∃ place field, record.fields[place]? = some field ∧ field.name = key ∧ key ∉ seen ∧
          after = key :: seen ∧ Says place part next ∧
            ∀ other, other ≠ place → ∀ part, Says other part value → Says other part next) ∨
        (∀ field ∈ record.fields, field.name ≠ key) ∧ after = seen ∧ next = value) := by
  unfold member at hmember
  split at hmember
  · next field hfound =>
    obtain ⟨place, hfield⟩ := List.mem_iff_getElem?.1 (List.mem_of_find?_eq_some hfound)
    have hname : field.name = key := by simpa using List.find?_some hfound
    split at hmember
    · cases hmember
    · next hseen =>
      split at hmember
      · next tokens =>
        cases hfill : field.fill value tokens with
        | error failure => simp [hfill, Except.map] at hmember
        | ok filled =>
          obtain ⟨filled, behind⟩ := filled
          simp only [hfill, Except.map, Except.ok.injEq, Prod.mk.injEq] at hmember
          obtain ⟨rfl, rfl, rfl⟩ := hmember
          obtain ⟨part, htokens, htold⟩ := h.reads place field hfield value filled tokens _ hfill
          refine ⟨part, by rw [htokens], .inl ⟨place, field, hfield, hname, ?_, rfl, htold, ?_⟩⟩
          · simpa using hseen
          · intro other hother part htold
            exact h.keeps place field hfield value filled tokens _ hfill other part hother htold
      · cases hmember
  · next hnone =>
    split at hmember
    · next tokens =>
      split at hmember
      · next behind hskip =>
        cases hmember
        obtain ⟨part, htokens⟩ := exists_value_of_skipValue hskip
        refine ⟨part, by rw [htokens], .inr ⟨fun field hfield hname => ?_, rfl, rfl⟩⟩
        exact List.find?_eq_none.1 hnone field hfield (beq_iff_eq.2 hname)
      · cases hmember
    · cases hmember

/-- What members that are read behind the keys seen make of the record. -/
structure MembersTell (record : Record α) (Says : Nat → Value → α → Prop) (seen : List String)
    (value result : α) (members : List (List TextUnit × Value)) : Prop where
  kept : ∀ (place : Nat) (field : Field α), record.fields[place]? = some field →
    field.name ∈ seen → ∀ part, Says place part value → Says place part result
  found : ∀ (place : Nat) (field : Field α), record.fields[place]? = some field →
    field.presence = .required → field.name ∉ seen →
      ∃ part, (Value.object members).part? place field.name = some part ∧ Says place part result

theorem membersTell_nil {seen : List String} {value result : α}
    (h : record.endObject seen value = .ok result) :
    MembersTell record Says seen value result [] := by
  obtain ⟨rfl, hseen⟩ := endObject_eq_ok_iff.1 h
  refine ⟨fun _ _ _ _ _ htold => htold, ?_⟩
  intro place field hfield hrequired hnew
  exact absurd (hseen field (List.mem_of_getElem? hfield) hrequired) hnew

theorem MembersTell.cons (h : record.Tells Says) {seen after : List String}
    {value next result : α} {key : String} {units : List TextUnit} {tokens left : List Token}
    {members : List (List TextUnit × Value)} (hkey : textOf? units = some key)
    (hmember : record.member seen value key tokens = .ok (after, next, left))
    (hmembers : MembersTell record Says after next result members) :
    ∃ part : Value, tokens = .colon :: (part.tokens ++ left) ∧
      MembersTell record Says seen value result ((units, part) :: members) := by
  obtain ⟨part, htokens, hcases⟩ := member_cases h hmember
  refine ⟨part, htokens, ?_⟩
  rcases hcases with ⟨place, field, hfield, rfl, hnew, rfl, htold, hkeeps⟩ | ⟨hunknown, rfl, rfl⟩
  · constructor
    · intro other another hother hseen part hpart
      have hplace : other ≠ place := by
        rintro rfl
        cases hfield.symm.trans hother
        exact hnew hseen
      exact hmembers.kept other another hother (List.mem_cons_of_mem _ hseen) part
        (hkeeps other hplace part hpart)
    · intro other another hother hrequired hunseen
      by_cases hname : another.name = field.name
      · obtain rfl := h.place_eq hfield hother hname.symm
        cases hfield.symm.trans hother
        refine ⟨part, ?_, hmembers.kept place field hfield List.mem_cons_self part htold⟩
        simp [Value.part?, hkey]
      · obtain ⟨found, hfound, htold⟩ := hmembers.found other another hother hrequired
          (by simp [hname, hunseen])
        refine ⟨found, ?_, htold⟩
        have hskip : (textOf? units == some another.name) = false := by
          simpa [hkey] using Ne.symm hname
        simpa only [Value.part?, List.find?_cons, hskip] using hfound
  · constructor
    · exact hmembers.kept
    · intro other another hother hrequired hunseen
      obtain ⟨found, hfound, htold⟩ := hmembers.found other another hother hrequired hunseen
      refine ⟨found, ?_, htold⟩
      have hskip : (textOf? units == some another.name) = false := by
        simpa [hkey] using Ne.symm (hunknown another (List.mem_of_getElem? hother))
      simpa only [Value.part?, List.find?_cons, hskip] using hfound

/-- Members that are read are members of an object, and they say what the record is. -/
theorem exists_members (h : record.Tells Says) {fuel : Nat} {seen : List String}
    {value result : α} {tokens rest : List Token}
    (hread : record.members fuel seen value tokens = .ok (result, rest)) :
    ∃ first more, tokens = Value.memberTokens first ++
        (more.flatMap (fun member => .comma :: Value.memberTokens member) ++ .endObject :: rest) ∧
      MembersTell record Says seen value result (first :: more) := by
  induction fuel generalizing seen value tokens with
  | zero => simp [members] at hread
  | succ fuel ih =>
    unfold members at hread
    split at hread
    · cases hread
    · next units tokens hfuel =>
      cases hfuel
      split at hread
      · cases hread
      · next key hkey =>
        split at hread
        · cases hread
        · next after next behind hmember =>
          obtain ⟨first, more, rfl, hmembers⟩ := ih hread
          obtain ⟨part, rfl, htell⟩ := hmembers.cons h hkey hmember
          refine ⟨(units, part), first :: more, ?_, htell⟩
          simp [Value.memberTokens]
        · next after next behind hmember =>
          obtain ⟨hend, rfl⟩ := map_rest_eq_ok_iff.1 hread
          obtain ⟨part, rfl, htell⟩ := (membersTell_nil hend).cons h hkey hmember
          refine ⟨(units, part), [], ?_, htell⟩
          simp [Value.memberTokens]
        · cases hread
    · cases hread

/-! ### Arrays -/

/-- At the end of an array no required field is due. -/
theorem not_required_of_endArray {due : List (Field α)} {value result : α}
    (h : record.endArray due value = .ok result) :
    ∀ field ∈ due, field.presence ≠ .required := by
  intro field hfield hrequired
  unfold endArray at h
  split at h
  · cases h
  · next hnone =>
    have hpresence := List.findIdx?_eq_none_iff.1 hnone field hfield
    simp [hrequired] at hpresence

/-- What elements that are read for the fields from a place on make of the record. -/
structure ElementsTell (record : Record α) (Says : Nat → Value → α → Prop) (place : Nat)
    (value result : α) (elements : List Value) : Prop where
  kept : ∀ other < place, ∀ part, Says other part value → Says other part result
  found : ∀ (offset : Nat) (field : Field α), record.fields[place + offset]? = some field →
    field.presence = .required →
      ∃ part, elements[offset]? = some part ∧ Says (place + offset) part result

theorem elementsTell_nil {place : Nat} {value result : α}
    (h : record.endArray (record.fields.drop place) value = .ok result) :
    ElementsTell record Says place value result [] := by
  obtain rfl := eq_of_endArray h
  refine ⟨fun _ _ _ htold => htold, ?_⟩
  intro offset field hfield hrequired
  rw [← List.getElem?_drop] at hfield
  exact absurd hrequired (not_required_of_endArray h field (List.mem_of_getElem? hfield))

theorem ElementsTell.cons (h : record.Tells Says) {place : Nat} {field : Field α}
    {value next result : α} {tokens left : List Token} {elements : List Value}
    (hfield : record.fields[place]? = some field)
    (hfill : field.fill value tokens = .ok (next, left))
    (helements : ElementsTell record Says (place + 1) next result elements) :
    ∃ part : Value, tokens = part.tokens ++ left ∧
      ElementsTell record Says place value result (part :: elements) := by
  obtain ⟨part, htokens, htold⟩ := h.reads place field hfield value next tokens left hfill
  refine ⟨part, htokens, ⟨?_, ?_⟩⟩
  · intro other hother others hothers
    refine helements.kept other (by omega) others ?_
    exact h.keeps place field hfield value next tokens left hfill other others (by omega) hothers
  · intro offset another hanother hrequired
    cases offset with
    | zero =>
      exact ⟨part, rfl, helements.kept place (by omega) part htold⟩
    | succ offset =>
      have hplace : place + (offset + 1) = place + 1 + offset := by omega
      rw [hplace] at hanother ⊢
      exact helements.found offset another hanother hrequired

/-- Elements that are read for all fields are found at the places of the fields. -/
theorem ElementsTell.found_at {value result : α} {elements : List Value}
    (h : ElementsTell record Says 0 value result elements) {place : Nat} {field : Field α}
    (hfield : record.fields[place]? = some field) (hrequired : field.presence = .required) :
    ∃ part, elements[place]? = some part ∧ Says place part result := by
  have hfound := h.found place field (by rwa [Nat.zero_add]) hrequired
  rwa [Nat.zero_add] at hfound

theorem exists_elements (h : record.Tells Says) {due : List (Field α)} {place : Nat}
    (hdue : due = record.fields.drop place) {value result : α} {tokens rest : List Token}
    (hread : record.elements due value tokens = .ok (result, rest)) :
    ∃ elements : List Value, tokens =
        elements.flatMap (fun element => .comma :: element.tokens) ++ .endArray :: rest ∧
      ElementsTell record Says place value result elements := by
  induction due generalizing place value tokens with
  | nil =>
    unfold Record.elements at hread
    split at hread
    · obtain ⟨hend, rfl⟩ := map_rest_eq_ok_iff.1 hread
      exact ⟨[], rfl, elementsTell_nil (hdue ▸ hend)⟩
    · cases ‹[] = _ :: _›
    · cases hread
  | cons field due ih =>
    have hfield : record.fields[place]? = some field := by
      rw [← List.head?_drop, ← hdue]
      rfl
    have hbehind : due = record.fields.drop (place + 1) := by
      rw [← List.tail_drop, ← hdue]
      rfl
    unfold Record.elements at hread
    split at hread
    · obtain ⟨hend, rfl⟩ := map_rest_eq_ok_iff.1 hread
      exact ⟨[], rfl, elementsTell_nil (hdue ▸ hend)⟩
    · cases ‹field :: due = _ :: _›
      split at hread
      · next filled left hfill =>
        obtain ⟨elements, rfl, htell⟩ := ih hbehind hread
        obtain ⟨part, rfl, htell⟩ := htell.cons h hfield hfill
        refine ⟨part :: elements, ?_, htell⟩
        simp
      · cases hread
    · cases hread

/-! ### Records -/

/-- A record that is read is read from a value whose parts say what the record is. -/
theorem exists_value (h : record.Tells Says) {result : α} {tokens rest : List Token}
    (hread : record.reader tokens = .ok (result, rest)) :
    ∃ value : Value, tokens = value.tokens ++ rest ∧
      ∀ (place : Nat) (field : Field α), record.fields[place]? = some field →
        field.presence = .required →
          ∃ part, value.part? place field.name = some part ∧ Says place part result := by
  unfold reader at hread
  split at hread
  · next tokens =>
    obtain ⟨hend, rfl⟩ := map_rest_eq_ok_iff.1 hread
    have htell : MembersTell record Says [] record.blank result [] := membersTell_nil hend
    exact ⟨.object [], (Value.tokens_object [] _).symm,
      fun place field hfield hrequired => htell.found place field hfield hrequired nofun⟩
  · next tokens =>
    obtain ⟨first, more, rfl, htell⟩ := exists_members h hread
    refine ⟨.object (first :: more), ?_,
      fun place field hfield hrequired => htell.found place field hfield hrequired nofun⟩
    simp [Value.tokens_object, separated_cons, List.flatMap_map]
  · next tokens =>
    obtain ⟨hend, rfl⟩ := map_rest_eq_ok_iff.1 hread
    have htell : ElementsTell record Says 0 record.blank result [] := elementsTell_nil hend
    exact ⟨.array [], (Value.tokens_array [] _).symm,
      fun place field hfield hrequired => htell.found_at hfield hrequired⟩
  · next tokens _ =>
    split at hread
    · next field due hfields =>
      split at hread
      · next filled left hfill =>
        have hfield : record.fields[0]? = some field := by rw [hfields]; rfl
        have hdue : due = record.fields.drop 1 := by rw [hfields]; rfl
        obtain ⟨elements, rfl, htell⟩ := exists_elements h hdue hread
        obtain ⟨part, rfl, htell⟩ := htell.cons h hfield hfill
        refine ⟨.array (part :: elements), ?_,
          fun place field hfield hrequired => htell.found_at hfield hrequired⟩
        simp [Value.tokens_array, separated_cons, List.flatMap_map]
      · cases hread
    · cases hread
  · cases hread
  · cases hread

end Record

/-! ### Fields -/

/-- What a field reads is put into the record. -/
theorem Field.fill_of_eq_ok_iff {α β : Type} {name : String} {presence : Presence}
    {reader : Reader β} {put : α → β → α} {record next : α} {tokens rest : List Token} :
    (Field.of name presence reader put).fill record tokens = .ok (next, rest) ↔
      ∃ value, reader tokens = .ok (value, rest) ∧ put record value = next := by
  simp only [Field.of]
  cases reader tokens with
  | error failure => simp
  | ok read =>
    obtain ⟨value, behind⟩ := read
    simp only [Except.ok.injEq, Prod.mk.injEq]
    constructor
    · rintro ⟨rfl, rfl⟩
      exact ⟨value, ⟨rfl, rfl⟩, rfl⟩
    · rintro ⟨_, ⟨rfl, rfl⟩, rfl⟩
      exact ⟨rfl, rfl⟩

/-- Tokens that stand for numbers are the elements of an array of these numbers. -/
theorem exists_elements_of_map {α : Type} {element : Scalar α} {number : α → Nat}
    (h : ∀ token value, element token = .ok value → token.natural? = some (number value))
    {parts : List Token} {values : List α} (hparts : parts.map element = values.map .ok) :
    ∃ elements : List Value, elements.map Value.tokens = parts.map (fun token => [token]) ∧
      elements.map Value.natural? = values.map fun value => some (number value) := by
  induction parts generalizing values with
  | nil =>
    obtain rfl : values = [] := List.map_eq_nil_iff.1 hparts.symm
    exact ⟨[], rfl, rfl⟩
  | cons token parts ih =>
    cases values with
    | nil => cases hparts
    | cons value values =>
      obtain ⟨hvalue, hvalues⟩ := List.cons.inj hparts
      obtain ⟨elements, htokens, hnumbers⟩ := ih hvalues
      have hnumber := h token value hvalue
      obtain ⟨written, rfl, -⟩ := Token.natural?_eq_some_iff.1 hnumber
      have hscalar : Skip.isScalar (.number written) = true := rfl
      refine ⟨.scalar (.number written) hscalar :: elements, ?_, ?_⟩
      · rw [List.map_cons, List.map_cons, htokens, Value.tokens_scalar]
      · rw [List.map_cons, List.map_cons, hnumbers, Value.natural?, hnumber]

/-- An array of numbers that is read is an array of these numbers. -/
theorem Reader.exists_array {α : Type} {element : Scalar α} {number : α → Nat}
    (h : ∀ token value, element token = .ok value → token.natural? = some (number value))
    {values : List α} {tokens rest : List Token}
    (hread : array element tokens = .ok (values, rest)) :
    ∃ elements : List Value, tokens = (Value.array elements).tokens ++ rest ∧
      (elements.map Value.natural? = values.map fun value => some (number value)) ∧
        ∀ value ∈ values, ∃ token, element token = .ok value := by
  have hend : ∀ value, element .endArray ≠ .ok value := by
    intro value hvalue
    cases h _ _ hvalue
  obtain ⟨parts, hparts, rfl⟩ := (array_eq_ok_iff hend).1 hread
  obtain ⟨elements, htokens, hnumbers⟩ := exists_elements_of_map h hparts
  refine ⟨elements, by rw [Value.tokens, htokens], hnumbers, ?_⟩
  intro value hvalue
  have hmem : Except.ok value ∈ parts.map element := hparts ▸ List.mem_map_of_mem hvalue
  obtain ⟨token, -, htoken⟩ := List.mem_map.1 hmem
  exact ⟨token, htoken⟩

end SicMachine.Json
