import SicMachine.Json.Codec
import SicMachine.Proofs.ArrayReaders
import SicMachine.Proofs.NumberTokens
import SicMachine.Proofs.WrittenTokens

/-!
Reading back what has been written. A reader takes the tokens of a value if it
reads the value off their front, whatever stands behind them; so the law of a
record follows from the laws of its fields, and the law of an array from that
of its elements. The last step goes from tokens to text, in either layout.
-/
namespace SicMachine.Json

/-! ### Tokens that can be written -/

namespace Writable

variable {left right tokens : List Token} {mark : Token}

theorem single {token : Token} (h : token.Writable) : Writable [token] :=
  ⟨by simpa using h, .singleton _⟩

theorem mark_cons (h : Writable right) (hmark : mark.Writable) (hnumber : mark.isNumber = false) :
    Writable (mark :: right) := by
  refine ⟨List.forall_mem_cons.2 ⟨hmark, h.each⟩, List.isChain_cons.2 ⟨?_, h.chain⟩⟩
  exact fun next _ => Token.follows_of_left hnumber next

theorem append_mark (hleft : Writable left) (hright : Writable right) (hmark : mark.Writable)
    (hnumber : mark.isNumber = false) : Writable (left ++ mark :: right) := by
  have hbehind := hright.mark_cons hmark hnumber
  constructor
  · intro token htoken
    rcases List.mem_append.1 htoken with htoken | htoken
    · exact hleft.each token htoken
    · exact hbehind.each token htoken
  · refine List.isChain_append.2 ⟨hleft.chain, hbehind.chain, ?_⟩
    intro last _ next hnext
    obtain rfl : mark = next := Option.some.inj hnext
    exact Token.follows_of_right hnumber last

/-- Parts stay writable with a comma between each two and a mark behind them. -/
theorem separated {parts : List (List Token)} (hparts : ∀ part ∈ parts, Writable part)
    (hmark : mark.Writable) (hnumber : mark.isNumber = false) :
    Writable (Json.separated parts ++ [mark]) := by
  have hnil : Writable [] := ⟨by simp, .nil⟩
  cases parts with
  | nil => exact hnil.mark_cons hmark hnumber
  | cons part rest =>
    rw [separated_cons, List.append_assoc]
    induction rest generalizing part with
    | nil => exact append_mark (hparts part List.mem_cons_self) hnil hmark hnumber
    | cons next rest ih =>
      have hrest := ih next fun other hother => hparts other (List.mem_cons_of_mem part hother)
      have hpart := hparts part List.mem_cons_self
      have hcomma : Token.comma.Writable := trivial
      simpa using append_mark hpart hrest hcomma rfl

theorem array {elements : List (List Token)} (h : ∀ element ∈ elements, Writable element) :
    Writable (arrayTokens elements) := by
  have hinside : Writable (Json.separated elements ++ [.endArray]) := separated h trivial rfl
  exact hinside.mark_cons trivial rfl

theorem object {members : List (String × List Token)}
    (h : ∀ member ∈ members, Writable member.2) : Writable (objectTokens members) := by
  let parts := members.map fun member => Token.ofString member.1 :: .colon :: member.2
  have hparts : ∀ part ∈ parts, Writable part := by
    intro part hpart
    obtain ⟨member, hmember, rfl⟩ := List.mem_map.1 hpart
    have hvalue : Writable (.colon :: member.2) := (h member hmember).mark_cons trivial rfl
    exact hvalue.mark_cons (Token.writable_ofString member.1) rfl
  have hinside : Writable (Json.separated parts ++ [.endObject]) := separated hparts trivial rfl
  exact hinside.mark_cons trivial rfl

theorem ofNat (n : Nat) : Writable [Token.ofNat n] := single (Token.writable_ofNat n)

theorem ofString (s : String) : Writable [Token.ofString s] := single (Token.writable_ofString s)

theorem numbers {α : Type} (values : List α) (number : α → Nat) :
    Writable (arrayTokens (values.map fun value => [Token.ofNat (number value)])) := by
  apply array
  intro element helement
  obtain ⟨value, -, rfl⟩ := List.mem_map.1 helement
  exact ofNat (number value)

end Writable

/-! ### Scalars -/

theorem joinUnits_chars (done chars : List Char) :
    joinUnits done (chars.map .char) = some (done.reverse ++ chars) := by
  induction chars generalizing done with
  | nil => simp [joinUnits]
  | cons c rest ih => simp [joinUnits, ih]

theorem textOf?_chars (s : String) : textOf? (s.toList.map .char) = some s := by
  simp [textOf?, joinUnits_chars]

namespace Reader

theorem wide_ofNat {n : Nat} (h : n < wideLimit) : wide (Token.ofNat n) = .ok n :=
  wide_eq_ok_iff.2 ⟨Token.natural?_ofNat n, h⟩

theorem byte_ofNat (value : UInt8) : byte (Token.ofNat value.toNat) = .ok value :=
  byte_eq_ok_iff.2 (Token.natural?_ofNat _)

theorem string_ofString (s : String) : string (Token.ofString s) = .ok s := by
  simp [string, Token.ofString, textOf?_chars]

theorem optional_of_ok {α : Type} {scalar : Scalar α} {token : Token} {value : α}
    (h : scalar token = .ok value) (htoken : token ≠ .null) :
    optional scalar token = .ok (some value) := by
  unfold optional
  split
  · exact absurd rfl htoken
  · rw [h]
    rfl

/-! ### Arrays and maps -/

/-- The reader reads the value off these tokens, whatever stands behind them. -/
def Takes {α : Type} (reader : Reader α) (tokens : List Token) (value : α) : Prop :=
  ∀ rest, reader (tokens ++ rest) = .ok (value, rest)

theorem takes_ofScalar {α : Type} {scalar : Scalar α} {token : Token} {value : α}
    (h : scalar token = .ok value) : (ofScalar scalar).Takes [token] value := by
  intro rest
  simp [ofScalar, h, Except.map]

variable {α : Type} {element : Scalar α} {number : α → Nat} {values : List α}

/-- An array of numbers is read back if each of its elements is. -/
theorem takes_array (hend : ∀ value, element .endArray ≠ .ok value)
    (h : ∀ value ∈ values, element (Token.ofNat (number value)) = .ok value) :
    (array element).Takes (arrayTokens (values.map fun value => [Token.ofNat (number value)]))
      values := by
  intro rest
  refine (array_eq_ok_iff hend).2 ⟨values.map fun value => Token.ofNat (number value), ?_, ?_⟩
  · rw [List.map_map]
    exact List.map_congr_left h
  · rw [List.map_map]
    rfl

theorem takes_fixedArray (hend : ∀ value, element .endArray ≠ .ok value)
    (h : ∀ value ∈ values, element (Token.ofNat (number value)) = .ok value) :
    (fixedArray element values.length).Takes
      (arrayTokens (values.map fun value => [Token.ofNat (number value)])) values :=
  fun rest => fixedArray_eq_ok_iff.2 ⟨takes_array hend h rest, rfl⟩

/-- The tokens of a binding in an object. -/
def bindingTokens (binding : String × Nat) : List Token :=
  [Token.ofString binding.1, .colon, Token.ofNat binding.2]

theorem bindings_cons (binding : String × Nat) (bindings : List (String × Nat))
    (rest : List Token) :
    objectTokens ((binding :: bindings).map fun binding =>
        (binding.1, [Token.ofNat binding.2])) ++ rest =
      .beginObject :: (bindingTokens binding ++
        (bindings.flatMap (fun binding => .comma :: bindingTokens binding) ++
          .endObject :: rest)) := by
  simp [objectTokens, separated_cons, List.flatMap_map, bindingTokens]

variable {value : Scalar Nat}

theorem entry_binding {binding : String × Nat}
    (h : value (Token.ofNat binding.2) = .ok binding.2) :
    entry value (binding.1.toList.map .char) (Token.ofNat binding.2) = .ok binding := by
  simp [entry, textOf?_chars, h, Except.map]

theorem moreEntries_bindings {bindings : List (String × Nat)}
    (h : ∀ binding ∈ bindings, value (Token.ofNat binding.2) = .ok binding.2)
    (done : List (String × Nat)) (rest : List Token) :
    moreEntries value done
        (bindings.flatMap (fun binding => .comma :: bindingTokens binding) ++
          .endObject :: rest) =
      .ok (done.reverse ++ bindings, rest) := by
  induction bindings generalizing done with
  | nil => simp [moreEntries]
  | cons binding bindings ih =>
    have hbinding := entry_binding (h binding List.mem_cons_self)
    have hbindings := ih (fun other hother => h other (List.mem_cons_of_mem binding hother))
      (binding :: done)
    simp only [List.flatMap_cons, List.cons_append, List.nil_append, bindingTokens, Token.ofString,
      moreEntries, hbinding] at hbindings ⊢
    simpa using hbindings

/-- A map from texts to numbers is read back, its bindings in order. -/
theorem takes_map {bindings : List (String × Nat)}
    (h : ∀ binding ∈ bindings, value (Token.ofNat binding.2) = .ok binding.2) :
    (map value).Takes
      (objectTokens (bindings.map fun binding => (binding.1, [Token.ofNat binding.2])))
      bindings := by
  intro rest
  cases bindings with
  | nil => rfl
  | cons binding bindings =>
    have hbinding := entry_binding (h binding List.mem_cons_self)
    have hmore := moreEntries_bindings
      (fun other hother => h other (List.mem_cons_of_mem binding hother)) [binding] rest
    rw [bindings_cons]
    simp only [bindingTokens, Token.ofString, List.cons_append, List.nil_append, map, hbinding]
      at hmore ⊢
    exact hmore

end Reader

/-! ### Records -/

theorem Field.takes_of {α β : Type} {reader : Reader β} {tokens : List Token} {value : β}
    (h : reader.Takes tokens value) (name : String) (presence : Presence) (put : α → β → α)
    (record : α) :
    ((Field.of name presence reader put).fill record).Takes tokens (put record value) := by
  intro rest
  simp [Field.of, h rest]

namespace Record

variable {α : Type} {record : Record α}

/-- Read one after the other, the members fill in the record, and nothing required is missing in
the end. The record begins as a value for which some keys have been seen. -/
inductive Fills (record : Record α) : List String → α → List (String × List Token) → α → Prop
  | done {seen : List String} {value : α} (h : record.endObject seen value = .ok value) :
      Fills record seen value [] value
  | member {seen : List String} {key : String} {value next result : α} {tokens : List Token}
      {members : List (String × List Token)} (field : Field α)
      (hfield : (record.fields.find? fun field => field.name == key) = some field)
      (hseen : seen.contains key = false) (htakes : (field.fill value).Takes tokens next)
      (hrest : Fills record (key :: seen) next members result) :
      Fills record seen value ((key, tokens) :: members) result

/-- The tokens of a member of an object. -/
def memberTokens (member : String × List Token) : List Token :=
  Token.ofString member.1 :: .colon :: member.2

/-- A member that its field takes fills in the record. -/
theorem members_cons {seen : List String} {key : String} {value next : α} {tokens : List Token}
    {field : Field α} (hfield : (record.fields.find? fun field => field.name == key) = some field)
    (hseen : seen.contains key = false) (htakes : (field.fill value).Takes tokens next)
    (fuel : Nat) (rest : List Token) :
    record.members (fuel + 1) seen value (memberTokens (key, tokens) ++ rest) =
      match rest with
      | .comma :: rest => record.members fuel (key :: seen) next rest
      | .endObject :: rest => (record.endObject (key :: seen) next).map (·, rest)
      | _ => .error .malformed := by
  have hmember : record.member seen value key (.colon :: tokens ++ rest) =
      .ok (key :: seen, next, rest) := by
    rw [List.cons_append, member, hfield]
    simp only [hseen, Bool.false_eq_true, if_false, htakes rest]
    rfl
  simp only [memberTokens, Token.ofString, List.cons_append, members, textOf?_chars] at hmember ⊢
  rw [hmember]
  cases rest with
  | nil => rfl
  | cons token rest => cases token <;> rfl

/-- The members are read one after the other, whatever stands behind the object. -/
theorem members_of_fills {seen : List String} {value result : α} {member : String × List Token}
    {members : List (String × List Token)} (h : record.Fills seen value (member :: members) result)
    {fuel : Nat} (hfuel : members.length < fuel) (rest : List Token) :
    record.members fuel seen value (memberTokens member ++
        (members.flatMap (fun member => .comma :: memberTokens member) ++ .endObject :: rest)) =
      .ok (result, rest) := by
  obtain ⟨fuel, rfl⟩ : ∃ fewer, fuel = fewer + 1 := Nat.exists_eq_add_one_of_ne_zero (by omega)
  induction members generalizing fuel seen value member with
  | nil =>
    cases h with
    | member field hfield hseen htakes hrest =>
      cases hrest with
      | done hend =>
        rw [members_cons hfield hseen htakes]
        simp [hend, Except.map]
  | cons next members ih =>
    cases h with
    | member field hfield hseen htakes hrest =>
      rw [List.length_cons] at hfuel
      obtain ⟨fuel, rfl⟩ : ∃ fewer, fuel = fewer + 1 :=
        Nat.exists_eq_add_one_of_ne_zero (by omega)
      rw [members_cons hfield hseen htakes]
      have hmembers := ih hrest fuel (by omega)
      simpa using hmembers

/-- There are no more members than tokens, so the tokens do as a bound. -/
theorem length_le_tokens (members : List (String × List Token)) :
    members.length ≤
      (members.flatMap fun member => .comma :: memberTokens member).length := by
  induction members with
  | nil => exact Nat.le_refl 0
  | cons member members ih =>
    simp only [List.flatMap_cons, List.length_append, List.length_cons]
    omega

/-- An object is read back as the record that its members fill in. -/
theorem takes_of_fills {members : List (String × List Token)} {result : α}
    (h : record.Fills [] record.blank members result) :
    record.reader.Takes (objectTokens members) result := by
  intro rest
  cases members with
  | nil =>
    cases h with
    | done hend =>
      show (record.endObject [] record.blank).map _ = _
      rw [hend]
      rfl
  | cons member members =>
    let tokens := memberTokens member ++
      (members.flatMap (fun member => .comma :: memberTokens member) ++ .endObject :: rest)
    have htokens : objectTokens (member :: members) ++ rest = .beginObject :: tokens := by
      simp [tokens, objectTokens, separated_cons, List.flatMap_map, memberTokens]
    have hfuel : members.length < tokens.length := by
      have hmembers := length_le_tokens members
      simp only [tokens, List.length_append, List.length_cons]
      omega
    rw [htokens]
    exact members_of_fills h hfuel rest

end Record

/-- Tokens that can be written, and that a reader takes whole, are a text that it reads. -/
theorem Codec.decode_encode {α : Type} {codec : Codec α} {value : α}
    (hwritable : Writable (codec.tokens value))
    (htakes : codec.reader.Takes (codec.tokens value) value) :
    codec.decode (codec.encode value) = .ok value ∧
      codec.decode (codec.encodePretty value) = .ok value := by
  have hread := htakes []
  rw [List.append_nil] at hread
  constructor
  · rw [decode, Reader.readText, encode, scan_compact hwritable, hread]
  · rw [decode, Reader.readText, encodePretty, scan_pretty hwritable, hread]

end SicMachine.Json
