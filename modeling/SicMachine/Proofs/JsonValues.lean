import SicMachine.Json.Record
import SicMachine.Proofs.NumberTokens

/-!
JSON as trees. The tokens of a tree tell where it ends and what it is, so a
text is the text of one tree at most. Passing over a value is passing over the
tokens of a tree: the brackets that are still open say what the tokens behind
it must close.
-/
namespace SicMachine.Json

inductive Value where
  | scalar (token : Token) (h : Skip.isScalar token = true)
  | array (elements : List Value)
  | object (members : List (List TextUnit × Value))

namespace Value

def tokens : Value → List Token
  | scalar token _ => [token]
  | array elements => arrayTokens (elements.map tokens)
  | object members =>
    .beginObject :: separated (members.map fun member =>
      .text member.1 :: .colon :: member.2.tokens) ++ [.endObject]
termination_by value => sizeOf value
decreasing_by
  · have hsize := List.sizeOf_lt_of_mem ‹_›
    rw [array.sizeOf_spec]
    omega
  · have hsize := List.sizeOf_lt_of_mem ‹_›
    rw [object.sizeOf_spec]
    cases ‹List TextUnit × Value›
    rw [Prod.mk.sizeOf_spec] at hsize
    dsimp only
    omega

/-- The part of a record in either form: the member of that name, or the element at that place. -/
def part? (place : Nat) (name : String) : Value → Option Value
  | scalar _ _ => none
  | array elements => elements[place]?
  | object members => (members.find? fun member => textOf? member.1 == some name).map Prod.snd

/-- The natural number that the value is. -/
def natural? : Value → Option Nat
  | scalar token _ => token.natural?
  | _ => none

/-- The tokens of a member of an object. -/
def memberTokens (member : List TextUnit × Value) : List Token :=
  .text member.1 :: .colon :: member.2.tokens

theorem tokens_scalar (token : Token) (h : Skip.isScalar token = true) :
    (scalar token h).tokens = [token] := by
  rw [tokens]

theorem tokens_array (elements : List Value) (rest : List Token) :
    (array elements).tokens ++ rest =
      .beginArray :: (separated (elements.map tokens) ++ .endArray :: rest) := by
  simp [tokens, arrayTokens]

theorem tokens_object (members : List (List TextUnit × Value)) (rest : List Token) :
    (object members).tokens ++ rest =
      .beginObject :: (separated (members.map memberTokens) ++ .endObject :: rest) := by
  simp only [tokens, List.cons_append, List.append_assoc, List.nil_append]
  rfl

/-- A value begins with its only token or with an opening bracket. -/
theorem exists_cons (value : Value) :
    ∃ token rest, value.tokens = token :: rest ∧
      (Skip.isScalar token = true ∨ token = .beginArray ∨ token = .beginObject) := by
  cases value with
  | scalar token h => exact ⟨token, [], tokens_scalar token h, .inl h⟩
  | array elements =>
    have htokens := tokens_array elements []
    rw [List.append_nil] at htokens
    exact ⟨_, _, htokens, .inr (.inl rfl)⟩
  | object members =>
    have htokens := tokens_object members []
    rw [List.append_nil] at htokens
    exact ⟨_, _, htokens, .inr (.inr rfl)⟩

end Value

/-! ### One tree at most -/

section Apart

variable {α : Type} {write : α → List Token}

/-- The tokens of the item say where it ends and which item it is. -/
def Apart (write : α → List Token) (item : α) : Prop :=
  ∀ (other : α) (rest behind : List Token), write item ++ rest = write other ++ behind →
    item = other ∧ rest = behind

theorem eq_of_more {mark : Token} (hmark : mark ≠ .comma) {items others : List α}
    (hitems : ∀ item ∈ items, Apart write item) {rest behind : List Token}
    (h : items.flatMap (fun item => .comma :: write item) ++ mark :: rest =
      others.flatMap (fun item => .comma :: write item) ++ mark :: behind) :
    items = others ∧ rest = behind := by
  induction items generalizing others with
  | nil =>
    cases others with
    | nil => exact ⟨rfl, List.tail_eq_of_cons_eq h⟩
    | cons other others => exact absurd (List.head_eq_of_cons_eq h) hmark
  | cons item items ih =>
    cases others with
    | nil => exact absurd (List.head_eq_of_cons_eq h).symm hmark
    | cons other others =>
      obtain ⟨hitem, hmore⟩ := List.forall_mem_cons.1 hitems
      simp only [List.flatMap_cons, List.cons_append, List.cons.injEq, true_and,
        List.append_assoc] at h
      obtain ⟨rfl, hbehind⟩ := hitem other _ _ h
      obtain ⟨rfl, hrest⟩ := ih hmore hbehind
      exact ⟨rfl, hrest⟩

/-- Items with a comma between each two, and a mark behind them with which no item begins. -/
theorem eq_of_separated {mark : Token} (hmark : mark ≠ .comma)
    (hbegin : ∀ item, ∃ token left, write item = token :: left ∧ token ≠ mark)
    {items others : List α} (hitems : ∀ item ∈ items, Apart write item) {rest behind : List Token}
    (h : separated (items.map write) ++ mark :: rest =
      separated (others.map write) ++ mark :: behind) :
    items = others ∧ rest = behind := by
  have hfirst : ∀ (item : α) (more behind : List Token), write item ++ more ≠ mark :: behind := by
    intro item more behind heq
    obtain ⟨token, left, hwrite, htoken⟩ := hbegin item
    rw [hwrite, List.cons_append, List.cons.injEq] at heq
    exact htoken heq.1
  cases items with
  | nil =>
    cases others with
    | nil => exact ⟨rfl, List.tail_eq_of_cons_eq h⟩
    | cons other others =>
      rw [List.map_cons, separated_cons, List.append_assoc] at h
      exact absurd h.symm (hfirst _ _ _)
  | cons item items =>
    cases others with
    | nil =>
      rw [List.map_cons, separated_cons, List.append_assoc] at h
      exact absurd h (hfirst _ _ _)
    | cons other others =>
      obtain ⟨hitem, hmore⟩ := List.forall_mem_cons.1 hitems
      simp only [List.map_cons, separated_cons, List.append_assoc, List.flatMap_map] at h
      obtain ⟨rfl, hbehind⟩ := hitem other _ _ h
      obtain ⟨rfl, hrest⟩ := eq_of_more hmark hmore hbehind
      exact ⟨rfl, hrest⟩

end Apart

namespace Value

theorem apart_memberTokens {member : List TextUnit × Value} (h : Apart tokens member.2) :
    Apart memberTokens member := by
  intro other rest behind heq
  obtain ⟨units, value⟩ := member
  simp only [memberTokens, List.cons_append, List.cons.injEq, Token.text.injEq, true_and] at heq
  obtain ⟨hunits, heq⟩ := heq
  obtain ⟨hvalue, hrest⟩ := h other.2 rest behind heq
  exact ⟨Prod.ext hunits hvalue, hrest⟩

/-- The tokens of a tree, whatever stands behind them, are those of no other tree. -/
theorem apart_tokens (value : Value) : Apart tokens value := by
  have hvalue : ∀ value : Value,
      ∃ token left, value.tokens = token :: left ∧ token ≠ .endArray := by
    intro value
    obtain ⟨token, left, htokens, hbegin⟩ := value.exists_cons
    refine ⟨token, left, htokens, ?_⟩
    rintro rfl
    simp [Skip.isScalar] at hbegin
  have hmember : ∀ member : List TextUnit × Value,
      ∃ token left, memberTokens member = token :: left ∧ token ≠ .endObject :=
    fun member => ⟨_, _, rfl, nofun⟩
  induction value using tokens.induct with
  | case1 token h =>
    intro other rest behind heq
    rw [tokens_scalar] at heq
    cases other with
    | scalar other hother =>
      rw [tokens_scalar, List.cons_append, List.cons_append, List.cons.injEq] at heq
      obtain ⟨rfl, hrest⟩ := heq
      exact ⟨rfl, hrest⟩
    | array elements =>
      rw [tokens_array, List.cons_append, List.cons.injEq] at heq
      obtain ⟨rfl, -⟩ := heq
      cases h
    | object members =>
      rw [tokens_object, List.cons_append, List.cons.injEq] at heq
      obtain ⟨rfl, -⟩ := heq
      cases h
  | case2 elements ih =>
    intro other rest behind heq
    rw [tokens_array] at heq
    cases other with
    | scalar other hother =>
      rw [tokens_scalar, List.cons_append, List.cons.injEq] at heq
      obtain ⟨rfl, -⟩ := heq
      cases hother
    | array others =>
      rw [tokens_array, List.cons.injEq] at heq
      obtain ⟨rfl, hrest⟩ := eq_of_separated (by decide) hvalue ih heq.2
      exact ⟨rfl, hrest⟩
    | object members =>
      rw [tokens_object] at heq
      cases heq
  | case3 members ih =>
    intro other rest behind heq
    rw [tokens_object] at heq
    cases other with
    | scalar other hother =>
      rw [tokens_scalar, List.cons_append, List.cons.injEq] at heq
      obtain ⟨rfl, -⟩ := heq
      cases hother
    | array others =>
      rw [tokens_array] at heq
      cases heq
    | object others =>
      rw [tokens_object, List.cons.injEq] at heq
      obtain ⟨rfl, hrest⟩ := eq_of_separated (by decide) hmember
        (fun member hmember => apart_memberTokens (ih member hmember)) heq.2
      exact ⟨rfl, hrest⟩

/-- A text is the text of one tree at most. -/
theorem eq_of_tokens_eq {value other : Value} (h : value.tokens = other.tokens) : value = other :=
  (value.apart_tokens other [] [] (congrArg (· ++ []) h)).1

end Value

/-! ### Passing over a tree -/

namespace Skip

/-- The tokens close the open brackets, the innermost of which comes first, and leave the rest. -/
inductive Closes : List Bracket → List Token → List Token → Prop
  | nil (rest : List Token) : Closes [] rest rest
  | array {outer : List Bracket} {behind rest : List Token} (elements : List Value)
      (h : Closes outer behind rest) :
      Closes (.array :: outer)
        (elements.flatMap (fun element => .comma :: element.tokens) ++ .endArray :: behind) rest
  | object {outer : List Bracket} {behind rest : List Token}
      (members : List (List TextUnit × Value)) (h : Closes outer behind rest) :
      Closes (.object :: outer)
        (members.flatMap (fun member => .comma :: Value.memberTokens member) ++
          .endObject :: behind) rest

/-- The tokens begin with what is wanted, close the open brackets and leave the rest. -/
def Wants (opened : List Bracket) (rest : List Token) : Wanted → List Token → Prop
  | .value, tokens =>
    ∃ (value : Value) (behind : List Token),
      tokens = value.tokens ++ behind ∧ Closes opened behind rest
  | .valueOrEnd, tokens =>
    (∃ (value : Value) (behind : List Token),
      tokens = value.tokens ++ behind ∧ Closes opened behind rest) ∨
    ∃ outer behind, opened = .array :: outer ∧ tokens = .endArray :: behind ∧
      Closes outer behind rest
  | .key, tokens =>
    ∃ member behind, tokens = Value.memberTokens member ++ behind ∧ Closes opened behind rest
  | .keyOrEnd, tokens =>
    (∃ member behind, tokens = Value.memberTokens member ++ behind ∧ Closes opened behind rest) ∨
    ∃ outer behind, opened = .object :: outer ∧ tokens = .endObject :: behind ∧
      Closes outer behind rest
  | .colon, tokens =>
    ∃ (value : Value) (behind : List Token),
      tokens = .colon :: (value.tokens ++ behind) ∧ Closes opened behind rest
  | .separator, tokens => Closes opened tokens rest

variable {opened : List Bracket} {tokens left : List Token}

/-- An opening bracket and what is wanted behind it make up an array. -/
theorem wants_array (h : Wants (.array :: opened) left .valueOrEnd tokens) :
    Wants opened left .value (.beginArray :: tokens) := by
  rcases h with ⟨first, behind, rfl, hcloses⟩ | ⟨outer, behind, houter, rfl, hcloses⟩
  · cases hcloses with
    | @array _ behind _ elements hcloses =>
      refine ⟨.array (first :: elements), behind, ?_, hcloses⟩
      simp [Value.tokens_array, separated_cons, List.flatMap_map]
  · cases houter
    exact ⟨.array [], behind, (Value.tokens_array [] behind).symm, hcloses⟩

theorem wants_object (h : Wants (.object :: opened) left .keyOrEnd tokens) :
    Wants opened left .value (.beginObject :: tokens) := by
  rcases h with ⟨first, behind, rfl, hcloses⟩ | ⟨outer, behind, houter, rfl, hcloses⟩
  · cases hcloses with
    | @object _ behind _ members hcloses =>
      refine ⟨.object (first :: members), behind, ?_, hcloses⟩
      simp [Value.tokens_object, separated_cons, List.flatMap_map]
  · cases houter
    exact ⟨.object [], behind, (Value.tokens_object [] behind).symm, hcloses⟩

theorem wants_scalar {token : Token} (htoken : isScalar token = true)
    (h : Closes opened tokens left) : Wants opened left .value (token :: tokens) :=
  ⟨.scalar token htoken, tokens, by rw [Value.tokens_scalar]; rfl, h⟩

/-- Behind a value the brackets around it must be closed, unless there are none. -/
theorem closes_of_closed {outer : List Bracket}
    (h : (match outer with
      | [] => some tokens
      | _ :: _ => rest outer .separator tokens) = some left)
    (hrest : rest outer .separator tokens = some left → Closes outer tokens left) :
    Closes outer tokens left := by
  cases outer with
  | nil =>
    cases h
    exact .nil _
  | cons bracket outer => exact hrest h

theorem wants_of_rest {wanted : Wanted} (h : rest opened wanted tokens = some left) :
    Wants opened left wanted tokens := by
  induction tokens generalizing opened wanted with
  | nil => simp [rest] at h
  | cons token tokens ih =>
    unfold rest at h
    simp only at h
    split at h
    case h_1 outer => exact .inr ⟨outer, tokens, rfl, rfl, closes_of_closed h ih⟩
    case h_2 => exact wants_array (ih h)
    case h_3 => exact .inl (wants_array (ih h))
    case h_4 => exact wants_object (ih h)
    case h_5 => exact .inl (wants_object (ih h))
    case h_6 =>
      split at h
      · next htoken => exact wants_scalar htoken (closes_of_closed h ih)
      · cases h
    case h_7 =>
      split at h
      · next htoken => exact .inl (wants_scalar htoken (closes_of_closed h ih))
      · cases h
    case h_8 outer => exact .inr ⟨outer, tokens, rfl, rfl, closes_of_closed h ih⟩
    case h_9 units =>
      obtain ⟨value, behind, rfl, hcloses⟩ := ih h
      exact .inl ⟨(units, value), behind, rfl, hcloses⟩
    case h_10 units =>
      obtain ⟨value, behind, rfl, hcloses⟩ := ih h
      exact ⟨(units, value), behind, rfl, hcloses⟩
    case h_11 =>
      obtain ⟨value, behind, rfl, hcloses⟩ := ih h
      exact ⟨value, behind, rfl, hcloses⟩
    case h_12 outer =>
      obtain ⟨value, behind, rfl, hcloses⟩ := ih h
      cases hcloses with
      | array elements hcloses => simpa [Wants] using Closes.array (value :: elements) hcloses
    case h_13 outer =>
      obtain ⟨member, behind, rfl, hcloses⟩ := ih h
      cases hcloses with
      | object members hcloses => simpa [Wants] using Closes.object (member :: members) hcloses
    case h_14 outer => exact .array [] (closes_of_closed h ih)
    case h_15 outer => exact .object [] (closes_of_closed h ih)
    case h_16 => cases h

end Skip

/-- What is passed over is a value. -/
theorem exists_value_of_skipValue {tokens rest : List Token} (h : skipValue tokens = some rest) :
    ∃ value : Value, tokens = value.tokens ++ rest := by
  obtain ⟨value, behind, rfl, hcloses⟩ := Skip.wants_of_rest h
  cases hcloses
  exact ⟨value, rfl⟩

end SicMachine.Json
