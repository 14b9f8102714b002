import SicMachine.Json.Record

/-!
What arrays are read. An array is read exactly if each of its elements is, and
the readers for arrays of a fixed length and of any length differ in nothing
but the length. The two statements are equivalences: they serve for reading
back what has been written as well as for telling what a text that is read
has in it.
-/
namespace SicMachine.Json.Reader

variable {α : Type} {element : Scalar α} {done result values : List α} {tokens rest : List Token}

theorem moreElements_of_map {parts : List Token} {more : List α}
    (h : parts.map element = more.map .ok) (done : List α) (rest : List Token) :
    moreElements element done
        (parts.flatMap (fun token => [.comma, token]) ++ .endArray :: rest) =
      .ok (done.reverse ++ more, rest) := by
  induction parts generalizing done more with
  | nil =>
    cases more with
    | nil => simp [moreElements]
    | cons value more => cases h
  | cons token parts ih =>
    cases more with
    | nil => cases h
    | cons value more =>
      obtain ⟨htoken, hparts⟩ := List.cons.inj h
      have hmore := ih hparts (value :: done)
      simp only [List.flatMap_cons, List.cons_append, List.nil_append, moreElements, htoken]
      simpa using hmore

theorem exists_map_of_moreElements (h : moreElements element done tokens = .ok (result, rest)) :
    ∃ (parts : List Token) (more : List α), parts.map element = more.map .ok ∧
      result = done.reverse ++ more ∧
        tokens = parts.flatMap (fun token => [.comma, token]) ++ .endArray :: rest := by
  revert h
  fun_induction moreElements element done tokens with
  | case1 done tokens =>
    intro h
    cases h
    exact ⟨[], [], rfl, by simp, rfl⟩
  | case2 done token tokens value hvalue ih =>
    intro h
    obtain ⟨parts, more, hparts, rfl, rfl⟩ := ih h
    exact ⟨token :: parts, value :: more, by simp [hvalue, hparts], by simp, by simp⟩
  | case3 => nofun
  | case4 => nofun

/-- The number of elements decides whether an array has the length that is asked for. -/
theorem dueElements_eq_ok_iff {length due : Nat} :
    dueElements element length due done tokens = .ok (result, rest) ↔
      moreElements element done tokens = .ok (result, rest) ∧
        result.length = done.length + due := by
  fun_induction dueElements element length due done tokens with
  | case1 done tokens =>
    simp only [moreElements, Except.ok.injEq, Prod.mk.injEq, iff_self_and, Nat.add_zero]
    rintro ⟨rfl, -⟩
    exact List.length_reverse
  | case2 due done tokens =>
    simp only [moreElements, Except.ok.injEq, Prod.mk.injEq, reduceCtorEq, false_iff, not_and]
    rintro ⟨rfl, -⟩
    simp
  | case3 due done token tokens value hvalue ih =>
    rw [ih, moreElements, hvalue, List.length_cons, Nat.add_right_comm, Nat.add_assoc]
  | case4 due done token tokens failure hvalue => simp [moreElements, hvalue]
  | case5 due done tokens hend _ hcomma =>
    simp only [reduceCtorEq, false_iff, not_and]
    intro h hlength
    obtain ⟨parts, more, hparts, rfl, rfl⟩ := exists_map_of_moreElements h
    have hmore := congrArg List.length hparts
    simp only [List.length_map, List.length_append, List.length_reverse] at hmore hlength
    -- There are as many elements behind the first as are due.
    cases parts with
    | nil =>
      rw [List.length_nil] at hmore
      exact hend rest (by omega) rfl
    | cons token parts =>
      rw [List.length_cons] at hmore
      exact hcomma (due - 1) token _ (by omega) rfl

theorem array_cons {token : Token} (htoken : token ≠ .endArray) :
    array element (.beginArray :: token :: tokens) =
      match element token with
      | .ok value => moreElements element [value] tokens
      | .error failure => .error failure := by
  cases token with
  | endArray => exact absurd rfl htoken
  | _ => rfl

/-- Every array begins with its bracket and has something behind it. -/
theorem exists_cons_of_array (h : array element tokens = .ok (values, rest)) :
    ∃ token behind, tokens = .beginArray :: token :: behind := by
  unfold array at h
  split at h
  · exact ⟨_, _, rfl⟩
  · exact ⟨_, _, rfl⟩
  · cases h
  · cases h
  · cases h

/-- An array is read exactly if each of its elements is. -/
theorem array_eq_ok_iff (hend : ∀ value, element .endArray ≠ .ok value) :
    array element tokens = .ok (values, rest) ↔
      ∃ parts : List Token, parts.map element = values.map .ok ∧
        tokens = arrayTokens (parts.map fun token => [token]) ++ rest := by
  constructor
  · intro h
    obtain ⟨token, behind, rfl⟩ := exists_cons_of_array h
    by_cases htoken : token = .endArray
    · subst htoken
      cases h
      exact ⟨[], rfl, rfl⟩
    · rw [array_cons htoken] at h
      cases hvalue : element token with
      | error failure =>
        rw [hvalue] at h
        cases h
      | ok value =>
        rw [hvalue] at h
        obtain ⟨parts, more, hparts, rfl, rfl⟩ := exists_map_of_moreElements h
        refine ⟨token :: parts, by simp [hvalue, hparts], ?_⟩
        simp [arrayTokens, separated_cons, List.flatMap_map]
  · rintro ⟨parts, hparts, rfl⟩
    cases parts with
    | nil =>
      obtain rfl : values = [] := List.map_eq_nil_iff.1 hparts.symm
      rfl
    | cons token parts =>
      cases values with
      | nil => cases hparts
      | cons value values =>
        obtain ⟨hvalue, hvalues⟩ := List.cons.inj hparts
        have htoken : token ≠ .endArray := by
          rintro rfl
          exact hend value hvalue
        have htokens : arrayTokens ((token :: parts).map fun token => [token]) ++ rest =
            .beginArray :: token ::
              (parts.flatMap (fun token => [.comma, token]) ++ .endArray :: rest) := by
          simp [arrayTokens, separated_cons, List.flatMap_map]
        rw [htokens, array_cons htoken, hvalue]
        exact moreElements_of_map hvalues [value] rest

/-- An array of a fixed length is an array that happens to have it. -/
theorem fixedArray_eq_ok_iff {length : Nat} :
    fixedArray element length tokens = .ok (values, rest) ↔
      array element tokens = .ok (values, rest) ∧ values.length = length := by
  unfold fixedArray
  split
  · next tokens =>
    simp only [array, Except.ok.injEq, Prod.mk.injEq]
    split
    · next hlength =>
      subst hlength
      simp only [Except.ok.injEq, Prod.mk.injEq, iff_self_and]
      rintro ⟨rfl, -⟩
      rfl
    · next hlength =>
      simp only [reduceCtorEq, false_iff]
      rintro ⟨⟨rfl, -⟩, h⟩
      exact hlength h.symm
  · next token tokens htoken =>
    rw [array_cons htoken]
    cases element token with
    | error failure => split <;> simp
    | ok value =>
      simp only
      split
      · next hlength =>
        simp only [reduceCtorEq, false_iff, not_and]
        intro h
        obtain ⟨parts, more, -, rfl, -⟩ := exists_map_of_moreElements h
        simp [hlength]
      · next hlength =>
        have hdue : [value].length + (length - 1) = length := by
          simp only [List.length_singleton]
          omega
        rw [dueElements_eq_ok_iff, hdue]
  · simp [array]
  · next token tokens hempty hsome hnone =>
    have harray : ¬ array element (token :: tokens) = .ok (values, rest) := by
      intro h
      obtain ⟨next, behind, hcons⟩ := exists_cons_of_array h
      obtain ⟨htoken, hrest⟩ := List.cons.inj hcons
      exact hsome next behind htoken hrest
    simp [harray]
  · simp [array]

end SicMachine.Json.Reader
