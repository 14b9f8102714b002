import Mathlib.Data.List.Basic

/-!
Text compared by its bytes. The first byte of a character tells how many bytes
it has, and more of them for a larger code; among characters of one width the
bytes give the digits of the code, the most significant first. So the bytes of
two characters compare as the characters do, whatever text stands behind them,
and a listing that is ordered by characters is ordered by bytes.
-/
namespace SicMachine.Text

/-- The bytes in which a text is kept. -/
def bytes (s : String) : List UInt8 := s.toUTF8.data.toList

theorem bytes_eq_flatMap (s : String) : bytes s = s.toList.flatMap String.utf8EncodeChar := by
  rw [bytes, String.toUTF8, ← String.utf8Encode_toList, List.utf8Encode]
  simp

theorem toNat_lt_codeLimit (c : Char) : c.val.toNat < 1114112 := by
  rcases c.valid with h | h
  · omega
  · exact h.2

/-- The character with the smaller code has the smaller bytes, whatever follows. -/
theorem encode_lt {c d : Char} (h : c < d) (left right : List UInt8) :
    String.utf8EncodeChar c ++ left < String.utf8EncodeChar d ++ right := by
  have hcode : c.val.toNat < d.val.toNat := h
  have hlimit := toNat_lt_codeLimit d
  unfold String.utf8EncodeChar
  dsimp only
  -- A lead byte decides between two widths, and the digits of the code within one width.
  split_ifs
  all_goals
    simp (disch := omega) only [List.cons_append, List.nil_append, List.cons_lt_cons_iff,
      UInt8.lt_iff_toNat_lt, ← UInt8.toNat_inj, UInt8.toNat_ofNat', Nat.mod_eq_of_lt]
    omega

theorem encode_ne_nil (c : Char) : String.utf8EncodeChar c ≠ [] := by
  have hpos := c.utf8Size_pos
  rw [← String.length_utf8EncodeChar] at hpos
  exact List.ne_nil_of_length_pos hpos

theorem flatMap_encode_lt {left right : List Char} (h : left < right) :
    left.flatMap String.utf8EncodeChar < right.flatMap String.utf8EncodeChar := by
  induction h with
  | @nil d rest =>
    obtain ⟨first, more, hfirst⟩ := List.exists_cons_of_ne_nil (encode_ne_nil d)
    rw [List.flatMap_cons, hfirst]
    exact .nil
  | rel hless =>
    rw [List.flatMap_cons, List.flatMap_cons]
    exact encode_lt hless _ _
  | cons _ ih =>
    rw [List.flatMap_cons, List.flatMap_cons]
    exact List.append_left_lt ih

theorem bytes_lt_of_lt {left right : String} (h : left < right) : bytes left < bytes right := by
  rw [bytes_eq_flatMap, bytes_eq_flatMap]
  exact flatMap_encode_lt h

/-- Texts compare by their bytes as they do by their characters. -/
theorem bytes_lt_iff {left right : String} : bytes left < bytes right ↔ left < right := by
  constructor
  · intro h
    by_contra hless
    rcases Std.le_iff_lt_or_eq.1 (Std.not_lt.1 hless) with hmore | rfl
    · exact List.lt_asymm h (bytes_lt_of_lt hmore)
    · exact List.lt_irrefl _ h
  · exact bytes_lt_of_lt

end SicMachine.Text
