/-!
Hexadecimal text in upper case, and text padded to a width. Widths count
characters, and text that is already wide enough is left alone.
-/
namespace SicMachine.Text

/-- The hexadecimal digits of a number, most significant first. -/
def hexDigits (n : Nat) : List Char := (Nat.toDigits 16 n).map Char.toUpper

/-- At least `width` hexadecimal digits. -/
def hex (width n : Nat) : String := String.ofList ((hexDigits n).leftpad width '0')

/-- A marked hexadecimal number of at least `width` digits. -/
def marked (width n : Nat) : String := "0x" ++ hex width n

/-- Text followed by blanks up to `width` characters. -/
def padRight (width : Nat) (s : String) : String := String.ofList (s.toList.rightpad width ' ')

/-- Text preceded by blanks up to `width` characters. -/
def padLeft (width : Nat) (s : String) : String := String.ofList (s.toList.leftpad width ' ')

theorem exists_digit_of_mem_toDigits {base n : Nat} (hbase : 1 < base) {c : Char}
    (h : c ∈ Nat.toDigits base n) : ∃ d < base, c = Nat.digitChar d := by
  induction n using Nat.strongRecOn with
  | ind n ih =>
    rw [Nat.toDigits_eq_if hbase] at h
    split at h
    · next hn => exact ⟨n, hn, List.mem_singleton.1 h⟩
    · next hn =>
      rcases List.mem_append.1 h with h | h
      · exact ih (n / base) (Nat.div_lt_self (by omega) hbase) h
      · exact ⟨n % base, Nat.mod_lt n (by omega), List.mem_singleton.1 h⟩

/-- What holds of the sixteen digits holds of all characters of hexadecimal text. -/
theorem forall_mem_hex {p : Char → Prop} (h : ∀ d < 16, p (Nat.digitChar d).toUpper)
    (width n : Nat) : ∀ c ∈ (hex width n).toList, p c := by
  intro c hc
  rw [hex, String.toList_ofList, List.leftpad] at hc
  rcases List.mem_append.1 hc with hc | hc
  · rw [List.eq_of_mem_replicate hc]
    exact h 0 (by decide)
  · obtain ⟨digit, hdigit, rfl⟩ := List.mem_map.1 hc
    obtain ⟨d, hd, rfl⟩ := exists_digit_of_mem_toDigits (by decide) hdigit
    exact h d hd

/-- Only zero begins with a zero. -/
theorem head?_toDigits_ne_zero {base n : Nat} (hbase : 1 < base) (h : 0 < n) :
    (Nat.toDigits base n).head? ≠ some '0' := by
  induction n using Nat.strongRecOn with
  | ind n ih =>
    rw [Nat.toDigits_eq_if hbase]
    split
    · simp
      omega
    · next hn =>
      have hless : n / base < n := Nat.div_lt_self h hbase
      have hpositive : 0 < n / base := Nat.div_pos (Nat.le_of_not_lt hn) (by omega)
      have hrest := ih (n / base) hless hpositive
      cases hdigits : Nat.toDigits base (n / base) with
      | nil => exact absurd hdigits Nat.toDigits_ne_nil
      | cons digit digits => rwa [hdigits] at hrest

end SicMachine.Text
