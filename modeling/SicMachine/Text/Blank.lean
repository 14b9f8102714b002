/-!
White space: the characters with the Unicode property of that name.
-/
namespace SicMachine.Text

/-- The 25 white-space characters of Unicode. -/
def isBlank (c : Char) : Bool :=
  let code := c.toNat
  (9 ≤ code && code ≤ 13) || code == 0x20 || code == 0x85 || code == 0xA0 || code == 0x1680 ||
    (0x2000 ≤ code && code ≤ 0x200A) || code == 0x2028 || code == 0x2029 || code == 0x202F ||
    code == 0x205F || code == 0x3000

/-- The printed characters of ASCII are not blank. -/
theorem isBlank_of_printed {c : Char} (hfrom : 33 ≤ c.toNat) (hto : c.toNat ≤ 126) :
    isBlank c = false := by
  simp [isBlank]
  omega

end SicMachine.Text
