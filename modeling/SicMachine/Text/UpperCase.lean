import SicMachine.Text.UpperCase.Table

/-!
Upper-casing over all of Unicode, character by character and whatever stands
beside it. One character may become up to three.
-/
namespace SicMachine.Text

def upperChar (c : Char) : List Char :=
  if c.toNat < 0x80 then [c.toUpper]
  else
    match caseRuns.findSome? (·.image? c.toNat) with
    | some code => [Char.ofNat code]
    | none =>
      match caseExpansions.lookup c.toNat with
      | some codes => codes.map Char.ofNat
      | none => [c]

def upperCase (s : String) : String := String.ofList (s.toList.flatMap upperChar)

end SicMachine.Text
