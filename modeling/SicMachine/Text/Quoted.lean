import SicMachine.Text.Quoted.Table

/-!
Text in double quotes for messages: a quote and a backslash follow a
backslash, five controls have letters, and characters without a visible form
of their own are spelled out by their number in braces.
-/
namespace SicMachine.Text

/-- Whether an odd number of the bounds lie at or below the character. -/
def isSpelledOut (c : Char) : Bool :=
  spelledOutBounds.foldl (fun inside bound => if bound ≤ c.toNat then !inside else inside)
    (c.toNat < 0x20)

def quoteChar (c : Char) : List Char :=
  match c with
  | '\x00' => ['\\', '0']
  | '\t' => ['\\', 't']
  | '\n' => ['\\', 'n']
  | '\r' => ['\\', 'r']
  | '"' => ['\\', '"']
  | '\\' => ['\\', '\\']
  | c =>
    if isSpelledOut c then ['\\', 'u', '\x7b'] ++ Nat.toDigits 16 c.toNat ++ ['\x7d'] else [c]

def quoted (s : String) : String := String.ofList ('"' :: s.toList.flatMap quoteChar ++ ['"'])

end SicMachine.Text
