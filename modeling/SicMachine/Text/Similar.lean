/-!
The similarity of two words, to find out which word was meant. Two characters
match if they are equal and stand about as far from the front; every character
matches at most once. The similarity is the mean of three shares: the matching
characters in each of the words, and the matches that are in order.
-/
namespace SicMachine.Text

/-- Takes the first free character equal to `c` at a position from `low` to `high`; the first
character of the list stands at `position`. -/
def takeMatch (c : Char) (low high : Nat) : Nat → List (Char × Bool) → Option (List (Char × Bool))
  | _, [] => none
  | position, (d, taken) :: rest =>
    if high < position then none
    else if low ≤ position ∧ d = c ∧ !taken then some ((d, true) :: rest)
    else (takeMatch c low high (position + 1) rest).map ((d, taken) :: ·)

/-- The characters of a word that match, and the characters of the other word with those that are
taken. -/
def matchingFrom (reach : Nat) :
    Nat → List Char → List (Char × Bool) → List Char × List (Char × Bool)
  | _, [], other => ([], other)
  | position, c :: rest, other =>
    match takeMatch c (position - reach) (position + reach) 0 other with
    | none => matchingFrom reach (position + 1) rest other
    | some other =>
      let (found, other) := matchingFrom reach (position + 1) rest other
      (c :: found, other)

/-- Whether the similarity of two words is at least seven tenths. -/
def isSimilar (s t : String) : Bool :=
  let (a, b) := (s.toList, t.toList)
  let reach := max a.length b.length / 2 - 1
  let (found, other) := matchingFrom reach 0 a (b.map (·, false))
  let taken := (other.filter Prod.snd).map Prod.fst
  let count := found.length
  let ordered := count - ((found.zip taken).filter fun pair => pair.1 != pair.2).length / 2
  let whole := a.length * b.length
  0 < count &&
    21 * (count * whole) ≤ 10 * (count * count * (a.length + b.length) + ordered * whole)

end SicMachine.Text
