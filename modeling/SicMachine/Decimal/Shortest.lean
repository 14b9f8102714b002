/-!
The shortest decimal that reads back as a given floating-point number, and of
several the nearest; a tie goes to the even digit. All arithmetic is exact, on
natural numbers: a positive number is `mantissa * 2 ^ exponent`, and the reals
that round to it form an interval whose ends belong to it when the mantissa is
even.
-/
namespace SicMachine.Decimal

/-- The number `digits * 10 ^ exponent`. -/
structure Numeral where
  digits : Nat
  exponent : Int
  deriving DecidableEq, Repr

/-- A fraction with a positive denominator. -/
structure Ratio where
  num : Nat
  den : Nat

/-- `numerator * 2 ^ exponent` as a fraction. -/
def Ratio.scaled (numerator : Nat) (exponent : Int) : Ratio :=
  if exponent < 0 then ⟨numerator, Nat.pow 2 (-exponent).toNat⟩
  else ⟨numerator * Nat.pow 2 exponent.toNat, 1⟩

/-- The fraction divided by `10 ^ exponent`. -/
def Ratio.over (r : Ratio) (exponent : Int) : Ratio :=
  if exponent < 0 then ⟨r.num * Nat.pow 10 (-exponent).toNat, r.den⟩
  else ⟨r.num, r.den * Nat.pow 10 exponent.toNat⟩

/-- The exponent of the first digit, found by going down from an upper bound. -/
def leadingExponent (r : Ratio) : Nat → Int → Int
  | 0, exponent => exponent
  | fuel + 1, exponent =>
    let scaled := r.over exponent
    if scaled.den ≤ scaled.num then exponent else leadingExponent r fuel (exponent - 1)

/-- The reals that round to a number, in quarters of its last place. -/
structure Interval where
  low : Ratio
  middle : Ratio
  high : Ratio
  closed : Bool

/-- Below a power of two the neighbours lie half as far apart. -/
def Interval.around (mantissa : Nat) (exponent : Int) (narrow : Bool) : Interval where
  low := .scaled (4 * mantissa - if narrow then 1 else 2) (exponent - 2)
  middle := .scaled (4 * mantissa) (exponent - 2)
  high := .scaled (4 * mantissa + 2) (exponent - 2)
  closed := mantissa % 2 == 0

/-- Whether `digits * 10 ^ exponent` lies in the interval. -/
def Interval.holds (i : Interval) (digits : Nat) (exponent : Int) : Bool :=
  let low := i.low.over exponent
  let high := i.high.over exponent
  if i.closed then low.num ≤ digits * low.den && digits * high.den ≤ high.num
  else low.num < digits * low.den && digits * high.den < high.num

/-- The best decimal of the interval on the grid of multiples of `10 ^ exponent`, if it has one. -/
def Interval.onGrid? (i : Interval) (exponent : Int) : Option Nat :=
  let middle := i.middle.over exponent
  let below := middle.num / middle.den
  match i.holds below exponent, i.holds (below + 1) exponent with
  | true, true =>
    let twice := 2 * (middle.num % middle.den)
    some (if twice < middle.den ∨ (twice = middle.den ∧ below % 2 = 0) then below else below + 1)
  | true, false => some below
  | false, true => some (below + 1)
  | false, false => none

/-- Tries finer and finer grids, the first of which is `10 ^ exponent`. -/
def Interval.search (i : Interval) : Nat → Int → Numeral
  | 0, exponent => ⟨(i.onGrid? exponent).getD 0, exponent⟩
  | fuel + 1, exponent =>
    match i.onGrid? exponent with
    | some digits => ⟨digits, exponent⟩
    | none => i.search fuel (exponent - 1)

/-- The bit of the sign; the bits below it are the exponent field and the fraction. -/
def signBit : Nat := 0x8000000000000000

/-- The fraction takes 52 bits. -/
def fractionLimit : Nat := 0x10000000000000

/-- The shortest decimal of the magnitude of a finite number. -/
def shortest (x : Float) : Numeral :=
  let bits : Nat := x.toBits.toNat % signBit
  let field : Nat := bits / fractionLimit
  let fraction : Nat := bits % fractionLimit
  if bits = 0 then ⟨0, 0⟩
  else
    let mantissa := if field = 0 then fraction else fraction + fractionLimit
    let exponent : Int := if field = 0 then -1074 else (field : Int) - 1075
    let interval := Interval.around mantissa exponent (fraction == 0 && 1 < field)
    interval.search 17 (leadingExponent interval.middle 700 309)

end SicMachine.Decimal
