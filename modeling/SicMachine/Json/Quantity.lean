import SicMachine.Decimal.Shortest

/-!
The values of numbers in JSON text. A number without a point and an exponent
is an integer when 64 bits hold it; every other number is a floating-point
number, taken from the first digits that 64 bits hold and a power of ten. A
number beyond the largest floating-point number has no value.
-/
namespace SicMachine.Json

inductive Quantity where
  | natural (n : Nat)
  /-- The number `-n`, for a positive `n`. -/
  | negative (n : Nat)
  | float (x : Float)

namespace Quantity

/-- Significands stay below this bound. -/
def significandLimit : Nat := 18446744073709551616

/-- Exponents stay below this bound. -/
def exponentLimit : Nat := 2147483648

/-- The parts of a number as it is written. -/
structure Parts where
  negative : Bool
  whole : List Char
  fraction : Option (List Char)
  /-- Whether the exponent is negative, and its digits. -/
  exponent : Option (Bool × List Char)

def Parts.ofWritten (written : List Char) : Parts :=
  let negative := written.head? == some '-'
  let unsigned := if negative then written.drop 1 else written
  let whole := unsigned.takeWhile Char.isDigit
  let rest := unsigned.dropWhile Char.isDigit
  let (fraction, rest) :=
    match rest with
    | '.' :: rest => (some (rest.takeWhile Char.isDigit), rest.dropWhile Char.isDigit)
    | rest => (none, rest)
  let exponent :=
    match rest with
    | _ :: '-' :: digits => some (true, digits)
    | _ :: '+' :: digits => some (false, digits)
    | _ :: digits => some (false, digits)
    | [] => none
  { negative, whole, fraction, exponent }

def digitOf (c : Char) : Nat := c.toNat - 48

/-- The digits that fit below a limit as a number, and the digits left over. -/
def absorb (limit : Nat) : Nat → List Char → Nat × List Char
  | value, [] => (value, [])
  | value, c :: rest =>
    if value * 10 + digitOf c < limit then absorb limit (value * 10 + digitOf c) rest
    else (value, c :: rest)

/-- Ten to a power that a floating-point number holds. -/
def powerOfTen (n : Nat) : Float := Float.ofScientific 1 false n

/-- Divides by a power of ten, 308 places at a time. -/
def scaleDown : Nat → Float → Nat → Float
  | 0, x, _ => x
  | fuel + 1, x, places =>
    if places ≤ 308 then x / powerOfTen places
    else if x == 0 then x
    else scaleDown fuel (x / powerOfTen 308) (places - 308)

/-- Multiplies by a power of ten; none when the product is too large. -/
def scaleUp (x : Float) (places : Nat) : Option Float :=
  if places ≤ 308 then
    let product := x * powerOfTen places
    if product.isInf then none else some product
  else if x == 0 then some x
  else none

/-- The magnitude `significand * 10 ^ exponent`. -/
def scaled (significand : Nat) (exponent : Int) : Option Float :=
  let x := significand.toUInt64.toFloat
  if exponent < 0 then some (scaleDown 8 x (-exponent).toNat) else scaleUp x exponent.toNat

def signed (negative : Bool) (x : Float) : Float := if negative then -x else x

/-- The floating-point number with this significand, further power of ten and written exponent. -/
def floatOf? (negative : Bool) (significand : Nat) (raised : Int) :
    Option (Bool × List Char) → Option Float
  | none => (scaled significand raised).map (signed negative)
  | some (down, digits) =>
    match absorb exponentLimit 0 digits with
    | (exponent, []) =>
      (scaled significand (if down then raised - exponent else raised + exponent)).map
        (signed negative)
    | (_, _ :: _) =>
      if significand = 0 ∨ down then some (signed negative 0) else none

/-- The value of a number as it is written. -/
def ofWritten? (written : List Char) : Option Quantity :=
  let parts := Parts.ofWritten written
  let (value, beyond) := absorb significandLimit 0 parts.whole
  match parts.fraction, parts.exponent, beyond with
  | none, none, [] =>
    if !parts.negative then some (natural value)
    else if 0 < value ∧ value ≤ 9223372036854775808 then some (negative value)
    else some (float (-value.toUInt64.toFloat))
  | fraction, exponent, beyond =>
    let digits := fraction.getD []
    let (significand, dropped) := absorb significandLimit value digits
    let raised : Int := beyond.length - (digits.length - dropped.length : Nat)
    (floatOf? parts.negative significand raised exponent).map float

/-- A decimal fraction with its digits in a row: the point stands after `digits.length + exponent`
of them. -/
def positional (digits : List Char) (exponent : Int) : List Char :=
  let point := digits.length + exponent
  if 0 ≤ exponent then digits ++ List.replicate exponent.toNat '0' ++ ['.', '0']
  else if 0 < point then digits.take point.toNat ++ '.' :: digits.drop point.toNat
  else ['0', '.'] ++ List.replicate (-point).toNat '0' ++ digits

/-- One digit before the point, and the exponent with its sign. -/
def scientific (digits : List Char) (leading : Int) : List Char :=
  let mantissa :=
    match digits with
    | first :: [] => [first]
    | first :: rest => first :: '.' :: rest
    | [] => []
  mantissa ++ ['e', if leading < 0 then '-' else '+'] ++ Nat.toDigits 10 leading.natAbs

/-- Drops the zeros at the end of the digits. -/
def stripZeros (digits : List Char) : List Char :=
  (digits.reverse.dropWhile (· == '0')).reverse

/-- The shortest digits that read back, in a row as long as the first of them stands between the
fifth place behind the point and the sixteenth before it. -/
def floatText (x : Float) : String :=
  let sign := if x.toBits.toNat < Decimal.signBit then [] else ['-']
  let decimal := Decimal.shortest x
  let all := Nat.toDigits 10 decimal.digits
  let leading : Int := all.length - 1 + decimal.exponent
  let digits := stripZeros all
  let text :=
    if decimal.digits = 0 then ['0', '.', '0']
    else if -5 ≤ leading ∧ leading ≤ 15 then positional digits (leading + 1 - digits.length)
    else scientific digits leading
  String.ofList (sign ++ text)

end Quantity

end SicMachine.Json
