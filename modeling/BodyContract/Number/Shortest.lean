import BodyContract.Number.Binary
/-!
The shortest decimal that reads back as a given binary number.

Among all decimals that are rounded to the number, those with the fewest digits are taken, and among
these the one nearest to it; of two that are equally near, the one whose last digit is even.
-/

namespace BodyContract

/-- Decimal digits `d₁d₂…` and the power of ten that belongs to the first of them: the number
`d₁.d₂… * 10 ^ exponent`. -/
structure DecimalDigits where
  digits : List Char
  exponent : Int
deriving DecidableEq, Repr, Inhabited

namespace Binary

/-- `value * 4` as a fraction, where `value` is `mantissa * 2 ^ exponent`. Quarters make room for
the ends of the interval that is rounded to a number. -/
def quarters (mantissaQuarters : Nat) (exponent : Int) : Nat × Nat :=
  if 0 ≤ exponent then
    (mantissaQuarters * twoTo exponent.toNat, 4)
  else
    (mantissaQuarters, 4 * twoTo (-exponent).toNat)

/-- Compares `units * 10 ^ power` with a fraction. -/
def compareGrid (units : Nat) (power : Int) (fraction : Nat × Nat) : Ordering :=
  if 0 ≤ power then
    Ord.compare (units * tenTo power.toNat * fraction.2) fraction.1
  else
    Ord.compare (units * fraction.2) (fraction.1 * tenTo (-power).toNat)

/-- The number of decimal digits of a whole number; zero has none. -/
def digitCount (value : Nat) : Nat :=
  if value = 0 then 0 else (Nat.toDigits 10 value).length

/-- The power of ten that belongs to the first digit of a positive fraction. -/
def leadingPower (fraction : Nat × Nat) : Int :=
  if fraction.2 ≤ fraction.1 then
    digitCount (fraction.1 / fraction.2) - 1
  else
    -(digitCount ((fraction.2 + fraction.1 - 1) / fraction.1 - 1) : Int)

/-- What is rounded to a number: the number itself and the ends of the interval, and whether the
ends belong to it. -/
structure RoundingInterval where
  value : Nat × Nat
  low : Nat × Nat
  high : Nat × Nat
  isClosed : Bool

namespace RoundingInterval

/-- The interval of a positive 64-bit value. Below the least number with its exponent the values lie
twice as close. -/
def ofBinary (number : Binary) : RoundingInterval :=
  let quarter := number.mantissa * 4
  let isLeast := number.mantissa == twoTo (Precision.double.bits - 1) &&
    Precision.double.leastExponent < number.exponent
  { value := quarters quarter number.exponent
    low := quarters (quarter - (if isLeast then 1 else 2)) number.exponent
    high := quarters (quarter + 2) number.exponent
    isClosed := number.mantissa % 2 == 0 }

/-- Whether a decimal lies in the interval. -/
def contains (interval : RoundingInterval) (units : Nat) (power : Int) : Bool :=
  match compareGrid units power interval.low, compareGrid units power interval.high with
  | .gt, .lt => true
  | .eq, _ => interval.isClosed
  | _, .eq => interval.isClosed
  | _, _ => false

/-- Whether the value lies in the lower half between a decimal and the next one of its grid, or in
the middle and the lower decimal is even. -/
def prefersLower (interval : RoundingInterval) (units : Nat) (power : Int) : Bool :=
  let middle := compareGrid (2 * units + 1) power (2 * interval.value.1, interval.value.2)
  middle == .gt || (middle == .eq && units % 2 == 0)

/-- The neighbours of the value on the grid of `10 ^ power`, if one of them lies in the interval: of
two that do, the nearer. -/
def onGrid? (interval : RoundingInterval) (power : Int) : Option Nat :=
  let lower :=
    if 0 ≤ power then
      interval.value.1 / (interval.value.2 * tenTo power.toNat)
    else
      interval.value.1 * tenTo (-power).toNat / interval.value.2
  match interval.contains lower power, interval.contains (lower + 1) power with
  | true, true => some (if interval.prefersLower lower power then lower else lower + 1)
  | true, false => some lower
  | false, true => some (lower + 1)
  | false, false => none

/-- Tries the grids from `power` downwards, `fuel` of them. -/
def searchAux (interval : RoundingInterval) : Nat → Int → Nat × Int
  | 0, power => (0, power)
  | fuel + 1, power =>
      match interval.onGrid? power with
      | some units => (units, power)
      | none => searchAux interval fuel (power - 1)

end RoundingInterval

/-- Drops the zeros at the end of a list of digits. -/
def dropTrailingZeros (digits : List Char) : List Char :=
  (digits.reverse.dropWhile (· == '0')).reverse

/-- The shortest decimal of a 64-bit value without its sign. Seventeen digits always suffice. -/
def shortest (number : Binary) : DecimalDigits :=
  if number.mantissa = 0 then
    ⟨['0'], 0⟩
  else
    let interval := RoundingInterval.ofBinary number
    let (units, power) := interval.searchAux 18 (leadingPower interval.value)
    let digits := Nat.toDigits 10 units
    ⟨dropTrailingZeros digits, power + digits.length - 1⟩

end Binary

end BodyContract
