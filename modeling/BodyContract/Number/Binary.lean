import BodyContract.Number.Power
/-!
Binary floating-point numbers, computed exactly.

A `Binary` is a sign, a mantissa and a power of two. A `Precision` says which of these values a
format has; every operation computes its result exactly as a fraction and then rounds it once, to
the nearest value of the format and, halfway between two, to the one with an even mantissa. Results
beyond the largest value do not exist.
-/

namespace BodyContract

/-- The number `mantissa * 2 ^ exponent`, negated if `isNegative`. The results of rounding are
canonical: zero has the exponent zero, and any other number has a mantissa of full length unless its
exponent is the least one. -/
structure Binary where
  isNegative : Bool
  mantissa : Nat
  exponent : Int
deriving DecidableEq, Repr, Inhabited

/-- A floating-point format: the number of bits of a mantissa, and the least and greatest exponents.
-/
structure Precision where
  bits : Nat
  leastExponent : Int
  greatestExponent : Int
deriving DecidableEq, Repr

namespace Precision

/-- The 64-bit format. -/
def double : Precision := ⟨53, -1074, 971⟩

/-- The 32-bit format. -/
def single : Precision := ⟨24, -149, 104⟩

end Precision

namespace Binary

/-- Zero with a sign. -/
def zero (isNegative : Bool) : Binary := ⟨isNegative, 0, 0⟩

/-- The quotient rounded to the nearest whole number, a half to the even one. -/
def roundQuotient (numerator denominator : Nat) : Nat :=
  let floor := numerator / denominator
  let rest := 2 * (numerator % denominator)
  if denominator < rest || (rest == denominator && floor % 2 == 1) then floor + 1 else floor

/-- `numerator / denominator` in units of `2 ^ exponent`, rounded to a whole number. -/
def roundUnits (numerator denominator : Nat) (exponent : Int) : Nat :=
  if 0 ≤ exponent then
    roundQuotient numerator (denominator * twoTo exponent.toNat)
  else
    roundQuotient (numerator * twoTo (-exponent).toNat) denominator

/-- The exponent at which the whole part of a positive fraction has exactly `bits` binary digits. -/
def fullExponent (bits numerator denominator : Nat) : Int :=
  let guess : Int := numerator.log2 - denominator.log2 - bits
  let reaches : Bool :=
    if 0 ≤ guess + bits then
      denominator * twoTo (guess + bits).toNat ≤ numerator
    else
      denominator ≤ numerator * twoTo (-(guess + bits)).toNat
  if reaches then guess + 1 else guess

/-- The value of a format that is nearest to a fraction, which is not negative. -/
def ofFraction? (precision : Precision) (isNegative : Bool) (numerator denominator : Nat) :
    Option Binary :=
  if numerator = 0 then
    some (zero isNegative)
  else
    let exponent := max (fullExponent precision.bits numerator denominator) precision.leastExponent
    let units := roundUnits numerator denominator exponent
    if units = 0 then
      some (zero isNegative)
    else
      let rounded : Binary :=
        if units = twoTo precision.bits then
          ⟨isNegative, twoTo (precision.bits - 1), exponent + 1⟩
        else
          ⟨isNegative, units, exponent⟩
      if precision.greatestExponent < rounded.exponent then none else some rounded

/-- The value nearest to `numerator / denominator * 2 ^ exponent`. -/
def ofScaled? (precision : Precision) (isNegative : Bool) (numerator denominator : Nat)
    (exponent : Int) : Option Binary :=
  if 0 ≤ exponent then
    ofFraction? precision isNegative (numerator * twoTo exponent.toNat) denominator
  else
    ofFraction? precision isNegative numerator (denominator * twoTo (-exponent).toNat)

/-- The value nearest to `coefficient * 10 ^ exponent`, for a coefficient with `digits` digits.
Powers of ten that are out of reach of the 64-bit format are not computed. -/
def ofDecimal? (precision : Precision) (isNegative : Bool) (digits coefficient : Nat)
    (exponent : Int) : Option Binary :=
  if coefficient = 0 || digits + exponent < -400 then
    some (zero isNegative)
  else if 400 < digits + exponent then
    none
  else if 0 ≤ exponent then
    ofFraction? precision isNegative (coefficient * tenTo exponent.toNat) 1
  else
    ofFraction? precision isNegative coefficient (tenTo (-exponent).toNat)

/-- The 64-bit value nearest to a whole number, which is small enough to have one. -/
def ofInt (value : Int) : Binary :=
  (ofFraction? .double (value < 0) value.natAbs 1).getD (zero (value < 0))

/-- The rounded product of two 64-bit values. -/
def mul? (left right : Binary) : Option Binary :=
  ofScaled? .double (left.isNegative != right.isNegative) (left.mantissa * right.mantissa) 1
    (left.exponent + right.exponent)

/-- The rounded quotient of two 64-bit values, the second of which is not zero. -/
def div? (left right : Binary) : Option Binary :=
  ofScaled? .double (left.isNegative != right.isNegative) left.mantissa right.mantissa
    (left.exponent - right.exponent)

/-- The same number in the 64-bit format. -/
def widen (value : Binary) : Binary :=
  (ofScaled? .double value.isNegative value.mantissa 1 value.exponent).getD value

/-- The opposite number. -/
def neg (value : Binary) : Binary := { value with isNegative := !value.isNegative }

/-- The number in units of `2 ^ exponent`, for an exponent that is not above its own. -/
def inUnits (value : Binary) (exponent : Int) : Int :=
  let units : Int := value.mantissa * twoTo (value.exponent - exponent).toNat
  if value.isNegative then -units else units

/-- Compares two numbers. Both zeros are equal. -/
def compare (left right : Binary) : Ordering :=
  let exponent := min left.exponent right.exponent
  Ord.compare (left.inUnits exponent) (right.inUnits exponent)

/-- Whether two numbers are equal. Both zeros are. -/
def equals (left right : Binary) : Bool := left.compare right == .eq

end Binary

end BodyContract
