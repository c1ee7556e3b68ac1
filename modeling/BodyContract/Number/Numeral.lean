import BodyContract.Number.Binary
/-!
Decimal numerals: an optional minus sign, digits, an optional fraction and an optional exponent, and
the numbers that they stand for.

* `Numeral.toNumber?` reads a numeral as a whole number if it is written as one and fits into 64
  bits, and as a 64-bit floating-point number otherwise.
* `Numeral.nearest?` is the floating-point number nearest to a numeral.
-/

namespace BodyContract

/-- A number of a document. A numeral without fraction and exponent is a whole number if it lies
between `-2 ^ 63` and `2 ^ 64 - 1`. -/
inductive Number where
  | int (value : Int)
  | float (value : Binary)
deriving DecidableEq, Repr, Inhabited

/-- The parts of a numeral. All digits are decimal ones. -/
structure Numeral where
  isNegative : Bool
  whole : List Char
  fraction : Option (List Char)
  exponent : Option (Bool × List Char)
deriving DecidableEq, Repr, Inhabited

namespace Numeral

/-- The value of a decimal digit. -/
def digitValue (digit : Char) : Nat := digit.toNat - '0'.toNat

/-- The number that digits are the decimal notation of, behind the digits of `total`. -/
def valueFrom (total : Nat) (digits : List Char) : Nat :=
  digits.foldl (fun total digit => total * 10 + digitValue digit) total

/-- The number that digits are the decimal notation of. -/
def value (digits : List Char) : Nat := valueFrom 0 digits

/-- The largest number that the leading digits of a numeral are read into. -/
def significandLimit : Nat := twoTo 64 - 1

/-- The largest exponent that is read as a number. -/
def exponentLimit : Nat := twoTo 31 - 1

/-- Reads digits behind those of `total` as long as the value stays within the limit, and counts the
digits that are left. -/
def leading (total : Nat) : List Char → Nat × Nat
  | [] => (total, 0)
  | digit :: rest =>
      let next := total * 10 + digitValue digit
      if significandLimit < next then (total, rest.length + 1) else leading next rest

/-- The power `10 ^ exponent` as a floating-point number, for exponents up to 308. -/
def powerOfTen (exponent : Nat) : Binary :=
  (Binary.ofFraction? .double false (tenTo exponent) 1).getD (.zero false)

/-- A significand times a power of ten, by one multiplication or division, which are rounded. A
power below `10 ^ -308` takes several divisions, a power above `10 ^ 308` is out of range unless the
significand is zero. -/
def scale (significand : Binary) (exponent : Int) : Option Binary :=
  if exponent < -308 then
    if significand.mantissa = 0 then
      some significand
    else
      match significand.div? (powerOfTen 308) with
      | none => none
      | some quotient => scale quotient (exponent + 308)
  else if exponent < 0 then
    significand.div? (powerOfTen exponent.natAbs)
  else if exponent ≤ 308 then
    significand.mul? (powerOfTen exponent.toNat)
  else if significand.mantissa = 0 then
    some significand
  else
    none
termination_by exponent.natAbs

/-- The floating-point number of a numeral as a document's reader computes it. The leading digits
that fit into 64 bits are the significand; it is scaled by the power of ten that the point, the
digits left out and the exponent make up. The result may differ from the nearest number in its last
bits. -/
def toBinary? (numeral : Numeral) : Option Binary :=
  let (wholePart, wholeLeft) := leading 0 numeral.whole
  let fraction := numeral.fraction.getD []
  let (significand, fractionLeft) := leading wholePart fraction
  let pointExponent : Int := wholeLeft - (fraction.length - fractionLeft : Nat)
  let scaled :=
    match numeral.exponent with
    | none => scale (.ofInt significand) pointExponent
    | some (isNegative, digits) =>
        let exponent := value digits
        if exponentLimit < exponent then
          if significand ≠ 0 && !isNegative then none else some (.zero false)
        else
          scale (.ofInt significand)
            (if isNegative then pointExponent - exponent else pointExponent + exponent)
  scaled.map fun magnitude => if numeral.isNegative then magnitude.neg else magnitude

/-- The number of a numeral in a document; nothing if it is too large for a floating-point number.
-/
def toNumber? (numeral : Numeral) : Option Number :=
  if numeral.fraction.isNone && numeral.exponent.isNone then
    let magnitude := value numeral.whole
    if numeral.isNegative then
      if magnitude = 0 then
        some (.float (.zero true))
      else if magnitude ≤ twoTo 63 then
        some (.int (-magnitude))
      else
        numeral.toBinary?.map .float
    else if magnitude ≤ significandLimit then
      some (.int magnitude)
    else
      numeral.toBinary?.map .float
  else
    numeral.toBinary?.map .float

/-- The floating-point number nearest to a numeral. -/
def nearest? (precision : Precision) (numeral : Numeral) : Option Binary :=
  let fraction := numeral.fraction.getD []
  let digits := (numeral.whole ++ fraction).dropWhile (· == '0')
  let written : Int :=
    match numeral.exponent with
    | none => 0
    | some (isNegative, exponent) => if isNegative then -(value exponent : Int) else value exponent
  Binary.ofDecimal? precision numeral.isNegative digits.length (value digits)
    (written - fraction.length)

end Numeral

end BodyContract
