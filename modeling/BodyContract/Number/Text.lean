import BodyContract.Number.Numeral
/-!
Numbers in plain texts: whole numbers with a sign, and floating-point numbers in the usual
notations.
-/

namespace BodyContract

/-- The number of a text of digits. -/
def digitsValue? (digits : List Char) : Option Nat :=
  if !digits.isEmpty && digits.all Char.isDigit then some (Numeral.value digits) else none

/-- Reads a whole number with an optional sign. -/
def signedWhole? (text : String) : Option Int :=
  match text.toList with
  | '-' :: digits => (digitsValue? digits).map fun value => -value
  | '+' :: digits => (digitsValue? digits).map Int.ofNat
  | digits => (digitsValue? digits).map Int.ofNat

/-- Reads a whole number with an optional plus sign. -/
def unsignedWhole? (text : String) : Option Nat :=
  match text.toList with
  | '+' :: digits => digitsValue? digits
  | digits => digitsValue? digits

/-- Reads a whole number with an optional sign that lies within limits. -/
def wholeBetween? (low high : Int) (text : String) : Option Int :=
  match signedWhole? text with
  | none => none
  | some value => if low ≤ value && value ≤ high then some value else none

namespace Numeral

/-- Reads the exponent of a floating-point number: nothing, or a mark, an optional sign and digits.
-/
def exponentOfText? : List Char → Option (Option (Bool × List Char))
  | [] => some none
  | c :: rest =>
      let (isNegative, digits) :=
        match rest with
        | '-' :: digits => (true, digits)
        | '+' :: digits => (false, digits)
        | digits => (false, digits)
      if (c = 'e' || c = 'E') && !digits.isEmpty && digits.all Char.isDigit then
        some (some (isNegative, digits))
      else
        none

/-- Reads a floating-point number: an optional sign, digits with an optional point before, behind or
between them, and an optional exponent. -/
def ofText? (text : String) : Option Numeral :=
  let (isNegative, unsigned) :=
    match text.toList with
    | '-' :: rest => (true, rest)
    | '+' :: rest => (false, rest)
    | rest => (false, rest)
  let (whole, behindWhole) := unsigned.span Char.isDigit
  let (fraction, behind) :=
    match behindWhole with
    | '.' :: rest =>
        let (digits, others) := rest.span Char.isDigit
        (some digits, others)
    | rest => (none, rest)
  if whole.isEmpty && (fraction.getD []).isEmpty then
    none
  else
    (exponentOfText? behind).map fun exponent => ⟨isNegative, whole, fraction, exponent⟩

end Numeral

end BodyContract
