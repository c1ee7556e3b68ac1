import BodyContract.Json.Basic
/-!
Forms that a value can be asked to have.
-/

namespace BodyContract

/-- A form of values. -/
inductive Shape where
  | any
  | text
  | texts
  | truth
  /-- A whole number of 64 bits with a sign. -/
  | signed64
  /-- A whole number of 32 bits without a sign. -/
  | unsigned32
  /-- A list of whole numbers of 8 bits without a sign. -/
  | bytes
  /-- A floating-point number, which a whole number is rounded to. -/
  | double
deriving DecidableEq, Repr

namespace Json

/-- Whether the value is a text. -/
def isText : Json → Bool
  | .string _ => true
  | _ => false

/-- Whether the value is a whole number within limits. -/
def isIntBetween (low high : Int) : Json → Bool
  | .number (.int value) => low ≤ value && value ≤ high
  | _ => false

/-- The value in a form, if it has that form. -/
def ofShape? (shape : Shape) (value : Json) : Option Json :=
  match shape, value with
  | .any, _ => some value
  | .text, .string _ => some value
  | .texts, .array elements => if elements.all isText then some value else none
  | .truth, .bool _ => some value
  | .signed64, .number _ =>
      if value.isIntBetween (-twoTo 63) (twoTo 63 - 1) then some value else none
  | .unsigned32, .number _ => if value.isIntBetween 0 (twoTo 32 - 1) then some value else none
  | .bytes, .array elements => if elements.all (isIntBetween 0 255) then some value else none
  | .double, .number amount => some (.number (.float amount.toBinary))
  | _, _ => none

end Json

end BodyContract
