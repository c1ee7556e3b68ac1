import BodyContract.Json.Basic
import BodyContract.Number.Shortest
/-!
Documents as compact JSON text: no blanks, members in their order, and in strings only the quote,
the backslash and the characters below `U+0020` escaped.

A floating-point number is written with the shortest digits that read back. It is written out in
full, always with a fraction, if the power of its first digit is at least `-5` and below `16`, and
with a signed exponent otherwise.
-/

namespace BodyContract

/-- A hexadecimal digit in lower case. -/
def hexDigit (value : Nat) : Char := Nat.digitChar value

/-- The last `count` hexadecimal digits of a number, in lower case. -/
def hexDigits (value : Nat) : (count : Nat) → List Char
  | 0 => []
  | count + 1 => hexDigits (value / 16) count ++ [hexDigit (value % 16)]

namespace DecimalDigits

/-- The least power of a first digit with which a number is written out in full. -/
def leastPlainExponent : Int := -5

/-- The power of a first digit from which on an exponent is written. -/
def scientificExponent : Int := 16

/-- A decimal in full, with at least one digit on either side of the point. -/
def plain (decimal : DecimalDigits) : List Char :=
  if decimal.exponent < 0 then
    '0' :: '.' :: (List.replicate (decimal.exponent.natAbs - 1) '0' ++ decimal.digits)
  else
    let wholeCount := decimal.exponent.toNat + 1
    let digits := decimal.digits
    let whole := digits.take wholeCount ++ List.replicate (wholeCount - digits.length) '0'
    let fraction := digits.drop wholeCount
    whole ++ '.' :: (if fraction.isEmpty then ['0'] else fraction)

/-- A decimal with one digit before the point and a signed exponent. -/
def scientific (decimal : DecimalDigits) : List Char :=
  let mantissa :=
    match decimal.digits with
    | first :: second :: rest => first :: '.' :: second :: rest
    | digits => digits
  let sign := if decimal.exponent < 0 then '-' else '+'
  mantissa ++ 'e' :: sign :: Nat.toDigits 10 decimal.exponent.natAbs

/-- The decimal as it stands in a document. -/
def text (decimal : DecimalDigits) : List Char :=
  if leastPlainExponent ≤ decimal.exponent && decimal.exponent < scientificExponent then
    decimal.plain
  else
    decimal.scientific

end DecimalDigits

namespace Number

/-- A number as it stands in a document. -/
def text : Number → List Char
  | .int value => (toString value).toList
  | .float value =>
      if value.isNegative then '-' :: value.shortest.text else value.shortest.text

end Number

namespace Json

/-- A character inside a string. -/
def escapeChar (c : Char) : List Char :=
  if c = '"' then ['\\', '"']
  else if c = '\\' then ['\\', '\\']
  else if c = '\x08' then ['\\', 'b']
  else if c = '\t' then ['\\', 't']
  else if c = '\n' then ['\\', 'n']
  else if c = '\x0c' then ['\\', 'f']
  else if c = '\r' then ['\\', 'r']
  else if c.toNat < 0x20 then '\\' :: 'u' :: hexDigits c.toNat 4
  else [c]

/-- A string with its quotes. -/
def quoted (text : String) : List Char :=
  '"' :: (text.toList.flatMap escapeChar ++ ['"'])

mutual

/-- The characters of a document. -/
def chars : Json → List Char
  | .null => "null".toList
  | .bool true => "true".toList
  | .bool false => "false".toList
  | .number value => value.text
  | .string text => quoted text
  | .array elements => '[' :: (charsOfElements elements ++ [']'])
  | .object members => '\x7b' :: (charsOfMembers members ++ ['\x7d'])

/-- The characters of elements with commas between them. -/
def charsOfElements : List Json → List Char
  | [] => []
  | [element] => element.chars
  | element :: rest => element.chars ++ ',' :: charsOfElements rest

/-- The characters of members with commas between them. -/
def charsOfMembers : List (String × Json) → List Char
  | [] => []
  | [(name, value)] => quoted name ++ ':' :: value.chars
  | (name, value) :: rest => quoted name ++ ':' :: (value.chars ++ ',' :: charsOfMembers rest)

end

/-- The text of a document. -/
def render (document : Json) : String := String.ofList document.chars

end Json

end BodyContract
