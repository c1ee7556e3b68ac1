import BodyContract.Placeholder.Basic
/-!
Patterns of values that are met often, and the placeholders for them.
-/

namespace BodyContract

namespace Placeholder

/-- The pattern of truth values. -/
def truePattern : String := "(true|false)"

/-- The pattern of texts of ASCII letters and digits. -/
def alphaNumericPattern : String := "[a-zA-Z0-9]+"

/-- The pattern of decimal numbers. -/
def numberPattern : String := "-?(\\d*\\.\\d+|\\d+)"

/-- The pattern of whole numbers. -/
def integerPattern : String := "-?(\\d+)"

/-- The pattern of positive whole numbers. -/
def positiveIntegerPattern : String := "([1-9]\\d*)"

/-- The pattern of decimal numbers with a point. -/
def doublePattern : String := "-?(\\d*\\.\\d+)"

/-- The pattern of hexadecimal numbers. -/
def hexPattern : String := "[a-fA-F0-9]+"

/-- The pattern of a number of an address. -/
def octetPattern : String := "([01]?\\d\\d?|2[0-4]\\d|25[0-5])"

/-- The pattern of addresses of four numbers. -/
def ipAddressPattern : String := String.intercalate "\\." (List.replicate 4 octetPattern)

/-- The pattern of the beginnings of web addresses. -/
def hostnamePattern : String := "((http[s]?|ftp):/)/?([^:/\\s]+)(:[0-9]\x7b1,5\x7d)?"

/-- The pattern of mail addresses. -/
def emailPattern : String := "[a-zA-Z0-9._%+-]+@[a-zA-Z0-9.-]+\\.[a-zA-Z]\x7b2,6\x7d"

/-- The pattern of unique identifiers. -/
def uuidPattern : String :=
  "[a-f0-9]\x7b8\x7d-[a-f0-9]\x7b4\x7d-[a-f0-9]\x7b4\x7d-[a-f0-9]\x7b4\x7d-[a-f0-9]\x7b12\x7d"

/-- The pattern of dates. -/
def datePattern : String := "(\\d\\d\\d\\d)-(0[1-9]|1[012])-(0[1-9]|[12][0-9]|3[01])"

/-- The pattern of times of a day. -/
def timePattern : String := "(2[0-3]|[01][0-9]):([0-5][0-9]):([0-5][0-9])"

/-- The pattern of dates with a time. -/
def dateTimePattern : String :=
  "([0-9]\x7b4\x7d)-(1[0-2]|0[1-9])-(3[01]|0[1-9]|[12][0-9])T" ++ timePattern

/-- The pattern of dates with a time and its distance to universal time. -/
def offsetDateTimePattern : String :=
  dateTimePattern ++ "(\\.\\d\x7b3\x7d)?(Z|[+-][01]\\d:[0-5]\\d)"

/-- The pattern of texts with a character. -/
def nonEmptyPattern : String := "[\\S\\s]+"

/-- The pattern of texts with a character that is no blank. -/
def nonBlankPattern : String := "^\\s*\\S[\\S\\s]*"

/-- The predefined placeholders by their names. -/
def predefined? (name : String) : Option Placeholder :=
  match name with
  | "alpha_numeric" => some (ofPattern alphaNumericPattern)
  | "number" => some ⟨numberPattern, .double⟩
  | "positive_int" => some ⟨positiveIntegerPattern, .integer⟩
  | "any_boolean" => some ⟨truePattern, .boolean⟩
  | "an_integer" => some ⟨integerPattern, .integer⟩
  | "a_double" => some ⟨doublePattern, .double⟩
  | "ip_address" => some (ofPattern ipAddressPattern)
  | "hostname" => some (ofPattern hostnamePattern)
  | "email" => some (ofPattern emailPattern)
  | "uuid" => some (ofPattern uuidPattern)
  | "iso_date" => some (ofPattern datePattern)
  | "iso_date_time" => some (ofPattern dateTimePattern)
  | "iso_time" => some (ofPattern timePattern)
  | "iso8601_with_offset" => some (ofPattern offsetDateTimePattern)
  | "non_empty" => some (ofPattern nonEmptyPattern)
  | "non_blank" => some (ofPattern nonBlankPattern)
  | "hex" => some (ofPattern hexPattern)
  | _ => none

end Placeholder

end BodyContract
