import BodyContract.Json.Printer
/-!
Values as literals of Java sources.

* `escapeJava` writes a text with printable ASCII characters only: quotes, backslashes and control
  characters are escaped, and other characters are written by their UTF-16 units.
-/

namespace BodyContract

/-- The last `count` hexadecimal digits of a number, in upper case. -/
def upperHexDigits (value count : Nat) : List Char := (hexDigits value count).map Char.toUpper

/-- The escape of a UTF-16 unit. -/
def unitEscape (unit : Nat) : List Char := '\\' :: 'u' :: upperHexDigits unit 4

/-- The UTF-16 units of a character. -/
def utf16Units (c : Char) : List Nat :=
  if c.toNat < 0x10000 then
    [c.toNat]
  else
    [0xD800 + (c.toNat - 0x10000) / 0x400, 0xDC00 + (c.toNat - 0x10000) % 0x400]

/-- A character inside a string literal. -/
def escapeJavaChar (c : Char) : List Char :=
  if c = '"' then ['\\', '"']
  else if c = '\\' then ['\\', '\\']
  else if c = '\x08' then ['\\', 'b']
  else if c = '\n' then ['\\', 'n']
  else if c = '\t' then ['\\', 't']
  else if c = '\x0c' then ['\\', 'f']
  else if c = '\r' then ['\\', 'r']
  else if c.toNat < 0x20 || 0x7F < c.toNat then (utf16Units c).flatMap unitEscape
  else [c]

/-- A text as it stands inside a string literal. -/
def escapeJava (text : String) : String := String.ofList (text.toList.flatMap escapeJavaChar)

/-- A text as a string literal. -/
def javaString (text : String) : String := "\"" ++ escapeJava text ++ "\""

/-- A text between double quotes, of which only the double quotes inside are escaped. -/
def quoteOnly (text : String) : String :=
  let escaped := text.toList.flatMap fun c => if c = '"' then ['\\', '"'] else [c]
  String.ofList ('"' :: escaped ++ ['"'])

namespace Json

/-- A value as it is shown in a call: a text between double quotes, any other value as in a
document. -/
def quotedLabel : Json → String
  | .string text => quoteOnly text
  | other => other.render

end Json

namespace Number

/-- Whether the number is whole and does not fit into 32 bits with a sign. -/
def isWide : Number → Bool
  | .int value => value < -twoTo 31 || twoTo 31 ≤ value
  | .float _ => false

/-- A number as a literal, with a mark for whole numbers of 64 bits. -/
def javaLiteral (number : Number) : String :=
  String.ofList (number.text ++ (if number.isWide then ['L'] else []))

end Number

end BodyContract
