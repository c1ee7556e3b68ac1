import BodyContract.Json.Basic
/-!
Reading JSON text strictly: no comment, no trailing comma, no bare control character in a string, no
half of a surrogate pair, nothing behind the document but blanks. Arrays and objects may be nested
up to a limit.

* `Json.read?` keeps every member of an object as it is written.
* `Json.parse?` makes the names of each object distinct, as `Json.merge` does.
-/

namespace BodyContract

namespace Json

/-- How deep arrays and objects of a document may be nested. -/
def depthLimit : Nat := 127

/-- The blanks between the tokens of a document. -/
def isBlank (c : Char) : Bool := c == ' ' || c == '\n' || c == '\t' || c == '\r'

/-- Drops the blanks in front. -/
def skipBlanks (text : List Char) : List Char := text.dropWhile isBlank

/-- The value of a hexadecimal digit in either case. -/
def hexValue? (c : Char) : Option Nat :=
  if '0' ≤ c && c ≤ '9' then some (c.toNat - '0'.toNat)
  else if 'a' ≤ c && c ≤ 'f' then some (c.toNat - 'a'.toNat + 10)
  else if 'A' ≤ c && c ≤ 'F' then some (c.toNat - 'A'.toNat + 10)
  else none

/-- Reads the four hexadecimal digits of an escape. -/
def readUnit? : List Char → Option (Nat × List Char)
  | a :: b :: c :: d :: rest => do
      let a ← hexValue? a
      let b ← hexValue? b
      let c ← hexValue? c
      let d ← hexValue? d
      some (((a * 16 + b) * 16 + c) * 16 + d, rest)
  | _ => none

/-- Reads the digits behind `\u`, and a second such escape where the first is the upper half of a
surrogate pair. -/
def readCodePoint? (text : List Char) : Option (Char × List Char) := do
  let (unit, rest) ← readUnit? text
  if 0xDC00 ≤ unit && unit ≤ 0xDFFF then
    none
  else if 0xD800 ≤ unit && unit ≤ 0xDBFF then
    match rest with
    | '\\' :: 'u' :: others => do
        let (lower, rest) ← readUnit? others
        if 0xDC00 ≤ lower && lower ≤ 0xDFFF then
          some (Char.ofNat (0x10000 + (unit - 0xD800) * 0x400 + (lower - 0xDC00)), rest)
        else
          none
    | _ => none
  else
    some (Char.ofNat unit, rest)

/-- Reads an escape behind its backslash. -/
def readEscape? : List Char → Option (Char × List Char)
  | '"' :: rest => some ('"', rest)
  | '\\' :: rest => some ('\\', rest)
  | '/' :: rest => some ('/', rest)
  | 'b' :: rest => some ('\x08', rest)
  | 'f' :: rest => some ('\x0c', rest)
  | 'n' :: rest => some ('\n', rest)
  | 'r' :: rest => some ('\r', rest)
  | 't' :: rest => some ('\t', rest)
  | 'u' :: rest => readCodePoint? rest
  | _ => none

/-- Reads a string behind its opening quote; `read` holds its characters so far, the last in front.
Each step reads a character, so the length of the text is enough `fuel`. -/
def readStringAux : Nat → List Char → List Char → Option (String × List Char)
  | 0, _, _ => none
  | _ + 1, _, [] => none
  | fuel + 1, read, c :: rest =>
      if c = '"' then
        some (String.ofList read.reverse, rest)
      else if c = '\\' then do
        let (escaped, rest) ← readEscape? rest
        readStringAux fuel (escaped :: read) rest
      else if c.toNat < 0x20 then
        none
      else
        readStringAux fuel (c :: read) rest

/-- Reads a string behind its opening quote. -/
def readString? (text : List Char) : Option (String × List Char) :=
  readStringAux (text.length + 1) [] text

/-- Splits off the decimal digits in front. -/
def spanDigits (text : List Char) : List Char × List Char := text.span Char.isDigit

/-- Reads the fraction of a numeral if a point comes next; a digit must follow the point. -/
def readFraction? : List Char → Option (Option (List Char) × List Char)
  | '.' :: rest =>
      let (digits, rest) := spanDigits rest
      if digits.isEmpty then none else some (some digits, rest)
  | text => some (none, text)

/-- Reads the digits of an exponent; there must be one. -/
def readExponentDigits? (isNegative : Bool) (text : List Char) :
    Option (Option (Bool × List Char) × List Char) :=
  let (digits, rest) := spanDigits text
  if digits.isEmpty then none else some (some (isNegative, digits), rest)

/-- Reads the exponent of a numeral if its mark comes next. -/
def readExponent? : List Char → Option (Option (Bool × List Char) × List Char)
  | c :: rest =>
      if c = 'e' || c = 'E' then
        match rest with
        | '+' :: others => readExponentDigits? false others
        | '-' :: others => readExponentDigits? true others
        | others => readExponentDigits? false others
      else
        some (none, c :: rest)
  | [] => some (none, [])

/-- Reads a numeral behind its sign. A zero in front of other digits is refused. -/
def readNumeral? (isNegative : Bool) (text : List Char) : Option (Numeral × List Char) := do
  let (whole, rest) := spanDigits text
  match whole with
  | [] => none
  | '0' :: _ :: _ => none
  | _ => do
      let (fraction, rest) ← readFraction? rest
      let (exponent, rest) ← readExponent? rest
      some (⟨isNegative, whole, fraction, exponent⟩, rest)

/-- Reads a number. -/
def readNumber? (text : List Char) : Option (Json × List Char) := do
  let (numeral, rest) ←
    match text with
    | '-' :: others => readNumeral? true others
    | others => readNumeral? false others
  let number ← numeral.toNumber?
  some (.number number, rest)

/-- Drops the characters of a word if the text begins with it. -/
def dropWord? : List Char → List Char → Option (List Char)
  | [], text => some text
  | c :: word, d :: text => if c = d then dropWord? word text else none
  | _ :: _, [] => none

mutual

/-- Reads a document that stands in front, after blanks. Arrays and objects may be nested `depth`
deep in it. -/
def readValue? (fuel depth : Nat) (text : List Char) : Option (Json × List Char) :=
  match fuel with
  | 0 => none
  | fuel + 1 =>
      match skipBlanks text with
      | [] => none
      | 'n' :: rest => (dropWord? "ull".toList rest).map (.null, ·)
      | 't' :: rest => (dropWord? "rue".toList rest).map (.bool true, ·)
      | 'f' :: rest => (dropWord? "alse".toList rest).map (.bool false, ·)
      | '"' :: rest => (readString? rest).map fun (text, rest) => (.string text, rest)
      | '[' :: rest =>
          match depth with
          | 0 => none
          | depth + 1 => (readElements? fuel depth rest).map fun (elements, rest) =>
              (.array elements, rest)
      | '\x7b' :: rest =>
          match depth with
          | 0 => none
          | depth + 1 => (readMembers? fuel depth rest).map fun (members, rest) =>
              (.object members, rest)
      | other => readNumber? other

/-- Reads the elements of an array behind its bracket. -/
def readElements? (fuel depth : Nat) (text : List Char) : Option (List Json × List Char) :=
  match fuel with
  | 0 => none
  | fuel + 1 =>
      match skipBlanks text with
      | ']' :: rest => some ([], rest)
      | others => readMoreElements? fuel depth others

/-- Reads an element and those that follow it after commas. -/
def readMoreElements? (fuel depth : Nat) (text : List Char) : Option (List Json × List Char) :=
  match fuel with
  | 0 => none
  | fuel + 1 => do
      let (element, rest) ← readValue? fuel depth text
      match skipBlanks rest with
      | ']' :: rest => some ([element], rest)
      | ',' :: rest =>
          let (elements, rest) ← readMoreElements? fuel depth rest
          some (element :: elements, rest)
      | _ => none

/-- Reads the members of an object behind its brace. -/
def readMembers? (fuel depth : Nat) (text : List Char) :
    Option (List (String × Json) × List Char) :=
  match fuel with
  | 0 => none
  | fuel + 1 =>
      match skipBlanks text with
      | '\x7d' :: rest => some ([], rest)
      | others => readMoreMembers? fuel depth others

/-- Reads a member and those that follow it after commas. -/
def readMoreMembers? (fuel depth : Nat) (text : List Char) :
    Option (List (String × Json) × List Char) :=
  match fuel with
  | 0 => none
  | fuel + 1 =>
      match skipBlanks text with
      | '"' :: rest => do
          let (name, rest) ← readString? rest
          match skipBlanks rest with
          | ':' :: rest => do
              let (value, rest) ← readValue? fuel depth rest
              match skipBlanks rest with
              | '\x7d' :: rest => some ([(name, value)], rest)
              | ',' :: rest =>
                  let (members, rest) ← readMoreMembers? fuel depth rest
                  some ((name, value) :: members, rest)
              | _ => none
          | _ => none
      | _ => none

end

/-- Reads a whole text as a document whose arrays and objects are nested at most `depth` deep, with
all members as they are written. Two calls for each character are more than enough. -/
def readNested? (depth : Nat) (text : String) : Option Json :=
  let chars := text.toList
  match readValue? (2 * chars.length + 2) depth chars with
  | none => none
  | some (document, rest) => if (skipBlanks rest).isEmpty then some document else none

/-- Reads a whole text as a document, with all members as they are written. -/
def read? (text : String) : Option Json := readNested? depthLimit text

/-- Reads a whole text as a document with distinct names in each object. -/
def parse? (text : String) : Option Json := (read? text).map merge

end Json

end BodyContract
