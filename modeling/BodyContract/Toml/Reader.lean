import BodyContract.Json.Reader
import BodyContract.Number.Numeral
import BodyContract.Toml.Table
/-!
Reading TOML documents that describe settings: tables, dotted keys, and values that are texts on one
line, whole numbers, truth values or tables in one piece. Values of other kinds are not read, since
no setting has one.

A document is given back as an object with the tables as objects inside.
-/

namespace BodyContract

namespace Toml

/-- Drops spaces and tabs in front. -/
def skipBlanks (text : List Char) : List Char := text.dropWhile fun c => c == ' ' || c == '\t'

/-- Whether a character may stand in a comment or a text: no control character but the tab. -/
def isPlain (c : Char) : Bool := (0x20 ≤ c.toNat || c == '\t') && c.toNat != 0x7F

/-- Reads the rest of a line in which nothing more is defined: blanks, a comment and the newline. -/
def endLine? (text : List Char) : Option (List Char) :=
  let text := skipBlanks text
  let behind :=
    match text with
    | '#' :: rest => rest.dropWhile isPlain
    | other => other
  match behind with
  | [] => some []
  | '\n' :: rest => some rest
  | '\r' :: '\n' :: rest => some rest
  | _ => none

/-! ## Texts and keys -/

/-- The character of hexadecimal digits, if there is one. -/
def scalar? (digits : List Char) : Option Char := do
  let values ← digits.mapM Json.hexValue?
  let point := values.foldl (fun value digit => value * 16 + digit) 0
  if point < 0xD800 || (0xE000 ≤ point && point < 0x110000) then some (Char.ofNat point) else none

/-- Reads an escape of `count` hexadecimal digits. -/
def readScalar? (count : Nat) (text : List Char) : Option (Char × List Char) :=
  if text.length < count then
    none
  else
    (scalar? (text.take count)).map (·, text.drop count)

/-- Reads an escape behind its backslash. -/
def readEscape? : List Char → Option (Char × List Char)
  | 'b' :: rest => some ('\x08', rest)
  | 't' :: rest => some ('\t', rest)
  | 'n' :: rest => some ('\n', rest)
  | 'f' :: rest => some ('\x0c', rest)
  | 'r' :: rest => some ('\r', rest)
  | '"' :: rest => some ('"', rest)
  | '\\' :: rest => some ('\\', rest)
  | 'u' :: rest => readScalar? 4 rest
  | 'U' :: rest => readScalar? 8 rest
  | _ => none

/-- Reads a text with escapes behind its quote; `read` holds its characters so far, the last in
front. Each step reads a character, so the length of the text is enough `fuel`. -/
def readBasic? : (fuel : Nat) → (read : List Char) → List Char → Option (String × List Char)
  | 0, _, _ => none
  | _ + 1, _, [] => none
  | fuel + 1, read, c :: rest =>
      if c = '"' then
        some (String.ofList read.reverse, rest)
      else if c = '\\' then do
        let (escaped, rest) ← readEscape? rest
        readBasic? fuel (escaped :: read) rest
      else if isPlain c then
        readBasic? fuel (c :: read) rest
      else
        none

/-- Reads a text without escapes behind its apostrophe. -/
def readLiteral? (text : List Char) : Option (String × List Char) :=
  let (inside, behind) := text.span fun c => isPlain c && c != '\''
  match behind with
  | '\'' :: rest => some (String.ofList inside, rest)
  | _ => none

/-- Whether a character may stand in a name without quotes. -/
def isBare (c : Char) : Bool := c.isAlphanum || c == '_' || c == '-'

/-- Reads a name, which may be quoted. -/
def readName? (text : List Char) : Option (String × List Char) :=
  match text with
  | '"' :: rest => readBasic? (rest.length + 1) [] rest
  | '\'' :: rest => readLiteral? rest
  | other =>
      let (name, rest) := other.span isBare
      if name.isEmpty then none else some (String.ofList name, rest)

/-- Reads names with dots between them: those in front of the last one, and the last one. -/
def readKey? : (fuel : Nat) → List Char → Option (List String × String × List Char)
  | 0, _ => none
  | fuel + 1, text => do
      let (name, rest) ← readName? (skipBlanks text)
      match skipBlanks rest with
      | '.' :: others => do
          let (tables, last, rest) ← readKey? fuel others
          some (name :: tables, last, rest)
      | others => some ([], name, others)

/-! ## Values -/

/-- Splits off digits, between which single underscores may stand. -/
def spanDigits (isDigit : Char → Bool) : List Char → List Char × List Char
  | [] => ([], [])
  | c :: rest =>
      if isDigit c then
        let (digits, behind) :=
          match rest with
          | '_' :: d :: others => if isDigit d then spanDigits isDigit (d :: others) else ([], rest)
          | others => spanDigits isDigit others
        (c :: digits, behind)
      else
        ([], c :: rest)

/-- The whole number of digits with a sign, if it fits into 64 bits. -/
def integer? (isNegative : Bool) (magnitude : Nat) : Option Json :=
  let value : Int := if isNegative then -magnitude else magnitude
  if -twoTo 63 ≤ value && value < twoTo 63 then some (.int value) else none

/-- Reads the digits of a whole number with a base. -/
def readDigits? (base : Nat) (text : List Char) : Option (Json × List Char) := do
  let isDigit (c : Char) : Bool := (Json.hexValue? c).any (· < base)
  let (digits, rest) := spanDigits isDigit text
  if digits.isEmpty then
    none
  else
    let values ← digits.mapM Json.hexValue?
    let number ← integer? false (values.foldl (fun value digit => value * base + digit) 0)
    some (number, rest)

/-- Reads the digits of a decimal number. A zero in front of other digits is refused. -/
def readDecimal? (isNegative : Bool) (text : List Char) : Option (Json × List Char) :=
  let (digits, rest) := spanDigits Char.isDigit text
  match digits with
  | [] => none
  | '0' :: _ :: _ => none
  | _ => (integer? isNegative (Numeral.value digits)).map (·, rest)

/-- Reads a whole number. -/
def readInteger? : List Char → Option (Json × List Char)
  | '0' :: 'x' :: rest => readDigits? 16 rest
  | '0' :: 'o' :: rest => readDigits? 8 rest
  | '0' :: 'b' :: rest => readDigits? 2 rest
  | '+' :: rest => readDecimal? false rest
  | '-' :: rest => readDecimal? true rest
  | other => readDecimal? false other

/-- Reads a value that is no table. -/
def readLeaf? (text : List Char) : Option (Json × List Char) :=
  match text with
  | '"' :: rest =>
      (readBasic? (rest.length + 1) [] rest).map fun (text, rest) => (.string text, rest)
  | '\'' :: rest => (readLiteral? rest).map fun (text, rest) => (.string text, rest)
  | 't' :: rest => (Json.dropWord? "rue".toList rest).map (.bool true, ·)
  | 'f' :: rest => (Json.dropWord? "alse".toList rest).map (.bool false, ·)
  | other => readInteger? other

mutual

/-- Reads a value. -/
def readEntry? : (fuel : Nat) → List Char → Option (Entry × List Char)
  | 0, _ => none
  | fuel + 1, text =>
      match text with
      | '\x7b' :: rest =>
          match skipBlanks rest with
          | '\x7d' :: others => some (.table .inline [], others)
          | others => do
              let (members, rest) ← readMembers? fuel [] others
              some (.table .inline members, rest)
      | other => (readLeaf? other).map fun (value, rest) => (.leaf value, rest)

/-- Reads the definitions in a table in one piece, behind `members`. -/
def readMembers? : (fuel : Nat) → (members : Members) → List Char → Option (Members × List Char)
  | 0, _, _ => none
  | fuel + 1, members, text => do
      let (tables, name, rest) ← readKey? text.length text
      match rest with
      | '=' :: others => do
          let (entry, rest) ← readEntry? fuel (skipBlanks others)
          let members ← define? tables name entry members
          match skipBlanks rest with
          | ',' :: others => readMembers? fuel members others
          | '\x7d' :: others => some (members, others)
          | _ => none
      | _ => none

end

/-! ## Documents -/

/-- Reads a line with a definition in the table that `path` leads to. -/
def readDefinition? (path : List String) (members : Members) (text : List Char) :
    Option (Members × List Char) := do
  let (tables, name, rest) ← readKey? text.length text
  match rest with
  | '=' :: others => do
      let (entry, rest) ← readEntry? text.length (skipBlanks others)
      let members ← within? (define? tables name entry) path members
      some (members, ← endLine? rest)
  | _ => none

/-- Reads a header behind its bracket; the path is that of the table that it opens. -/
def readHeader? (members : Members) (text : List Char) :
    Option (List String × Members × List Char) := do
  let (tables, name, rest) ← readKey? text.length text
  match rest with
  | ']' :: others => do
      let members ← openTable? tables name members
      some (tables ++ [name], members, ← endLine? others)
  | _ => none

/-- Reads lines; `path` leads to the table that was opened last. -/
def readLines? : (fuel : Nat) → (path : List String) → (members : Members) → List Char →
    Option Members
  | 0, _, _, _ => none
  | fuel + 1, path, members, text =>
      match skipBlanks text with
      | [] => some members
      | '[' :: rest => do
          let (path, members, rest) ← readHeader? members rest
          readLines? fuel path members rest
      | other =>
          match endLine? other with
          | some rest => readLines? fuel path members rest
          | none => do
              let (members, rest) ← readDefinition? path members other
              readLines? fuel path members rest

/-- Reads a document, without a byte order mark in front. -/
def read? (text : String) : Option Json :=
  let chars :=
    match text.toList with
    | '\uFEFF' :: rest => rest
    | other => other
  (readLines? (chars.length + 1) [] [] chars).map fun members => .object (membersToJson members)

end Toml

end BodyContract
