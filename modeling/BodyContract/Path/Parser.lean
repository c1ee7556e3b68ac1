import BodyContract.Json.Reader
import BodyContract.Path.Basic
import BodyContract.Regex.Parser
import BodyContract.Text.Cursor
/-!
Reading a path.

A path is `$` and its segments: `.name`, `.*`, `..name`, `..*` and brackets with a quoted name, a
position, `*` or a filter `?(…)`. In a filter, `||` binds looser than `&&`, and comparisons looser
than operands; parentheses group. Inside a filter a bare name ends at blanks and operators, and a
last `.size()` or `.length()` asks for a size.

The functions of the grammar call each other with less and less `fuel`. Between two characters that
are read at most seven calls are nested, so `Path.parse` starts with enough for any text.
-/

namespace BodyContract

namespace Path

/-- Fails at a place. -/
def fail {α : Type} (cursor : Cursor) (fault : PathFault) : Except PathProblem α :=
  .error (.malformed cursor.position fault)

/-- Drops white space. -/
def skipBlanks (cursor : Cursor) : Cursor := (cursor.span CharSet.whiteSpace.contains).2

/-- Reads a character that has to come next. -/
def expect (expected : Char) (cursor : Cursor) : Except PathProblem Cursor :=
  match cursor.eat? expected with
  | some behind => .ok behind
  | none => fail cursor (.expected expected)

/-- Reads a word if it comes next. -/
def eatWord? (word : String) (cursor : Cursor) : Option Cursor :=
  if word.toList.isPrefixOf cursor.rest then some (cursor.skipMany word.length) else none

/-- Whether a character ends a bare name. -/
def endsName (inFilter : Bool) (c : Char) : Bool :=
  c == '.' || c == '[' ||
    (inFilter && (CharSet.whiteSpace.contains c || "()=!<>&|,".toList.contains c))

/-- Reads a bare name. -/
def readName (inFilter : Bool) (cursor : Cursor) : Except PathProblem (String × Cursor) :=
  let (name, behind) := cursor.span fun c => !endsName inFilter c
  if name.isEmpty then fail cursor .expectedName else .ok (String.ofList name, behind)

/-- Reads the characters of a quoted text behind its opening quote; `read` holds them so far, the
last in front. A backslash takes the meaning away from the quote and from a backslash, and stands
for itself in front of any other character. -/
def readQuotedAux (quote : Char) (position : Nat) (read : List Char) :
    List Char → Except PathProblem (String × Cursor)
  | [] => .error (.malformed position .unterminatedString)
  | '\\' :: [] => .error (.malformed (position + 1) .unterminatedString)
  | '\\' :: c :: rest =>
      let behind := position + 1 + c.utf8Size
      if c = quote || c = '\\' then
        readQuotedAux quote behind (c :: read) rest
      else
        readQuotedAux quote behind (c :: '\\' :: read) rest
  | c :: rest =>
      let behind := position + c.utf8Size
      if c = quote then
        .ok (String.ofList read.reverse, ⟨behind, rest⟩)
      else
        readQuotedAux quote behind (c :: read) rest

/-- Reads a quoted text behind its opening quote. -/
def readQuoted (quote : Char) (cursor : Cursor) : Except PathProblem (String × Cursor) :=
  readQuotedAux quote cursor.position [] cursor.rest

/-- The least and greatest position of an element. -/
def positionInRange (position : Int) : Bool := -twoTo 63 ≤ position && position < twoTo 63

/-- Reads the position of an element. -/
def readPosition (cursor : Cursor) : Except PathProblem (Int × Cursor) :=
  let (isNegative, behindSign) :=
    match cursor.eat? '-' with
    | some behind => (true, behind)
    | none => (false, cursor)
  let (digits, behind) := behindSign.span Char.isDigit
  if behind.peek? = some ':' || behind.peek? = some ',' then
    fail behind .unsupportedSlice
  else
    let magnitude : Int := Numeral.value digits
    let position := if isNegative then -magnitude else magnitude
    if digits.isEmpty || !positionInRange position then
      let sign := if isNegative then ['-'] else []
      fail behind (.invalidIndex (String.ofList (sign ++ digits)))
    else
      .ok (position, behind)

/-- Whether a character can be part of a number. -/
def isNumberChar (c : Char) : Bool := c.isDigit || "-+.eE".toList.contains c

/-- Reads a number as it stands in a document. -/
def readNumber (cursor : Cursor) : Except PathProblem (Operand × Cursor) :=
  let (text, behind) := cursor.span isNumberChar
  match Json.readNumber? text with
  | some (number, []) => .ok (.literal number, behind)
  | _ => fail behind (.invalidNumber (String.ofList text))

/-- Reads one of the words for a truth value or null. -/
def readKeyword (cursor : Cursor) : Except PathProblem (Operand × Cursor) :=
  let (word, behind) := cursor.span Char.isAlpha
  match String.ofList word with
  | "true" => .ok (.literal (.bool true), behind)
  | "false" => .ok (.literal (.bool false), behind)
  | "null" => .ok (.literal .null, behind)
  | _ => fail cursor .expectedOperand

/-- Reads the body of a regular expression up to its closing slash; `read` holds it so far, the last
character in front. An escaped slash stands for a slash, any other escape stays as it is. -/
def readBodyAux (position : Nat) (read : List Char) :
    List Char → Except PathProblem (String × Cursor)
  | [] => .error (.malformed position .unterminatedRegex)
  | '\\' :: [] => .error (.malformed (position + 1) .unterminatedRegex)
  | '\\' :: c :: rest =>
      readBodyAux (position + 1 + c.utf8Size)
        (if c = '/' then '/' :: read else c :: '\\' :: read) rest
  | c :: rest =>
      if c = '/' then
        .ok (String.ofList read.reverse, ⟨position + 1, rest⟩)
      else
        readBodyAux (position + c.utf8Size) (c :: read) rest

/-- The regular expression that matches whole texts by a body. -/
def fullMatch? (body : String) (ignoresCase : Bool) : Option FullMatch :=
  let text := (if ignoresCase then "(?i)" else "") ++ "^(?:" ++ body ++ ")$"
  (Regex.parse? text).map fun regex => ⟨text, regex⟩

/-- Reads a regular expression behind its opening slash, and the mark behind it that makes it ignore
case. -/
def readRegex (cursor : Cursor) : Except PathProblem (Operand × Cursor) := do
  let (body, behind) ← readBodyAux cursor.position [] cursor.rest
  let (ignoresCase, last) :=
    match behind.eat? 'i' with
    | some last => (true, last)
    | none => (false, behind)
  match fullMatch? body ignoresCase with
  | some pattern => .ok (.regex pattern, last)
  | none => .error (.invalidRegex body)

/-- Reads a comparison sign if one comes next. -/
def readComparison? (cursor : Cursor) : Option (Comparison × Cursor) :=
  match cursor.rest with
  | '=' :: '=' :: _ => some (.equal, cursor.skipMany 2)
  | '!' :: '=' :: _ => some (.notEqual, cursor.skipMany 2)
  | '<' :: '=' :: _ => some (.lessOrEqual, cursor.skipMany 2)
  | '>' :: '=' :: _ => some (.greaterOrEqual, cursor.skipMany 2)
  | '=' :: '~' :: _ => some (.matching, cursor.skipMany 2)
  | '<' :: _ => some (.less, cursor.skip)
  | '>' :: _ => some (.greater, cursor.skip)
  | _ => none

mutual

/-- Reads segments as far as they go, and whether they end in a question for the size. -/
def readSegments (fuel : Nat) (inFilter : Bool) (cursor : Cursor) :
    Except PathProblem ((List Segment × Bool) × Cursor) :=
  match fuel with
  | 0 => fail cursor .expectedName
  | fuel + 1 =>
      match cursor.rest with
      | '.' :: '.' :: '*' :: _ => continueWith fuel inFilter (.descendants none) (cursor.skipMany 3)
      | '.' :: '.' :: '[' :: _ => do
          let (segment, behind) ← readBracket fuel (cursor.skipMany 2)
          match segment with
          | .child name => continueWith fuel inFilter (.descendants (some name)) behind
          | .wildcard => continueWith fuel inFilter (.descendants none) behind
          | _ => fail behind .unsupportedDescent
      | '.' :: '.' :: _ => do
          let (name, behind) ← readName inFilter (cursor.skipMany 2)
          continueWith fuel inFilter (.descendants (some name)) behind
      | '.' :: '*' :: _ => continueWith fuel inFilter .wildcard (cursor.skipMany 2)
      | '.' :: '[' :: _ => do
          let (segment, behind) ← readBracket fuel cursor.skip
          continueWith fuel inFilter segment behind
      | '.' :: _ => do
          let (name, behind) ← readName inFilter cursor.skip
          let asksSize := inFilter && (name == "size" || name == "length")
          match if asksSize then eatWord? "()" behind else none with
          | some last => .ok (([], true), last)
          | none => continueWith fuel inFilter (.child name) behind
      | '[' :: _ => do
          let (segment, behind) ← readBracket fuel cursor
          continueWith fuel inFilter segment behind
      | _ => .ok (([], false), cursor)

/-- Puts a segment in front of those that follow. -/
def continueWith (fuel : Nat) (inFilter : Bool) (segment : Segment) (cursor : Cursor) :
    Except PathProblem ((List Segment × Bool) × Cursor) :=
  match fuel with
  | 0 => fail cursor .expectedName
  | fuel + 1 => do
      let ((segments, asksSize), behind) ← readSegments fuel inFilter cursor
      .ok ((segment :: segments, asksSize), behind)

/-- Reads a bracket with what stands in it. -/
def readBracket (fuel : Nat) (cursor : Cursor) : Except PathProblem (Segment × Cursor) :=
  match fuel with
  | 0 => fail cursor .expectedSelector
  | fuel + 1 => do
      let inside := skipBlanks (← expect '[' cursor)
      let (segment, behind) ←
        match inside.peek? with
        | some '*' => .ok (Segment.wildcard, inside.skip)
        | some '?' => do
            let open_ ← expect '(' (skipBlanks inside.skip)
            let (condition, last) ← readEither fuel open_
            let closed ← expect ')' (skipBlanks last)
            .ok (Segment.filter condition, closed)
        | some c =>
            if c = '\'' || c = '"' then do
              let (name, last) ← readQuoted c inside.skip
              .ok (Segment.child name, last)
            else if c = '-' || c.isDigit then do
              let (position, last) ← readPosition inside
              .ok (Segment.element position, last)
            else
              fail inside .expectedSelector
        | none => fail inside .expectedSelector
      let closed ← expect ']' (skipBlanks behind)
      .ok (segment, closed)

/-- Reads a condition: conditions with `||` between them. -/
def readEither (fuel : Nat) (cursor : Cursor) : Except PathProblem (Condition × Cursor) :=
  match fuel with
  | 0 => fail cursor .expectedOperand
  | fuel + 1 => do
      let (first, behind) ← readBoth fuel cursor
      readMoreEither fuel first behind

/-- Reads the conditions that follow after `||`. -/
def readMoreEither (fuel : Nat) (left : Condition) (cursor : Cursor) :
    Except PathProblem (Condition × Cursor) :=
  match fuel with
  | 0 => fail cursor .expectedOperand
  | fuel + 1 =>
      let cursor := skipBlanks cursor
      match eatWord? "||" cursor with
      | none => .ok (left, cursor)
      | some behindSign => do
          let (right, behind) ← readBoth fuel behindSign
          readMoreEither fuel (.either left right) behind

/-- Reads conditions with `&&` between them. -/
def readBoth (fuel : Nat) (cursor : Cursor) : Except PathProblem (Condition × Cursor) :=
  match fuel with
  | 0 => fail cursor .expectedOperand
  | fuel + 1 => do
      let (first, behind) ← readTest fuel cursor
      readMoreBoth fuel first behind

/-- Reads the conditions that follow after `&&`. -/
def readMoreBoth (fuel : Nat) (left : Condition) (cursor : Cursor) :
    Except PathProblem (Condition × Cursor) :=
  match fuel with
  | 0 => fail cursor .expectedOperand
  | fuel + 1 =>
      let cursor := skipBlanks cursor
      match eatWord? "&&" cursor with
      | none => .ok (left, cursor)
      | some behindSign => do
          let (right, behind) ← readTest fuel behindSign
          readMoreBoth fuel (.both left right) behind

/-- Reads a comparison, an operand alone or a condition in parentheses. -/
def readTest (fuel : Nat) (cursor : Cursor) : Except PathProblem (Condition × Cursor) :=
  match fuel with
  | 0 => fail cursor .expectedOperand
  | fuel + 1 =>
      let cursor := skipBlanks cursor
      match cursor.eat? '(' with
      | some inside => do
          let (condition, behind) ← readEither fuel inside
          let closed ← expect ')' (skipBlanks behind)
          .ok (condition, closed)
      | none => do
          let (left, behindLeft) ← readOperand fuel cursor
          let behindLeft := skipBlanks behindLeft
          match readComparison? behindLeft with
          | none => .ok (.present left, behindLeft)
          | some (comparison, behindSign) => do
              let (right, behind) ← readOperand fuel (skipBlanks behindSign)
              match comparison, right with
              | .matching, .regex _ => .ok (.compares left comparison right, behind)
              | .matching, _ => fail behind .expectedRegex
              | _, _ => .ok (.compares left comparison right, behind)

/-- Reads an operand. -/
def readOperand (fuel : Nat) (cursor : Cursor) : Except PathProblem (Operand × Cursor) :=
  match fuel with
  | 0 => fail cursor .expectedOperand
  | fuel + 1 =>
      match cursor.peek? with
      | some '@' => do
          let ((segments, asksSize), behind) ← readSegments fuel true cursor.skip
          .ok (.current segments asksSize, behind)
      | some '$' => do
          let ((segments, asksSize), behind) ← readSegments fuel true cursor.skip
          .ok (.root segments asksSize, behind)
      | some '/' => readRegex cursor.skip
      | some c =>
          if c = '\'' || c = '"' then do
            let (text, behind) ← readQuoted c cursor.skip
            .ok (.literal (.string text), behind)
          else if c = '-' || c.isDigit then
            readNumber cursor
          else
            readKeyword cursor
      | none => readKeyword cursor

end

/-- Enough fuel for a text of `length` characters. -/
def enoughFuel (length : Nat) : Nat := 8 * length + 16

/-- Reads the characters of a path. -/
def readSegmentsOf (text : String) : Except PathProblem (List Segment) := do
  let start := Cursor.ofString text
  match start.eat? '$' with
  | none => fail start .missingRoot
  | some behindRoot => do
      let ((segments, _), behind) ← readSegments (enoughFuel start.rest.length) false behindRoot
      match behind.peek? with
      | none => .ok segments
      | some c => fail behind (.unexpectedCharacter c)

/-- Reads a whole text as a path. -/
def parse (text : String) : Except PathError Path :=
  match readSegmentsOf text with
  | .ok segments => .ok ⟨text, segments⟩
  | .error problem => .error (problem.inPath text)

end Path

end BodyContract
