import BodyContract.Number.Power
import BodyContract.Pattern.Basic
import BodyContract.Text.Cursor
/-!
Reading an expression.

From the loosest binding to the tightest, an expression is a choice of sequences (`|`), a sequence
of repetitions (`*`, `+`, `?` and counts in braces) and a repetition of an atom: a group, a bracket
class, `.`, a quoted text, an escape, an anchor or a plain character.

The functions of the grammar call each other with less and less `fuel`. Between two characters that
are read at most five calls are nested, so `Pattern.parse` starts with enough for any text.
-/

namespace BodyContract

namespace Pattern

/-- The largest count of a repetition. -/
def repetitionLimit : Nat := 1000

/-- The largest number that a repetition count is read into. -/
def countLimit : Nat := twoTo 32 - 1

/-- Reads a decimal number, or nothing where no digit comes next. A number above `countLimit` is too
large whatever comes behind it. -/
def readCount (cursor : Cursor) : Except PatternError (Option Nat × Cursor) :=
  let (digits, rest) := cursor.span Char.isDigit
  if digits.isEmpty then
    .ok (none, rest)
  else
    let value := digits.foldl (fun total digit => total * 10 + (digit.toNat - '0'.toNat)) 0
    if countLimit < value then
      .error (.repetitionTooLarge cursor.position countLimit repetitionLimit)
    else
      .ok (some value, rest)

/-- Refuses a count above the limit. -/
def checkCount (position bound : Nat) : Except PatternError Unit :=
  if repetitionLimit < bound then
    .error (.repetitionTooLarge position bound repetitionLimit)
  else
    .ok ()

/-- Reads the counts of a repetition from the opening brace on. -/
def readCounts (cursor : Cursor) : Except PatternError ((Nat × Option Nat) × Cursor) := do
  let (least?, behindLeast) ← readCount cursor.skip
  match least? with
  | none => .error (.malformed behindLeast.position .expectedCount)
  | some least =>
      let (most, behindMost) ←
        match behindLeast.eat? ',' with
        | some behindComma => readCount behindComma
        | none => .ok (some least, behindLeast)
      match behindMost.eat? '\x7d' with
      | none => .error (.malformed behindMost.position .expectedClosingBrace)
      | some behind => do
          checkCount cursor.position least
          match most with
          | none => .ok ((least, none), behind)
          | some bound =>
              checkCount cursor.position bound
              if bound < least then
                .error (.malformed cursor.position .reversedCounts)
              else
                .ok ((least, some bound), behind)

/-- Reads the repetition operators behind an atom; each applies to all that stands before it. -/
def readRepetitions : Nat → Pattern → Cursor → Except PatternError (Pattern × Cursor)
  | 0, body, cursor => .ok (body, cursor)
  | fuel + 1, body, cursor =>
      match cursor.peek? with
      | some '*' => readRepetitions fuel (.repeated body 0 none) cursor.skip
      | some '+' => readRepetitions fuel (.repeated body 1 none) cursor.skip
      | some '?' => readRepetitions fuel (.repeated body 0 (some 1)) cursor.skip
      | some '\x7b' => do
          let ((least, most), behind) ← readCounts cursor
          readRepetitions fuel (.repeated body least most) behind
      | _ => .ok (body, cursor)

/-- Reads the characters of a quoted text behind the opening quote, which stands at `start`. -/
def readQuotedAux (start position : Nat) :
    List Char → List Pattern → Except PatternError (Pattern × Cursor)
  | [], _ => .error (.malformed start .unterminatedQuote)
  | c :: rest, items =>
      if c = '"' then
        .ok (ofSequence items.reverse, ⟨position + c.utf8Size, rest⟩)
      else
        readQuotedAux start (position + c.utf8Size) rest (literal c :: items)

/-- Reads a quoted text behind the opening quote, which stands at `start`. -/
def readQuoted (start : Nat) (cursor : Cursor) : Except PatternError (Pattern × Cursor) :=
  readQuotedAux start cursor.position cursor.rest []

/-- What the character behind a backslash stands for; nothing for the constructs that this grammar
leaves out. -/
def escaped? (c : Char) : Option CharSet :=
  match c with
  | 'd' => some .digit
  | 'D' => some CharSet.digit.compl
  | 'w' => some .word
  | 'W' => some CharSet.word.compl
  | 's' => some .space
  | 'S' => some .nonSpace
  | 'n' => some (.single '\n')
  | 't' => some (.single '\t')
  | 'r' => some (.single '\r')
  | 'f' => some (.single '\x0c')
  | 'p' | 'P' | 'b' | 'B' => none
  | other => some (.single other)

/-- Reads an escape behind its backslash, which stands at `start`. -/
def readEscape (start : Nat) (cursor : Cursor) : Except PatternError (CharSet × Cursor) :=
  match cursor.peek? with
  | none => .error (.malformed start .trailingBackslash)
  | some c =>
      match escaped? c with
      | none => .error (.unsupported start ("\\" ++ c.toString))
      | some set => .ok (set, cursor.skip)

/-- Whether a hyphen that makes a range comes next: one that closes a class does not. -/
def rangeFollows (cursor : Cursor) : Bool :=
  match cursor.rest with
  | '-' :: ']' :: _ => false
  | '-' :: _ :: _ => true
  | _ => false

/-- Reads the upper end of a range in a class. -/
def readRangeEnd (cursor : Cursor) : Except PatternError (Char × Cursor) :=
  match cursor.peek? with
  | none => .error (.malformed cursor.position .unclosedClass)
  | some '\\' => do
      let (set, behind) ← readEscape cursor.position cursor.skip
      match set.only? with
      | none => .error (.malformed cursor.position .invalidRangeEnd)
      | some high => .ok (high, behind)
  | some high => .ok (high, cursor.skip)

/-- Widens the class item `first`, which begins at `start`, to a range if a hyphen follows. -/
def readRange (start : Nat) (first : CharSet) (cursor : Cursor) :
    Except PatternError (CharSet × Cursor) :=
  if rangeFollows cursor then
    match first.only? with
    | none => .error (.malformed start .invalidRangeStart)
    | some low => do
        let (high, behind) ← readRangeEnd cursor.skip
        if high < low then
          .error (.malformed start .reversedRange)
        else
          .ok (.range low high, behind)
  else
    .ok (first, cursor)

mutual

/-- Reads a bracket class behind the bracket, which stands at `start`. -/
def readClass (fuel start : Nat) (cursor : Cursor) : Except PatternError (CharSet × Cursor) :=
  match fuel with
  | 0 => .error (.malformed start .unclosedClass)
  | fuel + 1 =>
      match cursor.eat? '^' with
      | none => readClassItems fuel start true .empty cursor
      | some behind => do
          let (set, rest) ← readClassItems fuel start true .empty behind
          .ok (set.compl, rest)

/-- Reads the items of a class up to the closing bracket and adds them to `found`. The bracket may
not close a class that has no item yet. -/
def readClassItems (fuel start : Nat) (isFirst : Bool) (found : CharSet) (cursor : Cursor) :
    Except PatternError (CharSet × Cursor) :=
  match fuel with
  | 0 => .error (.malformed start .unclosedClass)
  | fuel + 1 =>
      match cursor.peek? with
      | none => .error (.malformed start .unclosedClass)
      | some ']' =>
          if isFirst then
            .error (.malformed cursor.position .emptyClass)
          else
            .ok (found, cursor.skip)
      | some '[' => do
          let (inner, behind) ← readClass fuel cursor.position cursor.skip
          readClassItems fuel start false (found.union inner) behind
      | some '\\' => do
          let (first, behindFirst) ← readEscape cursor.position cursor.skip
          let (item, behind) ← readRange cursor.position first behindFirst
          readClassItems fuel start false (found.union item) behind
      | some c => do
          let (item, behind) ← readRange cursor.position (.single c) cursor.skip
          readClassItems fuel start false (found.union item) behind

end

mutual

/-- Reads a choice: sequences with bars between them. -/
def readChoice (fuel : Nat) (cursor : Cursor) : Except PatternError (List Pattern × Cursor) :=
  match fuel with
  | 0 => .error (.malformed cursor.position .endOfExpression)
  | fuel + 1 => do
      let (items, behind) ← readSequence fuel cursor
      match behind.eat? '|' with
      | none => .ok ([ofSequence items], behind)
      | some behindBar =>
          let (branches, rest) ← readChoice fuel behindBar
          .ok (ofSequence items :: branches, rest)

/-- Reads repetitions up to a bar, a closing parenthesis or the end of the text. -/
def readSequence (fuel : Nat) (cursor : Cursor) : Except PatternError (List Pattern × Cursor) :=
  match fuel with
  | 0 => .error (.malformed cursor.position .endOfExpression)
  | fuel + 1 =>
      match cursor.peek? with
      | none => .ok ([], cursor)
      | some '|' => .ok ([], cursor)
      | some ')' => .ok ([], cursor)
      | some c => do
          let (atom, behindAtom) ← readAtom fuel c cursor
          let (item, behind) ← readRepetitions fuel atom behindAtom
          let (items, rest) ← readSequence fuel behind
          .ok (item :: items, rest)

/-- Reads the atom that begins with the next character `c`. -/
def readAtom (fuel : Nat) (c : Char) (cursor : Cursor) : Except PatternError (Pattern × Cursor) :=
  match fuel with
  | 0 => .error (.malformed cursor.position .endOfExpression)
  | fuel + 1 =>
      match c with
      | '(' =>
          match cursor.skip.rest with
          | '?' :: ':' :: _ => readGroup fuel cursor.position (cursor.skipMany 3)
          | '?' :: _ => .error (.unsupported cursor.position "(?")
          | _ => readGroup fuel cursor.position cursor.skip
      | '[' => do
          let (set, behind) ← readClass fuel cursor.position cursor.skip
          .ok (.oneOf set, behind)
      | '.' => .ok (.oneOf .univ, cursor.skip)
      | '"' => readQuoted cursor.position cursor.skip
      | '\\' => do
          let (set, behind) ← readEscape cursor.position cursor.skip
          .ok (.oneOf set, behind)
      | '^' | '$' => .ok (.empty, cursor.skip)
      | '*' | '+' | '?' => .error (.malformed cursor.position (.nothingToRepeat c))
      | '\x7b' => .error (.malformed cursor.position .nothingToRepeatCount)
      | _ => .ok (literal c, cursor.skip)

/-- Reads the inside of a group and its closing parenthesis; the opening one stands at `start`. -/
def readGroup (fuel start : Nat) (cursor : Cursor) : Except PatternError (Pattern × Cursor) :=
  match fuel with
  | 0 => .error (.malformed start .unclosedGroup)
  | fuel + 1 => do
      let (branches, behind) ← readChoice fuel cursor
      match behind.eat? ')' with
      | none => .error (.malformed start .unclosedGroup)
      | some rest => .ok (ofChoice branches, rest)

end

/-- Enough fuel for a text of `length` characters. -/
def enoughFuel (length : Nat) : Nat := 5 * length + 10

/-- Reads a whole text as an expression. -/
def parse (text : String) : Except PatternError Pattern := do
  let start := Cursor.ofString text
  let (branches, behind) ← readChoice (enoughFuel start.rest.length) start
  match behind.rest with
  | [] => .ok (ofChoice branches)
  | _ :: _ => .error (.malformed behind.position .unmatchedParenthesis)

/-- Writes the shorthands `\d`, `\w` and `\s` out as bracket classes, wherever they stand. Inside a
bracket class the result is a class in a class, which means the same. -/
def expandShorthandsAux : List Char → List Char
  | [] => []
  | '\\' :: 'd' :: rest => "[0-9]".toList ++ expandShorthandsAux rest
  | '\\' :: 'w' :: rest => "[A-Za-z0-9_]".toList ++ expandShorthandsAux rest
  | '\\' :: 's' :: rest => "[ \t\r\n]".toList ++ expandShorthandsAux rest
  | c :: rest => c :: expandShorthandsAux rest

/-- Writes the shorthands `\d`, `\w` and `\s` of a text out as bracket classes. -/
def expandShorthands (text : String) : String :=
  String.ofList (expandShorthandsAux text.toList)

end Pattern

end BodyContract
