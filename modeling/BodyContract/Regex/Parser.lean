import BodyContract.Regex.Basic
import BodyContract.Regex.Folding
import BodyContract.Regex.Property
import BodyContract.Text.Search
/-!
Reading a regular expression.

The grammar is that of an engine without look-around and back-references, which knows Unicode:
groups with names and flags, bracket classes that can be nested and combined with `&&`, `--` and
`~~`, classes by name, counted repetitions, and the usual escapes. An expression that breaks the
grammar has no tree; why it does not is not told.

Flags hold from their place to the end of the group. They act while the tree is built, so the tree
holds sets of characters and conditions on places only.
-/

namespace BodyContract

/-- What is in force at a place of an expression. -/
structure RegexFlags where
  ignoreCase : Bool
  multiLine : Bool
  dotAll : Bool
  isUnicode : Bool
  anyLine : Bool
  extended : Bool
deriving DecidableEq, Repr

/-- What is in force at the beginning. -/
def RegexFlags.initial : RegexFlags := ⟨false, false, false, true, false, false⟩

/-- What is left of an expression, the flags in force, and the names of the groups so far. -/
structure RegexCursor where
  rest : List Char
  flags : RegexFlags
  names : List String

/-- What can stand for one character or place. `isByte` marks a character that is written as the
number of a byte. -/
inductive RegexAtom where
  | literal (c : Char) (isByte : Bool)
  | oneOf (set : CharSet)
  | look (condition : Look)

/-- How two sets of a class are combined. -/
inductive ClassOperator where
  | intersection
  | difference
  | symmetricDifference
deriving DecidableEq, Repr

namespace RegexFlags

/-- The characters that a class without Unicode knows: those with the numbers of bytes. -/
def byteUniverse : CharSet := .ofRanges [⟨0, 0xFF⟩]

/-- The complement of a class. -/
def compl (flags : RegexFlags) (set : CharSet) : CharSet :=
  if flags.isUnicode then set.compl else set.compl.inter byteUniverse

/-- Adds the case variants of ASCII letters. -/
def foldAscii (set : CharSet) : CharSet :=
  let shifted (low high : Char) (up : Bool) : List Interval :=
    (set.inter (.range low high)).ranges.map fun interval =>
      if up then
        ⟨interval.low + 32, interval.high + 32⟩
      else
        ⟨interval.low - 32, interval.high - 32⟩
  set.union (.ofRanges (shifted 'A' 'Z' true ++ shifted 'a' 'z' false))

/-- Adds case variants where case is ignored. -/
def fold (flags : RegexFlags) (set : CharSet) : CharSet :=
  if flags.ignoreCase then (if flags.isUnicode then set.foldCase else foldAscii set) else set

/-- Without Unicode a set must not reach beyond ASCII: its other members would be parts of
characters. -/
def checked? (flags : RegexFlags) (set : CharSet) : Option CharSet :=
  if flags.isUnicode || set.ranges.all (·.high < 0x80) then some set else none

/-- The decimal digits. -/
def digit (flags : RegexFlags) : CharSet :=
  if flags.isUnicode then Category.decimalDigit else .digit

/-- The blanks. -/
def space (flags : RegexFlags) : CharSet :=
  if flags.isUnicode then .whiteSpace else .ofRanges [⟨0x09, 0x0D⟩, ⟨0x20, 0x20⟩]

/-- The characters of words. -/
def word (flags : RegexFlags) : CharSet :=
  if flags.isUnicode then Category.wordCharacter else .word

/-- What a dot stands for. -/
def dot? (flags : RegexFlags) : Option CharSet :=
  let left :=
    if flags.dotAll then .empty
    else if flags.anyLine then .ofRanges [⟨0x0A, 0x0A⟩, ⟨0x0D, 0x0D⟩]
    else CharSet.single '\n'
  if flags.isUnicode then some left.compl else none

/-- The condition of a circumflex. -/
def start (flags : RegexFlags) : Look :=
  if flags.multiLine then (if flags.anyLine then .anyLineStart else .lineStart) else .textStart

/-- The condition of a dollar sign. -/
def stop (flags : RegexFlags) : Look :=
  if flags.multiLine then (if flags.anyLine then .anyLineEnd else .lineEnd) else .textEnd

/-- The node for a literal. -/
def literal? (flags : RegexFlags) (c : Char) (isByte : Bool) : Option Regex :=
  if !flags.isUnicode && isByte && 0x80 ≤ c.toNat then none
  else some (.oneOf (flags.fold (.single c)))

end RegexFlags

namespace RegexCursor

/-- The cursor with other characters left. -/
def withRest (cursor : RegexCursor) (rest : List Char) : RegexCursor := { cursor with rest := rest }

/-- Drops the rest of a comment. -/
def skipComment (text : List Char) : List Char := text.dropWhile (· != '\n')

/-- Drops blanks and comments, each step one character or comment; the length of the text is enough
`fuel`. -/
def skipBlanksAux : Nat → List Char → List Char
  | 0, text => text
  | _ + 1, [] => []
  | fuel + 1, c :: rest =>
      if CharSet.whiteSpace.contains c then skipBlanksAux fuel rest
      else if c = '#' then skipBlanksAux fuel (skipComment rest)
      else c :: rest

/-- Drops blanks and comments where they do not count. -/
def skipBlanks (cursor : RegexCursor) : RegexCursor :=
  if cursor.flags.extended then
    cursor.withRest (skipBlanksAux cursor.rest.length cursor.rest)
  else
    cursor

/-- Drops one character and the blanks and comments behind it. -/
def skip (cursor : RegexCursor) : RegexCursor := (cursor.withRest cursor.rest.tail).skipBlanks

end RegexCursor

namespace Regex

/-- The largest number of a repetition, and of a character. -/
def numberLimit : Nat := twoTo 32 - 1

/-- The value of a hexadecimal digit. -/
def hexValue? (c : Char) : Option Nat :=
  if '0' ≤ c && c ≤ '9' then some (c.toNat - '0'.toNat)
  else if 'a' ≤ c && c ≤ 'f' then some (c.toNat - 'a'.toNat + 10)
  else if 'A' ≤ c && c ≤ 'F' then some (c.toNat - 'A'.toNat + 10)
  else none

/-- The character with a number. -/
def charOfNumber? (number : Nat) : Option Char :=
  if number < 0xD800 || (0xDFFF < number && number ≤ 0x10FFFF) then
    some (Char.ofNat number)
  else
    none

/-- Reads as many hexadecimal digits as a form of escape has. -/
def readFixedHex? : (count : Nat) → (value : Nat) → RegexCursor → Option (Nat × RegexCursor)
  | 0, value, cursor => some (value, cursor)
  | count + 1, value, cursor =>
      match cursor.rest with
      | [] => none
      | c :: _ =>
          match hexValue? c with
          | none => none
          | some digit => readFixedHex? count (value * 16 + digit) cursor.skip

/-- Reads hexadecimal digits up to a closing brace. -/
def readBracedHex? : (fuel : Nat) → List Nat → RegexCursor → Option (List Nat × RegexCursor)
  | 0, _, _ => none
  | fuel + 1, digits, cursor =>
      match cursor.rest with
      | [] => none
      | '\x7d' :: _ => some (digits.reverse, cursor.skip)
      | c :: _ =>
          match hexValue? c with
          | none => none
          | some digit => readBracedHex? fuel (digit :: digits) cursor.skip

/-- Reads the number of a character behind `\x`, `\u` or `\U`. -/
def readHex? (kind : Char) (cursor : RegexCursor) : Option (RegexAtom × RegexCursor) :=
  match cursor.rest with
  | [] => none
  | '\x7b' :: _ => do
      let (digits, behind) ← readBracedHex? cursor.rest.length [] cursor.skip
      if digits.isEmpty then
        none
      else do
        let c ← charOfNumber? (digits.foldl (fun value digit => value * 16 + digit) 0)
        some (.literal c false, behind)
  | _ => do
      let count := if kind = 'x' then 2 else if kind = 'u' then 4 else 8
      let (value, behind) ← readFixedHex? count 0 cursor
      let c ← charOfNumber? value
      some (.literal c (kind == 'x'), behind)

/-- The characters that the text in the braces of a property class stands for. -/
def namedClass? (name : List Char) : Option CharSet :=
  match splitAtFirst? "!=".toList name with
  | some (property, value) =>
      (Property.findValue? (String.ofList property) (String.ofList value)).map CharSet.compl
  | none =>
      match (splitAtFirst? ":".toList name).or (splitAtFirst? "=".toList name) with
      | some (property, value) =>
          Property.findValue? (String.ofList property) (String.ofList value)
      | none => Property.find? (String.ofList name)

/-- Reads a property class behind `\p` or `\P`. -/
def readProperty? (negated : Bool) (cursor : RegexCursor) : Option (RegexAtom × RegexCursor) := do
  let (name, behind) ←
    match cursor.rest with
    | [] => none
    | '\\' :: _ => none
    | '\x7b' :: rest =>
        (splitAtFirst? "\x7d".toList rest).map fun (name, others) => (name, cursor.withRest others)
    | c :: _ => some ([c], cursor.skip)
  if cursor.flags.isUnicode then do
    let set := cursor.flags.fold (← namedClass? name)
    some (.oneOf (if negated then set.compl else set), behind)
  else
    none

/-- Whether a backslash in front of a character only takes its meaning away. -/
def isEscapable (c : Char) : Bool :=
  c.toNat < 0x80 && !c.isAlphanum && c != '<' && c != '>'

/-- Whether a character may stand in the name of a special word boundary. -/
def isBoundaryNameChar (c : Char) : Bool := c.isAlpha || c == '-'

/-- Reads what may follow `\b`: the name of a special word boundary in braces. Braces with anything
else belong to a repetition. -/
def readBoundary? (cursor : RegexCursor) : Option (Look × RegexCursor) :=
  let isUnicode := cursor.flags.isUnicode
  match cursor.rest with
  | '\x7b' :: _ =>
      let inside := cursor.skip
      match inside.rest with
      | [] => none
      | c :: _ =>
          if isBoundaryNameChar c then
            let kept := inside.rest.filter fun c =>
              !(cursor.flags.extended && CharSet.whiteSpace.contains c)
            let name := kept.takeWhile isBoundaryNameChar
            match kept.dropWhile isBoundaryNameChar with
            | '\x7d' :: _ =>
                let behind := cursor.withRest ((inside.rest.dropWhile (· != '\x7d')).tail)
                match String.ofList name with
                | "start" => some (.wordStart isUnicode, behind)
                | "end" => some (.wordEnd isUnicode, behind)
                | "start-half" => some (.noWordBefore isUnicode, behind)
                | "end-half" => some (.noWordAfter isUnicode, behind)
                | _ => none
            | _ => none
          else
            some (.wordBoundary isUnicode, cursor)
  | _ => some (.wordBoundary isUnicode, cursor)

/-- Reads an escape behind its backslash. -/
def readEscape? (cursor : RegexCursor) : Option (RegexAtom × RegexCursor) :=
  let flags := cursor.flags
  match cursor.rest with
  | [] => none
  | c :: rest =>
      let behind := cursor.withRest rest
      match c with
      | 'x' => readHex? 'x' cursor.skip
      | 'u' => readHex? 'u' cursor.skip
      | 'U' => readHex? 'U' cursor.skip
      | 'p' => readProperty? false cursor.skip
      | 'P' => readProperty? true cursor.skip
      | 'd' => some (.oneOf flags.digit, behind)
      | 's' => some (.oneOf flags.space, behind)
      | 'w' => some (.oneOf flags.word, behind)
      | 'D' => some (.oneOf (flags.compl flags.digit), behind)
      | 'S' => some (.oneOf (flags.compl flags.space), behind)
      | 'W' => some (.oneOf (flags.compl flags.word), behind)
      | 'a' => some (.literal '\x07' false, behind)
      | 'f' => some (.literal '\x0c' false, behind)
      | 't' => some (.literal '\t' false, behind)
      | 'n' => some (.literal '\n' false, behind)
      | 'r' => some (.literal '\r' false, behind)
      | 'v' => some (.literal '\x0b' false, behind)
      | 'A' => some (.look .textStart, behind)
      | 'z' => some (.look .textEnd, behind)
      | 'b' => (readBoundary? behind).map fun (condition, behind) => (.look condition, behind)
      | 'B' => some (.look (.noWordBoundary flags.isUnicode), behind)
      | '<' => some (.look (.wordStart flags.isUnicode), behind)
      | '>' => some (.look (.wordEnd flags.isUnicode), behind)
      | _ => if isEscapable c then some (.literal c false, behind) else none

/-! ## Bracket classes -/

/-- The ASCII characters of a class that is named inside a bracket class. -/
def asciiClass? (name : String) : Option CharSet :=
  match name with
  | "alnum" => some (.ofRanges [⟨0x30, 0x39⟩, ⟨0x41, 0x5A⟩, ⟨0x61, 0x7A⟩])
  | "alpha" => some (.ofRanges [⟨0x41, 0x5A⟩, ⟨0x61, 0x7A⟩])
  | "ascii" => some (.ofRanges [⟨0, 0x7F⟩])
  | "blank" => some (.ofRanges [⟨0x09, 0x09⟩, ⟨0x20, 0x20⟩])
  | "cntrl" => some (.ofRanges [⟨0, 0x1F⟩, ⟨0x7F, 0x7F⟩])
  | "digit" => some .digit
  | "graph" => some (.ofRanges [⟨0x21, 0x7E⟩])
  | "lower" => some (.ofRanges [⟨0x61, 0x7A⟩])
  | "print" => some (.ofRanges [⟨0x20, 0x7E⟩])
  | "punct" => some (.ofRanges [⟨0x21, 0x2F⟩, ⟨0x3A, 0x40⟩, ⟨0x5B, 0x60⟩, ⟨0x7B, 0x7E⟩])
  | "space" => some (.ofRanges [⟨0x09, 0x0D⟩, ⟨0x20, 0x20⟩])
  | "upper" => some (.ofRanges [⟨0x41, 0x5A⟩])
  | "word" => some .word
  | "xdigit" => some (.ofRanges [⟨0x30, 0x39⟩, ⟨0x41, 0x46⟩, ⟨0x61, 0x66⟩])
  | _ => none

/-- Reads a named ASCII class, from its bracket on; what does not have the form of one is left for a
bracket class. -/
def readAsciiClass? (cursor : RegexCursor) : Option (CharSet × RegexCursor) :=
  match cursor.rest with
  | '[' :: ':' :: rest =>
      let (negated, rest) :=
        match rest with
        | '^' :: others => (true, others)
        | others => (false, others)
      match rest.dropWhile (· != ':') with
      | ':' :: ']' :: others => do
          let set ← asciiClass? (String.ofList (rest.takeWhile (· != ':')))
          let folded := cursor.flags.fold set
          some (if negated then cursor.flags.compl folded else folded, cursor.withRest others)
      | _ => none
  | _ => none

/-- Combines two sets of a class. -/
def ClassOperator.apply (operator : ClassOperator) (left right : CharSet) : CharSet :=
  match operator with
  | .intersection => left.inter right
  | .difference => left.inter right.compl
  | .symmetricDifference => (left.inter right.compl).union (right.inter left.compl)

/-- The set of a class so far: the operator that waits for its right side is applied to `items`. -/
def closeOperand (flags : RegexFlags) (pending : Option (CharSet × ClassOperator))
    (items : CharSet) : CharSet :=
  match pending with
  | none => items
  | some (left, operator) => ClassOperator.apply operator (flags.fold left) (flags.fold items)

/-- Reads a character or a class as an item of a bracket class. -/
def readClassAtom? (cursor : RegexCursor) : Option (RegexAtom × RegexCursor) :=
  match cursor.rest with
  | [] => none
  | '\\' :: rest => readEscape? (cursor.withRest rest)
  | c :: rest => some (.literal c false, cursor.withRest rest)

/-- The set of an item that stands alone in a bracket class. -/
def atomSet? : RegexAtom → Option CharSet
  | .literal c _ => some (.single c)
  | .oneOf set => some set
  | .look _ => none

/-- Whether a hyphen that makes a range comes next: one in front of a closing bracket or of another
hyphen does not. -/
def rangeFollows (cursor : RegexCursor) : Bool :=
  match cursor.rest with
  | '-' :: _ =>
      match cursor.skip.rest with
      | ']' :: _ => false
      | '-' :: _ => false
      | _ => true
  | _ => false

/-- Reads an item of a bracket class, which may be a range. -/
def readClassItem? (cursor : RegexCursor) : Option (CharSet × RegexCursor) := do
  let (first, behind) ← readClassAtom? cursor
  let behind := behind.skipBlanks
  if behind.rest.isEmpty then
    none
  else if rangeFollows behind then do
    let (second, last) ← readClassAtom? behind.skip
    match first, second with
    | .literal low _, .literal high _ =>
        if high < low then none else some (.range low high, last)
    | _, _ => none
  else do
    let set ← atomSet? first
    some (set, behind)

/-- Reads the hyphens at the beginning of a class, which stand for themselves. -/
def skipHyphens : Nat → Bool → RegexCursor → Bool × RegexCursor
  | 0, found, cursor => (found, cursor)
  | fuel + 1, found, cursor =>
      match cursor.rest with
      | '-' :: _ => skipHyphens fuel true cursor.skip
      | _ => (found, cursor)

/-- Reads the beginning of a class from its bracket on: whether it is negated, and the characters
that stand for themselves there. -/
def openClass (cursor : RegexCursor) : Bool × CharSet × RegexCursor :=
  let inside := cursor.skip
  let (negated, inside) :=
    match inside.rest with
    | '^' :: _ => (true, inside.skip)
    | _ => (false, inside)
  let (hyphens, inside) := skipHyphens inside.rest.length false inside
  if hyphens then
    (negated, .single '-', inside)
  else
    match inside.rest with
    | ']' :: _ => (negated, .single ']', inside.skip)
    | _ => (negated, .empty, inside)

/-- The operator that comes next in a class. -/
def classOperator? : List Char → Option ClassOperator
  | '&' :: '&' :: _ => some .intersection
  | '-' :: '-' :: _ => some .difference
  | '~' :: '~' :: _ => some .symmetricDifference
  | _ => none

mutual

/-- Reads a bracket class from its bracket on. -/
def readClass? (fuel : Nat) (cursor : RegexCursor) : Option (CharSet × RegexCursor) :=
  match fuel with
  | 0 => none
  | fuel + 1 => do
      let (negated, first, inside) := openClass cursor
      let (set, behind) ← readClassItems? fuel none first inside
      let folded := cursor.flags.fold set
      let final ← cursor.flags.checked? (if negated then cursor.flags.compl folded else folded)
      some (final, behind)

/-- Reads the items of a class up to its closing bracket; `pending` is what stands in front of the
last operator. -/
def readClassItems? (fuel : Nat) (pending : Option (CharSet × ClassOperator)) (items : CharSet)
    (cursor : RegexCursor) : Option (CharSet × RegexCursor) :=
  match fuel with
  | 0 => none
  | fuel + 1 =>
      let cursor := cursor.skipBlanks
      match cursor.rest with
      | [] => none
      | ']' :: rest => some (closeOperand cursor.flags pending items, cursor.withRest rest)
      | '[' :: _ =>
          match readAsciiClass? cursor with
          | some (set, behind) => readClassItems? fuel pending (items.union set) behind
          | none => do
              let (set, behind) ← readClass? fuel cursor
              readClassItems? fuel pending (items.union set) behind
      | _ =>
          match classOperator? cursor.rest with
          | some operator =>
              readClassItems? fuel (some (closeOperand cursor.flags pending items, operator)) .empty
                (cursor.withRest (cursor.rest.drop 2))
          | none => do
              let (set, behind) ← readClassItem? cursor
              readClassItems? fuel pending (items.union set) behind

end

/-! ## Repetitions and groups -/

/-- Reads a decimal number, with blanks around it. -/
def readDecimal? (cursor : RegexCursor) : Option (Nat × RegexCursor) :=
  let isBlank := CharSet.whiteSpace.contains
  let text := cursor.rest.dropWhile isBlank
  let inExtended (c : Char) : Bool := cursor.flags.extended && isBlank c
  let digits := (text.takeWhile fun c => c.isDigit || inExtended c).filter Char.isDigit
  let rest := (text.dropWhile fun c => c.isDigit || inExtended c).dropWhile isBlank
  let value := digits.foldl (fun total digit => total * 10 + (digit.toNat - '0'.toNat)) 0
  if digits.isEmpty || numberLimit < value then none else some (value, cursor.withRest rest)

/-- Drops the question mark that makes a repetition prefer fewer copies, which does not change what
is matched. -/
def skipLazyMark (cursor : RegexCursor) : RegexCursor :=
  match cursor.rest with
  | '?' :: rest => cursor.withRest rest
  | _ => cursor

/-- Reads the end of a counted repetition. -/
def closeCounts? (counts : Nat × Option Nat) (cursor : RegexCursor) :
    Option ((Nat × Option Nat) × RegexCursor) :=
  match cursor.rest with
  | '\x7d' :: _ => some (counts, skipLazyMark cursor.skip)
  | _ => none

/-- Reads the counts of a repetition from its brace on. -/
def readCounts? (cursor : RegexCursor) : Option ((Nat × Option Nat) × RegexCursor) := do
  let (least, behind) ← readDecimal? cursor.skip
  match behind.rest with
  | ',' :: _ =>
      let behindComma := behind.skip
      match behindComma.rest with
      | '\x7d' :: _ => closeCounts? (least, none) behindComma
      | _ => do
          let (most, behindMost) ← readDecimal? behindComma
          if most < least then none else closeCounts? (least, some most) behindMost
  | _ => closeCounts? (least, some least) behind

/-- Sets one flag. -/
def setFlag? (flags : RegexFlags) (flag : Char) (value : Bool) : Option RegexFlags :=
  match flag with
  | 'i' => some { flags with ignoreCase := value }
  | 'm' => some { flags with multiLine := value }
  | 's' => some { flags with dotAll := value }
  | 'U' => some flags
  | 'u' => some { flags with isUnicode := value }
  | 'R' => some { flags with anyLine := value }
  | 'x' => some { flags with extended := value }
  | _ => none

/-- Reads the flags of a group up to the colon or parenthesis behind them. No flag may stand twice,
and a minus sign needs a flag behind it; `seen` holds the characters so far. -/
def readFlags? (flags : RegexFlags) (value : Bool) (seen : List Char) :
    List Char → Option (RegexFlags × List Char × List Char)
  | [] => none
  | c :: rest =>
      if c = ':' || c = ')' then
        if seen.head? = some '-' then none else some (flags, seen, c :: rest)
      else if seen.contains c then
        none
      else if c = '-' then
        readFlags? flags false ('-' :: seen) rest
      else
        match setFlag? flags c value with
        | none => none
        | some changed => readFlags? changed value (c :: seen) rest

/-- Whether a character may stand in the name of a group. -/
def isNameChar (isFirst : Bool) (c : Char) : Bool :=
  c == '_' || Property.alphabetic.contains c ||
    (!isFirst && (c == '.' || c == '[' || c == ']' || Category.number.contains c))

/-- Reads the name of a group up to the angle bracket behind it. -/
def readName? (cursor : RegexCursor) : Option RegexCursor :=
  match splitAtFirst? ">".toList cursor.rest with
  | none => none
  | some (name, rest) =>
      let text := String.ofList name
      match name with
      | [] => none
      | first :: others =>
          let isName := isNameChar true first && others.all (isNameChar false)
          if isName && !cursor.names.contains text then
            some { cursor with rest := rest, names := text :: cursor.names }
          else
            none

/-- How a group begins. -/
inductive GroupOpening where
  /-- Flags that hold for the rest of the group around. -/
  | setFlags (behind : RegexCursor)
  /-- A group, whose inside begins here. -/
  | group (inside : RegexCursor)

/-- Reads the beginning of a group behind its parenthesis. -/
def openGroup? (cursor : RegexCursor) : Option GroupOpening :=
  let cursor := cursor.skipBlanks
  match cursor.rest with
  | '?' :: '=' :: _ => none
  | '?' :: '!' :: _ => none
  | '?' :: '<' :: '=' :: _ => none
  | '?' :: '<' :: '!' :: _ => none
  | '?' :: 'P' :: '<' :: rest => (readName? (cursor.withRest rest)).map .group
  | '?' :: '<' :: rest => (readName? (cursor.withRest rest)).map .group
  | '?' :: rest =>
      match readFlags? cursor.flags true [] rest with
      | some (flags, seen, ')' :: others) =>
          if seen.isEmpty then none else some (.setFlags { cursor with rest := others, flags })
      | some (flags, _, ':' :: others) => some (.group { cursor with rest := others, flags })
      | _ => none
  | _ => some (.group cursor)

/-- An item of a sequence while it is read: its tree, or nothing for a setting of flags, which
cannot be repeated. -/
abbrev RegexItem := Option Regex

/-- The sequence of items, the last of which stands in front. -/
def ofItems (items : List RegexItem) : Regex := ofSequence (items.reverse.filterMap id)

/-- Repeats the last item. -/
def repeatLast? (items : List RegexItem) (least : Nat) (most : Option Nat) :
    Option (List RegexItem) :=
  match items with
  | some body :: others => some (some (.repeated body least most) :: others)
  | _ => none

/-- The tree of an atom. -/
def atomRegex? (flags : RegexFlags) : RegexAtom → Option Regex
  | .literal c isByte => flags.literal? c isByte
  | .oneOf set => (flags.checked? set).map .oneOf
  | .look condition => some (.look condition)

/-- Reads branches up to a closing parenthesis or the end; `branches` and `items` hold what has been
read, the last in front. -/
def readBranches? : (fuel : Nat) → List Regex → List RegexItem → RegexCursor →
    Option (Regex × RegexCursor)
  | 0, _, _, _ => none
  | fuel + 1, branches, items, cursor =>
      let cursor := cursor.skipBlanks
      let closed := ofChoice ((ofItems items :: branches).reverse)
      match cursor.rest with
      | [] => some (closed, cursor)
      | c :: rest =>
          let behind := cursor.withRest rest
          match c with
          | ')' => some (closed, cursor)
          | '|' => readBranches? fuel (ofItems items :: branches) [] behind
          | '(' => do
              match ← openGroup? behind with
              | .setFlags changed => readBranches? fuel branches (none :: items) changed
              | .group inside =>
                  let (body, last) ← readBranches? fuel [] [] inside
                  match last.rest with
                  | ')' :: others =>
                      readBranches? fuel branches (some (.group body) :: items)
                        ⟨others, cursor.flags, last.names⟩
                  | _ => none
          | '[' => do
              let (set, last) ← readClass? fuel cursor
              readBranches? fuel branches (some (.oneOf set) :: items) last
          | '?' => do
              readBranches? fuel branches (← repeatLast? items 0 (some 1)) (skipLazyMark behind)
          | '*' => do
              readBranches? fuel branches (← repeatLast? items 0 none) (skipLazyMark behind)
          | '+' => do
              readBranches? fuel branches (← repeatLast? items 1 none) (skipLazyMark behind)
          | '\x7b' => do
              let ((least, most), last) ← readCounts? cursor
              readBranches? fuel branches (← repeatLast? items least most) last
          | '\\' => do
              let (atom, last) ← readEscape? behind
              let item ← atomRegex? cursor.flags atom
              readBranches? fuel branches (some item :: items) last
          | '.' => do
              let set ← cursor.flags.dot?
              readBranches? fuel branches (some (.oneOf set) :: items) behind
          | '^' => readBranches? fuel branches (some (.look cursor.flags.start) :: items) behind
          | '$' => readBranches? fuel branches (some (.look cursor.flags.stop) :: items) behind
          | _ => do
              let item ← cursor.flags.literal? c false
              readBranches? fuel branches (some item :: items) behind

/-- Reads a whole text as a regular expression. Every call of the readers reads a character or
begins a group or class, so two calls for each character are enough. -/
def parse? (text : String) : Option Regex := do
  let chars := text.toList
  let (regex, last) ← readBranches? (2 * chars.length + 2) [] [] ⟨chars, .initial, []⟩
  if last.rest.isEmpty && regex.height ≤ heightLimit && regex.bytes ≤ bytesLimit then
    some regex
  else
    none

end Regex

end BodyContract
