import BodyContract.Proofs.Outcome
import BodyContract.Proofs.Path.Literals

/-!
# The paths of recorded chains

A chain leads to its values by hops: to a member, to all elements, or to the
element at a position.  The text of hops is read as the segments that they
stand for, and a condition behind them as a filter:

* `Path.parse_hops` for the hops alone;
* `Path.parse_hops_condition` for hops with a condition at the end.
-/

namespace BodyContract

/-- A step of the path of a chain. -/
inductive Hop where
  | member (name : String)
  | every
  | position (index : Nat)
deriving DecidableEq, Repr

namespace Hop

/-- The text of a hop, with wrapped names. -/
def text : Hop → String
  | .member name => "." ++ NameStyle.bracketed.wrap name
  | .every => "[*]"
  | .position index => "[" ++ toString index ++ "]"

/-- The text of hops one behind the other. -/
def textOf (hops : List Hop) : String := String.join (hops.map text)

/-- The segment that a hop is read as. -/
def segment : Hop → Segment
  | .member name => .child name
  | .every => .wildcard
  | .position index => .element index

/-- Whether the text of a hop is read as the hop. -/
def isReadable : Hop → Bool
  | .member name => Path.keepsBackslashes name.toList
  | .every => true
  | .position index => index < twoTo 63

@[simp]
theorem textOf_nil : textOf [] = "" := rfl

@[simp]
theorem textOf_singleton (hop : Hop) : textOf [hop] = hop.text := by
  rw [textOf, List.map_singleton, String.join_cons, String.join_nil, String.append_empty]

theorem textOf_append (front back : List Hop) :
    textOf (front ++ back) = textOf front ++ textOf back := by
  rw [textOf, List.map_append, String.join_append, textOf, textOf]

theorem toList_textOf_cons (hop : Hop) (rest : List Hop) :
    (textOf (hop :: rest)).toList = hop.text.toList ++ (textOf rest).toList := by
  rw [textOf, List.map_cons, String.join_cons, String.toList_append, textOf]

theorem toList_position (index : Nat) :
    (position index).text.toList = '[' :: (Nat.toDigits 10 index ++ [']']) := by
  simp [text]

/-- The text of a hop begins with a character that ends a name. -/
theorem text_begins (hop : Hop) :
    ∃ c more, hop.text.toList = c :: more ∧ (c = '.' ∨ c = '[') := by
  cases hop with
  | member name => exact ⟨'.', _, by rw [text, String.toList_append]; rfl, Or.inl rfl⟩
  | every => exact ⟨'[', _, rfl, Or.inr rfl⟩
  | position index => exact ⟨'[', _, toList_position index, Or.inr rfl⟩

theorem length_le_length_textOf (hops : List Hop) :
    hops.length ≤ (textOf hops).toList.length := by
  induction hops with
  | nil => exact Nat.zero_le _
  | cons hop rest inductionHypothesis =>
      obtain ⟨c, more, same, -⟩ := hop.text_begins
      rw [toList_textOf_cons, same, List.length_append, List.length_cons, List.length_cons]
      omega

end Hop

namespace Path

/-- What ends a bare name. -/
def EndsName (inFilter : Bool) (rest : List Char) : Prop :=
  StopsAt (fun c => !endsName inFilter c) rest

theorem endsName_textOf {inFilter : Bool} {rest : List Char} (ends : EndsName inFilter rest)
    (hops : List Hop) : EndsName inFilter ((Hop.textOf hops).toList ++ rest) := by
  cases hops with
  | nil => exact ends
  | cons hop others =>
      obtain ⟨c, more, same, first⟩ := hop.text_begins
      rw [Hop.toList_textOf_cons, same]
      refine stopsAt_cons ?_ _
      rcases first with rfl | rfl
      · simp [endsName]
      · simp [endsName]

/-- Puts segments in front of what has been read behind them. -/
def putFront (segments : List Segment)
    (read : Except PathProblem ((List Segment × Bool) × Cursor)) :
    Except PathProblem ((List Segment × Bool) × Cursor) := do
  let ((others, asksSize), behind) ← read
  .ok ((segments ++ others, asksSize), behind)

theorem putFront_ok (segments others : List Segment) (asksSize : Bool) (behind : Cursor) :
    putFront segments (.ok ((others, asksSize), behind)) =
      .ok ((segments ++ others, asksSize), behind) := rfl

theorem putFront_putFront (front back : List Segment)
    (read : Except PathProblem ((List Segment × Bool) × Cursor)) :
    putFront front (putFront back read) = putFront (front ++ back) read := by
  cases read with
  | error problem => rfl
  | ok result => simp [putFront, bind, Except.bind]

theorem continueWith_succ (fuel : Nat) (inFilter : Bool) (segment : Segment) (cursor : Cursor) :
    continueWith (fuel + 1) inFilter segment cursor =
      putFront [segment] (readSegments fuel inFilter cursor) := by
  rw [continueWith]
  rfl

theorem expect_self (c : Char) (position : Nat) (rest : List Char) :
    expect c ⟨position, c :: rest⟩ = .ok ⟨position + c.utf8Size, rest⟩ := by
  simp [expect, Cursor.eat?, Cursor.peek?, Cursor.skip]

/-- A bracket is closed behind a visible character. -/
theorem closeBracket (position : Nat) (rest : List Char) :
    expect ']' (skipBlanks ⟨position, ']' :: rest⟩) = .ok ⟨position + ']'.utf8Size, rest⟩ := by
  rw [skipBlanks_visible (by decide), expect_self]

theorem readBracket_every (fuel position : Nat) (rest : List Char) :
    ∃ behind, readBracket (fuel + 1) ⟨position, '[' :: '*' :: ']' :: rest⟩ =
      .ok (.wildcard, ⟨behind, rest⟩) := by
  refine ⟨position + '['.utf8Size + '*'.utf8Size + ']'.utf8Size, ?_⟩
  rw [readBracket, expect_self]
  simp only [bind, Except.bind]
  rw [skipBlanks_visible (by decide)]
  simp only [Cursor.peek?, List.head?_cons, Cursor.skip]
  rw [closeBracket]

/-- A bracket with digits holds the position of an element. -/
theorem readBracket_digits (index fuel position : Nat) (rest : List Char) :
    readBracket (fuel + 1) ⟨position, '[' :: (Nat.toDigits 10 index ++ ']' :: rest)⟩ = (do
      let (element, behind) ←
        readPosition ⟨position + '['.utf8Size, Nat.toDigits 10 index ++ ']' :: rest⟩
      let closed ← expect ']' (skipBlanks behind)
      .ok (.element element, closed)) := by
  cases digits : Nat.toDigits 10 index with
  | nil => exact absurd digits Nat.toDigits_ne_nil
  | cons first more =>
      have digit : first.isDigit = true :=
        isDigit_of_mem_toDigits (by rw [digits]; exact List.mem_cons_self)
      have special : first ≠ '*' ∧ first ≠ '?' ∧ first ≠ '\'' ∧ first ≠ '"' := by
        refine ⟨?_, ?_, ?_, ?_⟩ <;>
        · rintro rfl
          exact absurd digit (by decide)
      obtain ⟨noStar, noFilter, noQuote, noDoubleQuote⟩ := special
      rw [readBracket, List.cons_append, expect_self]
      simp only [bind, Except.bind]
      rw [skipBlanks_visible (isVisible_of_isDigit digit)]
      simp [Cursor.peek?, noQuote, noDoubleQuote, digit]

theorem readBracket_position {index : Nat} (small : index < twoTo 63) (fuel position : Nat)
    (rest : List Char) :
    ∃ behind, readBracket (fuel + 1) ⟨position, '[' :: (Nat.toDigits 10 index ++ ']' :: rest)⟩ =
      .ok (.element index, ⟨behind, rest⟩) := by
  obtain ⟨behind, read⟩ := reads_position small rest (position + '['.utf8Size)
  refine ⟨behind + ']'.utf8Size, ?_⟩
  rw [readBracket_digits, read]
  simp only [bind, Except.bind]
  rw [closeBracket]

theorem readBracket_name {name : String} (readable : keepsBackslashes name.toList = true)
    (fuel position : Nat) (rest : List Char) :
    ∃ behind, readBracket (fuel + 1)
        ⟨position, '[' :: '\'' :: (escapedFor '\'' name.toList ++ '\'' :: ']' :: rest)⟩ =
      .ok (.child name, ⟨behind, rest⟩) := by
  obtain ⟨behind, read⟩ := reads_escapedName readable (']' :: rest)
    (position + '['.utf8Size + '\''.utf8Size)
  rw [List.append_assoc, List.singleton_append] at read
  refine ⟨behind + ']'.utf8Size, ?_⟩
  rw [readBracket, expect_self]
  simp only [bind, Except.bind]
  rw [skipBlanks_visible (by decide)]
  simp [Cursor.peek?, Cursor.skip, read]
  rw [closeBracket]

theorem readSegments_bracket {segment : Segment} {fuel position behind : Nat}
    {inside rest : List Char} (inFilter : Bool)
    (read : readBracket (fuel + 1) ⟨position, '[' :: inside⟩ = .ok (segment, ⟨behind, rest⟩)) :
    readSegments (fuel + 2) inFilter ⟨position, '[' :: inside⟩ =
      putFront [segment] (readSegments fuel inFilter ⟨behind, rest⟩) := by
  rw [readSegments]
  simp only [read, bind, Except.bind]
  rw [continueWith_succ]

/-- A dot in front of a bracket changes nothing. -/
theorem readSegments_dot_bracket {segment : Segment} {fuel position behind : Nat}
    {inside rest : List Char} (inFilter : Bool)
    (read : readBracket (fuel + 1) ⟨position + '.'.utf8Size, '[' :: inside⟩ =
      .ok (segment, ⟨behind, rest⟩)) :
    readSegments (fuel + 2) inFilter ⟨position, '.' :: '[' :: inside⟩ =
      putFront [segment] (readSegments fuel inFilter ⟨behind, rest⟩) := by
  rw [readSegments]
  simp only [Cursor.skip, read, bind, Except.bind]
  rw [continueWith_succ]

theorem readSegments_wholeName {name : String} (whole : isWholeNumber name = true)
    {inFilter : Bool} {rest : List Char} (ends : EndsName inFilter rest) (fuel position : Nat) :
    ∃ behind, readSegments (fuel + 2) inFilter ⟨position, '.' :: (name.toList ++ rest)⟩ =
      putFront [.child name] (readSegments fuel inFilter ⟨behind, rest⟩) := by
  obtain ⟨behind, read⟩ := reads_wholeName whole ends (position + '.'.utf8Size)
  obtain ⟨first, more, same, isWhole, -⟩ := chars_of_isWholeNumber whole
  refine ⟨behind, ?_⟩
  have noSize : (name == "size" || name == "length") = false := by
    rw [Bool.or_eq_false_iff, beq_eq_false_iff_ne, beq_eq_false_iff_ne]
    constructor
    · rintro rfl
      exact absurd whole (by decide)
    · rintro rfl
      exact absurd whole (by decide)
  have special : first ≠ '.' ∧ first ≠ '*' ∧ first ≠ '[' := by
    refine ⟨?_, ?_, ?_⟩ <;>
    · rintro rfl
      rcases isWhole with other | other | other <;> exact absurd other (by decide)
  obtain ⟨noDot, noStar, noBracket⟩ := special
  rw [same, List.cons_append] at read
  rw [readSegments, same, List.cons_append]
  simp only [Cursor.skip, read, bind, Except.bind, noSize, Bool.and_false, Bool.false_eq_true,
    if_false]
  simp [noDot, noStar, noBracket, continueWith_succ]

theorem readSegments_hop {hop : Hop} (readable : hop.isReadable = true) {inFilter : Bool}
    {rest : List Char} (ends : EndsName inFilter rest) (fuel position : Nat) :
    ∃ behind, readSegments (fuel + 2) inFilter ⟨position, hop.text.toList ++ rest⟩ =
      putFront [hop.segment] (readSegments fuel inFilter ⟨behind, rest⟩) := by
  cases hop with
  | member name =>
      rw [Hop.isReadable] at readable
      rw [Hop.text, String.toList_append]
      cases whole : isWholeNumber name with
      | true =>
          rw [wrap_of_whole whole]
          exact readSegments_wholeName whole ends fuel position
      | false =>
          obtain ⟨behind, read⟩ :=
            readBracket_name readable fuel (position + '.'.utf8Size) rest
          refine ⟨behind, ?_⟩
          have split : (".".toList ++ (NameStyle.bracketed.wrap name).toList) ++ rest =
              '.' :: '[' :: '\'' :: (escapedFor '\'' name.toList ++ '\'' :: ']' :: rest) := by
            rw [toList_wrap_of_not_whole whole]
            simp
          rw [split]
          exact readSegments_dot_bracket inFilter read
  | every =>
      obtain ⟨behind, read⟩ := readBracket_every fuel position rest
      exact ⟨behind, readSegments_bracket inFilter read⟩
  | position index =>
      rw [Hop.isReadable, decide_eq_true_eq] at readable
      obtain ⟨behind, read⟩ := readBracket_position readable fuel position rest
      refine ⟨behind, ?_⟩
      rw [Hop.toList_position, List.cons_append, List.append_assoc, List.singleton_append]
      exact readSegments_bracket inFilter read

theorem readSegments_hops {hops : List Hop} (readable : ∀ hop ∈ hops, hop.isReadable = true)
    {inFilter : Bool} {rest : List Char} (ends : EndsName inFilter rest) (fuel position : Nat) :
    ∃ behind, readSegments (fuel + 2 * hops.length) inFilter
        ⟨position, (Hop.textOf hops).toList ++ rest⟩ =
      putFront (hops.map Hop.segment) (readSegments fuel inFilter ⟨behind, rest⟩) := by
  induction hops generalizing position with
  | nil =>
      refine ⟨position, ?_⟩
      cases read : readSegments fuel inFilter ⟨position, rest⟩ with
      | error problem => simp [putFront, read, bind, Except.bind]
      | ok result => simp [putFront, read, bind, Except.bind]
  | cons hop others inductionHypothesis =>
      obtain ⟨middle, first⟩ := readSegments_hop (readable hop List.mem_cons_self)
        (endsName_textOf ends others) (fuel + 2 * others.length) position
      obtain ⟨behind, later⟩ := inductionHypothesis
        (fun other member => readable other (List.mem_cons_of_mem hop member)) middle
      refine ⟨behind, ?_⟩
      have enough : fuel + 2 * (hop :: others).length = fuel + 2 * others.length + 2 := by
        rw [List.length_cons]
        omega
      rw [enough, Hop.toList_textOf_cons, List.append_assoc, first, later, putFront_putFront]
      rfl

/-- Segments end where neither a dot nor a bracket follows. -/
theorem readSegments_end {rest : List Char} (ends : StopsAt (fun c => c == '.' || c == '[') rest)
    (fuel position : Nat) (inFilter : Bool) :
    readSegments (fuel + 1) inFilter ⟨position, rest⟩ = .ok (([], false), ⟨position, rest⟩) := by
  rw [readSegments]
  cases rest with
  | nil => rfl
  | cons c rest =>
      have outside := ends c rfl
      simp only [Bool.or_eq_false_iff, beq_eq_false_iff_ne] at outside
      simp [outside.1, outside.2]

/-! ## Conditions -/

/-- The text of the condition that what hops lead to equals a value. -/
def conditionText (inside : List Hop) (value : Json) : String :=
  "[?(@" ++ Hop.textOf inside ++ " == " ++ value.filterLiteral ++ ")]"

/-- The condition that what hops lead to equals a value. -/
def condition (inside : List Hop) (read : Json) : Condition :=
  .compares (.current (inside.map Hop.segment) false) .equal (.literal read)

theorem toList_conditionText (inside : List Hop) (value : Json) :
    (conditionText inside value).toList =
      '[' :: '?' :: '(' :: '@' :: ((Hop.textOf inside).toList ++
        ' ' :: '=' :: '=' :: ' ' :: (value.filterLiteral.toList ++ [')', ']'])) := by
  simp [conditionText]

theorem readOperand_current {inside : List Hop} (readable : ∀ hop ∈ inside, hop.isReadable = true)
    (fuel position : Nat) (rest : List Char) :
    ∃ behind, readOperand (fuel + 2 * inside.length + 2)
        ⟨position, '@' :: ((Hop.textOf inside).toList ++ ' ' :: rest)⟩ =
      .ok (.current (inside.map Hop.segment) false, ⟨behind, ' ' :: rest⟩) := by
  have blankEnds : EndsName true (' ' :: rest) := by
    refine stopsAt_cons ?_ rest
    simp [endsName, whiteSpace_blank]
  obtain ⟨behind, read⟩ := readSegments_hops readable blankEnds (fuel + 1)
    (position + '@'.utf8Size)
  rw [readSegments_end (stopsAt_cons (by decide) rest), putFront_ok] at read
  refine ⟨behind, ?_⟩
  have enough : fuel + 2 * inside.length + 1 = fuel + 1 + 2 * inside.length := by omega
  rw [readOperand]
  simp only [Cursor.peek?, List.head?_cons, Cursor.skip, enough, read, bind, Except.bind,
    List.append_nil]

/-- A comparison is read from its operands and the sign between them. -/
theorem readTest_of_operands {fuel position : Nat} {text : List Char} {left right : Operand}
    {comparison : Comparison} {behindLeft sign behindSign other last : Cursor}
    (readLeft : readOperand fuel ⟨position, '@' :: text⟩ = .ok (left, behindLeft))
    (toSign : skipBlanks behindLeft = sign)
    (readSign : readComparison? sign = some (comparison, behindSign))
    (toRight : skipBlanks behindSign = other)
    (readRight : readOperand fuel other = .ok (right, last))
    (fits : comparison = .matching → ∃ regex, right = .regex regex) :
    readTest (fuel + 1) ⟨position, '@' :: text⟩ =
      .ok (.compares left comparison right, last) := by
  have noParenthesis : (Cursor.mk position ('@' :: text)).eat? '(' = none := by
    simp [Cursor.eat?, Cursor.peek?]
  rw [readTest]
  simp only
  rw [skipBlanks_visible (by decide), noParenthesis]
  simp only [readLeft, bind, Except.bind, toSign, readSign, toRight, readRight]
  cases comparison with
  | matching =>
      obtain ⟨regex, rfl⟩ := fits rfl
      rfl
  | _ => rfl

theorem readTest_condition {inside : List Hop} (readable : ∀ hop ∈ inside, hop.isReadable = true)
    {value read : Json} (literal : LiteralReads value read) (fuel position : Nat)
    (rest : List Char) :
    ∃ behind, readTest (fuel + 2 * inside.length + 3)
        ⟨position, '@' :: ((Hop.textOf inside).toList ++
          ' ' :: '=' :: '=' :: ' ' :: (value.filterLiteral.toList ++ ')' :: rest))⟩ =
      .ok (condition inside read, ⟨behind, ')' :: rest⟩) := by
  obtain ⟨left, readLeft⟩ := readOperand_current readable fuel position
    ('=' :: '=' :: ' ' :: (value.filterLiteral.toList ++ ')' :: rest))
  obtain ⟨⟨c, more, same, visible⟩, reads⟩ :=
    reads_literal literal (fuel + 2 * inside.length + 1) rest
  obtain ⟨behind, readRight⟩ :=
    reads (left + ' '.utf8Size + '='.utf8Size + '='.utf8Size + ' '.utf8Size)
  have toRight : skipBlanks ⟨left + ' '.utf8Size + '='.utf8Size + '='.utf8Size,
      ' ' :: (value.filterLiteral.toList ++ ')' :: rest)⟩ =
        ⟨left + ' '.utf8Size + '='.utf8Size + '='.utf8Size + ' '.utf8Size,
          value.filterLiteral.toList ++ ')' :: rest⟩ := by
    rw [same, List.cons_append, skipBlanks_blank visible]
  exact ⟨behind, readTest_of_operands readLeft (skipBlanks_blank (by decide)) rfl toRight
    readRight fun isMatching => Comparison.noConfusion isMatching⟩

/-- One condition in front of a closing parenthesis is no part of a longer one. -/
theorem readEither_of_readTest {condition : Condition} {fuel position behind : Nat}
    {text rest : List Char}
    (test : readTest (fuel + 1) ⟨position, text⟩ = .ok (condition, ⟨behind, ')' :: rest⟩)) :
    readEither (fuel + 3) ⟨position, text⟩ = .ok (condition, ⟨behind, ')' :: rest⟩) := by
  have noWord : ∀ (c : Char) (word : List Char), c ≠ ')' →
      eatWord? (String.ofList (c :: word)) ⟨behind, ')' :: rest⟩ = none := by
    intro c word different
    simp [eatWord?, different]
  have noBoth : eatWord? "&&" ⟨behind, ')' :: rest⟩ = none := noWord '&' ['&'] (by decide)
  have noEither : eatWord? "||" ⟨behind, ')' :: rest⟩ = none := noWord '|' ['|'] (by decide)
  have closing : skipBlanks ⟨behind, ')' :: rest⟩ = ⟨behind, ')' :: rest⟩ :=
    skipBlanks_visible (by decide)
  rw [readEither, readBoth, test]
  simp only [bind, Except.bind]
  rw [readMoreBoth]
  simp only [closing, noBoth]
  rw [readMoreEither]
  simp only [closing, noEither]

/-- A condition in brackets is a filter. -/
theorem readBracket_of_readEither {condition : Condition} {fuel position behind : Nat}
    {text rest : List Char}
    (either : readEither fuel ⟨position + '['.utf8Size + '?'.utf8Size + '('.utf8Size, text⟩ =
      .ok (condition, ⟨behind, ')' :: ']' :: rest⟩)) :
    readBracket (fuel + 1) ⟨position, '[' :: '?' :: '(' :: text⟩ =
      .ok (.filter condition, ⟨behind + ')'.utf8Size + ']'.utf8Size, rest⟩) := by
  rw [readBracket, expect_self]
  simp only [bind, Except.bind]
  rw [skipBlanks_visible (by decide)]
  simp only [Cursor.peek?, List.head?_cons, Cursor.skip]
  rw [skipBlanks_visible (by decide), expect_self]
  simp only [either]
  rw [skipBlanks_visible (by decide), expect_self]
  simp only
  rw [closeBracket]

theorem readEither_condition {inside : List Hop}
    (readable : ∀ hop ∈ inside, hop.isReadable = true) {value read : Json}
    (literal : LiteralReads value read) (fuel position : Nat) (rest : List Char) :
    ∃ behind, readEither (fuel + 2 * inside.length + 5)
        ⟨position, '@' :: ((Hop.textOf inside).toList ++
          ' ' :: '=' :: '=' :: ' ' :: (value.filterLiteral.toList ++ ')' :: rest))⟩ =
      .ok (condition inside read, ⟨behind, ')' :: rest⟩) := by
  obtain ⟨behind, test⟩ := readTest_condition readable literal fuel position rest
  exact ⟨behind, readEither_of_readTest test⟩

theorem readBracket_condition {inside : List Hop}
    (readable : ∀ hop ∈ inside, hop.isReadable = true) {value read : Json}
    (literal : LiteralReads value read) (fuel position : Nat) (rest : List Char) :
    ∃ behind, readBracket (fuel + 2 * inside.length + 6)
        ⟨position, (conditionText inside value).toList ++ rest⟩ =
      .ok (.filter (condition inside read), ⟨behind, rest⟩) := by
  obtain ⟨behind, either⟩ := readEither_condition readable literal fuel
    (position + '['.utf8Size + '?'.utf8Size + '('.utf8Size) (']' :: rest)
  refine ⟨behind + ')'.utf8Size + ']'.utf8Size, ?_⟩
  have split : (conditionText inside value).toList ++ rest =
      '[' :: '?' :: '(' :: '@' :: ((Hop.textOf inside).toList ++
        ' ' :: '=' :: '=' :: ' ' :: (value.filterLiteral.toList ++ ')' :: ']' :: rest)) := by
    rw [toList_conditionText]
    simp
  rw [split]
  exact readBracket_of_readEither either

/-! ## Whole paths -/

/-- The path of hops from the root. -/
def pathText (hops : List Hop) : String := "$" ++ Hop.textOf hops

theorem readSegmentsOf_root {segments : List Segment} {text : String} {chars : List Char}
    {behind : Nat} {asksSize : Bool} (same : text.toList = '$' :: chars)
    (read : readSegments (enoughFuel (chars.length + 1)) false ⟨'$'.utf8Size, chars⟩ =
      .ok ((segments, asksSize), ⟨behind, []⟩)) :
    parse text = .ok ⟨text, segments⟩ := by
  have start : (Cursor.ofString text).eat? '$' = some ⟨'$'.utf8Size, chars⟩ := by
    rw [Cursor.ofString, same]
    simp [Cursor.eat?, Cursor.peek?, Cursor.skip]
  have length : (Cursor.ofString text).rest.length = chars.length + 1 := by
    rw [Cursor.ofString, same, List.length_cons]
  rw [parse, readSegmentsOf]
  simp only [start, length, read, bind, Except.bind, Cursor.peek?, List.head?_nil]

/-- Hops are read as the segments that they stand for. -/
theorem parse_hops {hops : List Hop} (readable : ∀ hop ∈ hops, hop.isReadable = true) :
    parse (pathText hops) = .ok ⟨pathText hops, hops.map Hop.segment⟩ := by
  have enough := Hop.length_le_length_textOf hops
  have fuel : enoughFuel ((Hop.textOf hops).toList.length + 1) =
      (enoughFuel ((Hop.textOf hops).toList.length + 1) - 2 * hops.length - 1) + 1 +
        2 * hops.length := by
    rw [enoughFuel]
    omega
  obtain ⟨behind, read⟩ := readSegments_hops readable (stopsAt_nil _)
    (enoughFuel ((Hop.textOf hops).toList.length + 1) - 2 * hops.length - 1 + 1) '$'.utf8Size
  rw [readSegments_end (stopsAt_nil _), putFront_ok, ← fuel, List.append_nil,
    List.append_nil] at read
  exact readSegmentsOf_root (by rw [pathText, String.toList_append]; rfl) read

/-- There is enough fuel for hops with a condition behind them. -/
theorem enoughFuel_condition (hops inside : List Hop) (value : Json) :
    ∃ spare, enoughFuel (((Hop.textOf hops).toList ++
        (conditionText inside value).toList).length + 1) =
      spare + 2 * inside.length + 5 + 2 + 2 * hops.length := by
  have long := Hop.length_le_length_textOf hops
  have insideLong := Hop.length_le_length_textOf inside
  have conditionLong : (Hop.textOf inside).toList.length + 4 ≤
      (conditionText inside value).toList.length := by
    rw [toList_conditionText]
    simp only [List.length_cons, List.length_append]
    omega
  have whole : ((Hop.textOf hops).toList ++ (conditionText inside value).toList).length =
      (Hop.textOf hops).toList.length + (conditionText inside value).toList.length :=
    List.length_append
  refine ⟨enoughFuel (((Hop.textOf hops).toList ++
    (conditionText inside value).toList).length + 1) -
      (2 * inside.length + 5 + 2 + 2 * hops.length), ?_⟩
  rw [whole, enoughFuel]
  omega

/-- Hops with a condition behind them are read as their segments and a filter. -/
theorem parse_hops_condition {hops inside : List Hop}
    (readable : ∀ hop ∈ hops, hop.isReadable = true)
    (insideReadable : ∀ hop ∈ inside, hop.isReadable = true) {value read : Json}
    (literal : LiteralReads value read) :
    parse (pathText hops ++ conditionText inside value) =
      .ok ⟨pathText hops ++ conditionText inside value,
        hops.map Hop.segment ++ [.filter (condition inside read)]⟩ := by
  have chars : (pathText hops ++ conditionText inside value).toList =
      '$' :: ((Hop.textOf hops).toList ++ (conditionText inside value).toList) := by
    rw [String.toList_append, pathText, String.toList_append]
    rfl
  obtain ⟨spare, fuel⟩ := enoughFuel_condition hops inside value
  have ends : EndsName false (conditionText inside value).toList := by
    rw [toList_conditionText]
    exact stopsAt_cons (by decide) _
  obtain ⟨middle, front⟩ := readSegments_hops readable ends
    (spare + 2 * inside.length + 5 + 2) '$'.utf8Size
  obtain ⟨behind, filter⟩ := readBracket_condition insideReadable literal spare middle []
  rw [List.append_nil] at filter
  have last : readSegments (spare + 2 * inside.length + 5 + 2) false
      ⟨middle, (conditionText inside value).toList⟩ =
        .ok (([.filter (condition inside read)], false), ⟨behind, []⟩) := by
    have opens : ∃ more, (conditionText inside value).toList = '[' :: more :=
      ⟨_, toList_conditionText inside value⟩
    obtain ⟨more, same⟩ := opens
    rw [same] at filter ⊢
    rw [readSegments_bracket false filter, readSegments_end (stopsAt_nil _), putFront_ok]
    rfl
  rw [last, putFront_ok, ← fuel] at front
  exact readSegmentsOf_root chars front

end Path

end BodyContract
