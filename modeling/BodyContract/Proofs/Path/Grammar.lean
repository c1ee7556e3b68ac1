import BodyContract.Proofs.Path.Hop
import BodyContract.Proofs.Path.Lookahead

/-!
# How far the grammar looks ahead

The readers of segments, brackets and conditions look no further than two
characters behind what they have read, as the readers of words do that they are
made of.  With more fuel they read the same.
-/

namespace BodyContract

namespace Path

variable {α : Type} {cursor last : Cursor}

/-- Whether all readers with some fuel look ahead no further than two characters,
and those with more fuel read the same. -/
structure ReadersLookAhead (fuel wider : Nat) : Prop where
  segments (inFilter : Bool) :
    LooksAhead 2 (readSegments fuel inFilter) (readSegments wider inFilter)
  continuing (inFilter : Bool) (segment : Segment) :
    LooksAhead 2 (continueWith fuel inFilter segment) (continueWith wider inFilter segment)
  bracket : LooksAhead 0 (readBracket fuel) (readBracket wider)
  either : LooksAhead 2 (readEither fuel) (readEither wider)
  moreEither (left : Condition) :
    LooksAhead 2 (readMoreEither fuel left) (readMoreEither wider left)
  both : LooksAhead 2 (readBoth fuel) (readBoth wider)
  moreBoth (left : Condition) : LooksAhead 2 (readMoreBoth fuel left) (readMoreBoth wider left)
  test : LooksAhead 2 (readTest fuel) (readTest wider)
  operand : LooksAhead 2 (readOperand fuel) (readOperand wider)

section

variable {fuel wider : Nat} (inner : ReadersLookAhead fuel wider)

theorem readEither_succ (fuel : Nat) : readEither (fuel + 1) = fun cursor =>
    readBoth fuel cursor >>= fun result => readMoreEither fuel result.1 result.2 := by
  funext cursor
  rw [readEither]

theorem readBoth_succ (fuel : Nat) : readBoth (fuel + 1) = fun cursor =>
    readTest fuel cursor >>= fun result => readMoreBoth fuel result.1 result.2 := by
  funext cursor
  rw [readBoth]

theorem readMoreEither_succ (fuel : Nat) (left : Condition) :
    readMoreEither (fuel + 1) left = fun cursor =>
      match eatWord? "||" (skipBlanks cursor) with
      | none => .ok (left, skipBlanks cursor)
      | some behind => readBoth fuel behind >>= fun result =>
          readMoreEither fuel (.either left result.1) result.2 := by
  funext cursor
  exact (readMoreEither.eq_def (fuel + 1) left cursor).trans rfl

theorem readMoreBoth_succ (fuel : Nat) (left : Condition) :
    readMoreBoth (fuel + 1) left = fun cursor =>
      match eatWord? "&&" (skipBlanks cursor) with
      | none => .ok (left, skipBlanks cursor)
      | some behind => readTest fuel behind >>= fun result =>
          readMoreBoth fuel (.both left result.1) result.2 := by
  funext cursor
  exact (readMoreBoth.eq_def (fuel + 1) left cursor).trans rfl

theorem continueWith_eq (fuel : Nat) (inFilter : Bool) (segment : Segment) :
    continueWith (fuel + 1) inFilter segment = fun cursor =>
      readSegments fuel inFilter cursor >>= fun result =>
        .ok ((segment :: result.1.1, result.1.2), result.2) := by
  funext cursor
  rw [continueWith]

/-- Reads an operand whose first character is known. -/
def readOperandBy (fuel : Nat) (next : Option Char) (cursor : Cursor) :
    Except PathProblem (Operand × Cursor) :=
  match next with
  | some '@' => readSegments fuel true cursor.skip >>= fun result =>
      .ok (.current result.1.1 result.1.2, result.2)
  | some '$' => readSegments fuel true cursor.skip >>= fun result =>
      .ok (.root result.1.1 result.1.2, result.2)
  | some '/' => readRegex cursor.skip
  | some c =>
      if c = '\'' || c = '"' then
        readQuoted c cursor.skip >>= fun result => .ok (.literal (.string result.1), result.2)
      else if c = '-' || c.isDigit then
        readNumber cursor
      else
        readKeyword cursor
  | none => readKeyword cursor

theorem readOperand_succ (fuel : Nat) :
    readOperand (fuel + 1) = fun cursor => readOperandBy fuel cursor.peek? cursor := by
  funext cursor
  exact (readOperand.eq_def (fuel + 1) cursor).trans rfl

/-- Puts a comparison together; only a regular expression can be matched with. -/
def compared (left : Operand) (comparison : Comparison) (right : Operand) (cursor : Cursor) :
    Except PathProblem (Condition × Cursor) :=
  match comparison, right with
  | .matching, .regex _ => .ok (.compares left comparison right, cursor)
  | .matching, _ => fail cursor .expectedRegex
  | _, _ => .ok (.compares left comparison right, cursor)

/-- Reads what follows the first operand of a test. -/
def readComparing (fuel : Nat) (left : Operand) (cursor : Cursor) :
    Except PathProblem (Condition × Cursor) :=
  match readComparison? cursor with
  | none => .ok (.present left, cursor)
  | some sign => readOperand fuel (skipBlanks sign.2) >>= fun result =>
      compared left sign.1 result.1 result.2

theorem readTest_succ (fuel : Nat) : readTest (fuel + 1) = fun cursor =>
    match (skipBlanks cursor).eat? '(' with
    | some inside => readEither fuel inside >>= fun result =>
        expect ')' (skipBlanks result.2) >>= fun closed => .ok (result.1, closed)
    | none => readOperand fuel (skipBlanks cursor) >>= fun result =>
        readComparing fuel result.1 (skipBlanks result.2) := by
  funext cursor
  rw [readTest]
  cases (skipBlanks cursor).eat? '(' with
  | some inside => rfl
  | none =>
      apply bind_congr
      intro result
      obtain ⟨left, behind⟩ := result
      dsimp only
      rw [readComparing]
      cases readComparison? (skipBlanks behind) with
      | none => rfl
      | some sign =>
          apply bind_congr
          intro result
          obtain ⟨right, last⟩ := result
          obtain ⟨comparison, behindSign⟩ := sign
          cases comparison <;> cases right <;> rfl

/-- Reads what stands in brackets, whose first character is known. -/
def readInside (fuel : Nat) (next : Option Char) (cursor : Cursor) :
    Except PathProblem (Segment × Cursor) :=
  match next with
  | some '*' => .ok (.wildcard, cursor.skip)
  | some '?' => expect '(' (skipBlanks cursor.skip) >>= fun opened =>
      (readEither fuel opened >>= fun result =>
        expect ')' (skipBlanks result.2) >>= fun closed => .ok (result.1, closed)) >>=
          fun result => .ok (.filter result.1, result.2)
  | some c =>
      if c = '\'' || c = '"' then
        readQuoted c cursor.skip >>= fun result => .ok (.child result.1, result.2)
      else if c = '-' || c.isDigit then
        readPosition cursor >>= fun result => .ok (.element result.1, result.2)
      else
        fail cursor .expectedSelector
  | none => fail cursor .expectedSelector

theorem readInside_of_ne {c : Char} (noStar : c ≠ '*') (noFilter : c ≠ '?') (fuel : Nat)
    (cursor : Cursor) :
    readInside fuel (some c) cursor =
      if c = '\'' || c = '"' then
        readQuoted c cursor.skip >>= fun result => .ok (.child result.1, result.2)
      else if c = '-' || c.isDigit then
        readPosition cursor >>= fun result => .ok (.element result.1, result.2)
      else
        fail cursor .expectedSelector := by
  unfold readInside
  split
  case h_1 same => exact absurd (Option.some.inj same) noStar
  case h_2 same => exact absurd (Option.some.inj same) noFilter
  case h_3 same =>
      cases same
      rfl
  case h_4 same => cases same

theorem readBracket_succ (fuel : Nat) : readBracket (fuel + 1) = fun cursor =>
    expect '[' cursor >>= fun opened =>
      readInside fuel (skipBlanks opened).peek? (skipBlanks opened) >>= fun result =>
        expect ']' (skipBlanks result.2) >>= fun closed => .ok (result.1, closed) := by
  funext cursor
  rw [readBracket]
  apply bind_congr
  intro opened
  dsimp only
  generalize skipBlanks opened = inside
  generalize inside.peek? = next
  split
  · rfl
  · rw [readInside]
    simp only [bind_assoc]
    rfl
  · rename_i c noStar noFilter
    rw [readInside_of_ne noStar noFilter]
    split
    · rw [bind_assoc]
    · split
      · rw [bind_assoc]
      · rfl
  · rfl

/-- Reads on behind two dots and brackets. -/
def descendTo (fuel : Nat) (inFilter : Bool) (segment : Segment) (cursor : Cursor) :
    Except PathProblem ((List Segment × Bool) × Cursor) :=
  match segment with
  | .child name => continueWith fuel inFilter (.descendants (some name)) cursor
  | .wildcard => continueWith fuel inFilter (.descendants none) cursor
  | _ => fail cursor .unsupportedDescent

/-- Reads brackets behind two dots. -/
def descendBracket (fuel : Nat) (inFilter : Bool) (cursor : Cursor) :
    Except PathProblem ((List Segment × Bool) × Cursor) :=
  readBracket fuel cursor >>= fun result => descendTo fuel inFilter result.1 result.2

/-- Reads a name behind two dots. -/
def descendName (fuel : Nat) (inFilter : Bool) (cursor : Cursor) :
    Except PathProblem ((List Segment × Bool) × Cursor) :=
  readName inFilter cursor >>= fun result =>
    continueWith fuel inFilter (.descendants (some result.1)) result.2

/-- Reads brackets. -/
def followBracket (fuel : Nat) (inFilter : Bool) (cursor : Cursor) :
    Except PathProblem ((List Segment × Bool) × Cursor) :=
  readBracket fuel cursor >>= fun result => continueWith fuel inFilter result.1 result.2

/-- Reads on behind a name, which may ask for a size. -/
def followNamed (fuel : Nat) (inFilter : Bool) (name : String) (cursor : Cursor) :
    Except PathProblem ((List Segment × Bool) × Cursor) :=
  match if inFilter && (name == "size" || name == "length") then eatWord? "()" cursor else none with
  | some last => .ok (([], true), last)
  | none => continueWith fuel inFilter (.child name) cursor

/-- Reads a name behind a dot. -/
def followName (fuel : Nat) (inFilter : Bool) (cursor : Cursor) :
    Except PathProblem ((List Segment × Bool) × Cursor) :=
  readName inFilter cursor >>= fun result => followNamed fuel inFilter result.1 result.2

/-- What segments can open with. -/
inductive Opening where
  | descendAll
  | descendBracket
  | descendName
  | every
  | dottedBracket
  | dottedName
  | bracket
  | nothing
deriving DecidableEq

/-- What a text opens with. -/
def opening : List Char → Opening
  | '.' :: '.' :: '*' :: _ => .descendAll
  | '.' :: '.' :: '[' :: _ => .descendBracket
  | '.' :: '.' :: _ => .descendName
  | '.' :: '*' :: _ => .every
  | '.' :: '[' :: _ => .dottedBracket
  | '.' :: _ => .dottedName
  | '[' :: _ => .bracket
  | _ => .nothing

namespace Opening

/-- The number of characters that are skipped at once. -/
def length : Opening → Nat
  | .descendAll => 3
  | .descendBracket => 2
  | .descendName => 2
  | .every => 2
  | .dottedBracket => 1
  | .dottedName => 1
  | .bracket => 0
  | .nothing => 0

/-- Whether the character behind an opening has been looked at. -/
def peeks : Opening → Bool
  | .descendAll => false
  | .every => false
  | _ => true

/-- Reads what follows behind an opening. -/
def read (fuel : Nat) (inFilter : Bool) :
    Opening → Cursor → Except PathProblem ((List Segment × Bool) × Cursor)
  | .descendAll => continueWith fuel inFilter (.descendants none)
  | .descendBracket => Path.descendBracket fuel inFilter
  | .descendName => Path.descendName fuel inFilter
  | .every => continueWith fuel inFilter .wildcard
  | .dottedBracket => followBracket fuel inFilter
  | .dottedName => followName fuel inFilter
  | .bracket => followBracket fuel inFilter
  | .nothing => fun cursor => .ok (([], false), cursor)

end Opening

theorem readSegments_succ (fuel : Nat) (inFilter : Bool) (cursor : Cursor) :
    readSegments (fuel + 1) inFilter cursor =
      (opening cursor.rest).read fuel inFilter (cursor.skipMany (opening cursor.rest).length) := by
  rw [readSegments]
  generalize cursor.rest = text
  fun_cases opening text with
  | case3 => split <;> first | rfl | grind
  | case6 => split <;> first | rfl | grind
  | case8 => split <;> first | rfl | grind
  | _ => rfl

theorem length_opening_le (text : List Char) : (opening text).length ≤ text.length := by
  rw [opening.eq_def]
  split <;> simp [Opening.length]

theorem head_ne {c first : Char} {rest : List Char}
    (other : ∀ tail, first :: rest = c :: tail → False) : first ≠ c :=
  fun same => other rest (congrArg (· :: rest) same)

/-- Texts that go on alike behind an opening open alike. -/
theorem opening_alike {text other : List Char} {first : Opening} (opens : opening text = first)
    (alike : first.peeks = true → Alike 1 (text.drop first.length) other) :
    opening (text.take first.length ++ other) = first := by
  revert opens
  fun_cases opening text with
  | case1 =>
      rintro rfl
      rfl
  | case2 rest =>
      rintro rfl
      obtain ⟨c, tail, others, same, rfl, -⟩ := (alike rfl).cases_succ
      cases same
      rfl
  | case3 rest noStar noBracket =>
      rintro rfl
      obtain ⟨c, tail, others, same, rfl, -⟩ := (alike rfl).cases_succ
      cases same
      simp [opening, Opening.length, head_ne noStar, head_ne noBracket]
  | case4 =>
      rintro rfl
      rfl
  | case5 rest =>
      rintro rfl
      obtain ⟨c, tail, others, same, rfl, -⟩ := (alike rfl).cases_succ
      cases same
      rfl
  | case6 rest _ _ noDot noStar noBracket =>
      rintro rfl
      obtain ⟨c, tail, others, same, rfl, -⟩ := (alike rfl).cases_succ
      cases same
      simp [opening, Opening.length, head_ne noDot, head_ne noStar, head_ne noBracket]
  | case7 rest =>
      rintro rfl
      obtain ⟨c, tail, others, same, rfl, -⟩ := (alike rfl).cases_succ
      cases same
      rfl
  | case8 _ _ _ _ _ _ noDot noBracket =>
      rintro rfl
      obtain ⟨c, tail, others, same, rfl, -⟩ := (alike rfl).cases_succ
      cases same
      simp [opening, Opening.length, head_ne noDot, head_ne noBracket]

/-- Segments open as they do in front of another text that goes on alike. -/
theorem readSegments_alike {start : Cursor} {other : List Char}
    (alike : (opening start.rest).peeks = true →
      Alike 1 (start.rest.drop (opening start.rest).length) other)
    (fuel : Nat) (inFilter : Bool) (position : Nat) : ∃ behind,
      readSegments (fuel + 1) inFilter
          ⟨position, start.rest.take (opening start.rest).length ++ other⟩ =
        (opening start.rest).read fuel inFilter ⟨behind, other⟩ := by
  obtain ⟨behind, skipped⟩ := Cursor.skipMany_append position
    (start.rest.take (opening start.rest).length) other
  rw [List.length_take_of_le (length_opening_le start.rest)] at skipped
  refine ⟨behind, ?_⟩
  rw [readSegments_succ, opening_alike rfl alike, skipped]

theorem rest_of_readName {inFilter : Bool} {name : String}
    (read : readName inFilter cursor = .ok (name, last)) : cursor.rest ≠ [] := by
  intro atEnd
  rw [readName, Cursor.span, atEnd] at read
  cases read

theorem rest_of_readBracket {fuel : Nat} {segment : Segment}
    (read : readBracket fuel cursor = .ok (segment, last)) : cursor.rest ≠ [] := by
  cases fuel with
  | zero => cases read
  | succ fuel =>
      rw [readBracket_succ] at read
      obtain ⟨opened, isOpened, -⟩ := bind_eq_ok_iff.mp read
      rw [rest_of_expect isOpened]
      exact List.cons_ne_nil _ _

/-- Segments that do not end the text have the character behind their opening in
it, if that has been looked at. -/
theorem Opening.rest_of_read {first : Opening} {fuel : Nat} {inFilter : Bool}
    {result : List Segment × Bool} (read : first.read fuel inFilter cursor = .ok (result, last))
    (left : first = .nothing → last.rest ≠ []) (peeks : first.peeks = true) :
    cursor.rest ≠ [] := by
  cases first with
  | descendName =>
      obtain ⟨_, isName, -⟩ := bind_eq_ok_iff.mp read
      exact rest_of_readName isName
  | dottedName =>
      obtain ⟨_, isName, -⟩ := bind_eq_ok_iff.mp read
      exact rest_of_readName isName
  | nothing =>
      cases read
      exact left rfl
  | descendAll => cases peeks
  | every => cases peeks
  | _ =>
      obtain ⟨_, isBracket, -⟩ := bind_eq_ok_iff.mp read
      exact rest_of_readBracket isBracket

/-- Segments in front of more text open as they do on their own. -/
theorem readSegments_more {start : Cursor} (left : (opening start.rest).peeks = true →
      start.rest.drop (opening start.rest).length ≠ [])
    (fuel : Nat) (inFilter : Bool) (more : List Char) (position : Nat) :
    ∃ behind, readSegments (fuel + 1) inFilter ⟨position, start.rest ++ more⟩ =
      (opening start.rest).read fuel inFilter
        ⟨behind, start.rest.drop (opening start.rest).length ++ more⟩ := by
  have opens := readSegments_alike (fun peeks => alike_append
    (List.length_pos_iff.mpr (left peeks)) more) fuel inFilter position
  rw [← List.append_assoc, List.take_append_drop] at opens
  exact opens

include inner

theorem looksAhead_readEither : LooksAhead 2 (readEither (fuel + 1)) (readEither (wider + 1)) := by
  rw [readEither_succ, readEither_succ]
  exact inner.both.bind inner.moreEither

theorem looksAhead_readBoth : LooksAhead 2 (readBoth (fuel + 1)) (readBoth (wider + 1)) := by
  rw [readBoth_succ, readBoth_succ]
  exact inner.test.bind inner.moreBoth

theorem looksAhead_readMoreEither (left : Condition) :
    LooksAhead 2 (readMoreEither (fuel + 1) left) (readMoreEither (wider + 1) left) := by
  rw [readMoreEither_succ, readMoreEither_succ]
  exact (LooksAhead.ofWord ⟨by decide, by simp⟩
    (inner.both.bind fun right => inner.moreEither (.either left right))
    (looksAhead_ok left)).skipBlanks (by decide)

theorem looksAhead_readMoreBoth (left : Condition) :
    LooksAhead 2 (readMoreBoth (fuel + 1) left) (readMoreBoth (wider + 1) left) := by
  rw [readMoreBoth_succ, readMoreBoth_succ]
  exact (LooksAhead.ofWord ⟨by decide, by simp⟩
    (inner.test.bind fun right => inner.moreBoth (.both left right))
    (looksAhead_ok left)).skipBlanks (by decide)

theorem looksAhead_continueWith (inFilter : Bool) (segment : Segment) :
    LooksAhead 2 (continueWith (fuel + 1) inFilter segment)
      (continueWith (wider + 1) inFilter segment) := by
  rw [continueWith_eq, continueWith_eq]
  exact (inner.segments inFilter).bind fun read => looksAhead_ok (segment :: read.1, read.2)

theorem looksAhead_readOperand :
    LooksAhead 2 (readOperand (fuel + 1)) (readOperand (wider + 1)) := by
  have path : LooksAhead 2 (readSegments fuel true) (readSegments wider true) :=
    inner.segments true
  rw [readOperand_succ, readOperand_succ]
  apply LooksAhead.ofPeek (by decide)
  intro next
  unfold readOperandBy
  split
  · exact (path.bind fun read => looksAhead_ok (Operand.current read.1 read.2)).skip (by decide)
  · exact (path.bind fun read => looksAhead_ok (Operand.root read.1 read.2)).skip (by decide)
  · exact (looksAhead_readRegex.mono (by decide)).skip (by decide)
  · split
    · exact (((looksAhead_readQuoted _).mono (Nat.zero_le 2)).bind fun text =>
        looksAhead_ok (Operand.literal (.string text))).skip (by decide)
    · split
      · exact looksAhead_readNumber.mono (by decide)
      · exact looksAhead_readKeyword.mono (by decide)
  · exact looksAhead_readKeyword.mono (by decide)

theorem looksAhead_readTest : LooksAhead 2 (readTest (fuel + 1)) (readTest (wider + 1)) := by
  have comparing : ∀ left, LooksAhead 2 (readComparing fuel left) (readComparing wider left) := by
    intro left
    have finished : ∀ comparison right, LooksAhead 2 (compared left comparison right)
        (compared left comparison right) := by
      intro comparison right
      unfold compared
      split
      · exact looksAhead_ok _
      · exact looksAhead_fail
      · exact looksAhead_ok _
    have ahead := fun comparison =>
      (inner.operand.bind (finished comparison)).skipBlanks (by decide)
    exact looksAhead_ofComparison _ ahead
  rw [readTest_succ, readTest_succ]
  exact (LooksAhead.ofEat '(' (by decide) (inner.either.parenthesized.mono (by decide))
    (inner.operand.bind fun left => (comparing left).skipBlanks (by decide))).skipBlanks (by decide)

theorem looksAhead_readInside (next : Option Char) :
    LooksAhead 1 (readInside fuel next) (readInside wider next) := by
  unfold readInside
  split
  · exact (looksAhead_ok Segment.wildcard).skip (by decide)
  · exact (((((inner.either.closed ')').bind fun condition =>
      looksAhead_ok (Segment.filter condition)).opened '(').skipBlanks (by decide)).skip
        (by decide))
  · split
    · exact (((looksAhead_readQuoted _).mono (by decide)).bind fun name =>
        looksAhead_ok (Segment.child name)).skip (by decide)
    · split
      · exact looksAhead_readPosition.bind fun position => looksAhead_ok (Segment.element position)
      · exact looksAhead_fail
  · exact looksAhead_fail

theorem looksAhead_readBracket : LooksAhead 0 (readBracket (fuel + 1)) (readBracket (wider + 1)) := by
  rw [readBracket_succ, readBracket_succ]
  exact (((LooksAhead.ofPeek (by decide) (looksAhead_readInside inner)).skipBlanks
    (by decide)).closed ']').opened '['

theorem looksAhead_followBracket (inFilter : Bool) :
    LooksAhead 2 (followBracket fuel inFilter) (followBracket wider inFilter) :=
  (inner.bracket.mono (Nat.zero_le 2)).bind (inner.continuing inFilter)

theorem looksAhead_descendBracket (inFilter : Bool) :
    LooksAhead 2 (descendBracket fuel inFilter) (descendBracket wider inFilter) := by
  apply (inner.bracket.mono (Nat.zero_le 2)).bind
  intro segment
  cases segment with
  | child name => exact inner.continuing inFilter (.descendants (some name))
  | wildcard => exact inner.continuing inFilter (.descendants none)
  | _ => exact looksAhead_fail

theorem looksAhead_descendName (inFilter : Bool) :
    LooksAhead 2 (descendName fuel inFilter) (descendName wider inFilter) :=
  ((looksAhead_readName inFilter).mono (by decide)).bind fun name =>
    inner.continuing inFilter (.descendants (some name))

theorem looksAhead_followNamed (inFilter : Bool) (name : String) :
    LooksAhead 2 (followNamed fuel inFilter name) (followNamed wider inFilter name) := by
  have continuing := inner.continuing inFilter (.child name)
  by_cases asks : (inFilter && (name == "size" || name == "length")) = true
  · have bySign : ∀ fuel, followNamed fuel inFilter name = fun cursor =>
        match eatWord? "()" cursor with
        | none => continueWith fuel inFilter (.child name) cursor
        | some last => .ok (([], true), last) := by
      intro fuel
      funext cursor
      rw [followNamed.eq_def, if_pos asks]
      cases eatWord? "()" cursor with
      | none => rfl
      | some last => rfl
    rw [bySign, bySign]
    exact LooksAhead.ofWord ⟨by decide, by simp⟩ (looksAhead_ok ([], true)) continuing
  · have plain : ∀ fuel, followNamed fuel inFilter name =
        continueWith fuel inFilter (.child name) := by
      intro fuel
      funext cursor
      rw [followNamed.eq_def, if_neg asks]
    rw [plain, plain]
    exact continuing

theorem looksAhead_followName (inFilter : Bool) :
    LooksAhead 2 (followName fuel inFilter) (followName wider inFilter) :=
  ((looksAhead_readName inFilter).mono (by decide)).bind
    (looksAhead_followNamed inner inFilter)

theorem looksAhead_readSegments (inFilter : Bool) :
    LooksAhead 2 (readSegments (fuel + 1) inFilter) (readSegments (wider + 1) inFilter) := by
  have ahead : ∀ first : Opening,
      LooksAhead 2 (first.read fuel inFilter) (first.read wider inFilter) := by
    intro first
    cases first with
    | descendAll => exact inner.continuing inFilter (.descendants none)
    | descendBracket => exact looksAhead_descendBracket inner inFilter
    | descendName => exact looksAhead_descendName inner inFilter
    | every => exact inner.continuing inFilter .wildcard
    | dottedBracket => exact looksAhead_followBracket inner inFilter
    | dottedName => exact looksAhead_followName inner inFilter
    | bracket => exact looksAhead_followBracket inner inFilter
    | nothing => exact looksAhead_ok ([], false)
  intro start value last read
  rw [readSegments_succ] at read
  obtain ⟨front, same, goesOn⟩ := ahead _ _ value last read
  rw [Cursor.rest_skipMany] at same
  refine ⟨start.rest.take (opening start.rest).length ++ front, ?_, ?_⟩
  · rw [List.append_assoc, ← same, List.take_append_drop]
  · intro other alike position
    have begins : Alike 1 (start.rest.drop (opening start.rest).length) (front ++ other) := by
      rw [same]
      exact (alike.mono (by decide)).prepend front
    obtain ⟨middle, opens⟩ := readSegments_alike (fun _ => begins) wider inFilter position
    rw [List.append_assoc, opens]
    exact goesOn other alike middle

end

/-- However much fuel there is, readers look ahead no further than two
characters, and read the same with more fuel. -/
theorem readersLookAhead_of_le {fuel wider : Nat} (enough : fuel ≤ wider) :
    ReadersLookAhead fuel wider := by
  induction fuel generalizing wider with
  | zero =>
      refine ⟨fun _ => ?_, fun _ _ => ?_, ?_, ?_, fun _ => ?_, ?_, fun _ => ?_, ?_, ?_⟩ <;>
      · intro start value last read
        cases read
  | succ fuel inductionHypothesis =>
      cases wider with
      | zero => cases enough
      | succ wider =>
          have inner := inductionHypothesis (Nat.le_of_succ_le_succ enough)
          exact
            { segments := looksAhead_readSegments inner
              continuing := looksAhead_continueWith inner
              bracket := looksAhead_readBracket inner
              either := looksAhead_readEither inner
              moreEither := looksAhead_readMoreEither inner
              both := looksAhead_readBoth inner
              moreBoth := looksAhead_readMoreBoth inner
              test := looksAhead_readTest inner
              operand := looksAhead_readOperand inner }

/-- What stands in brackets begins and ends with them. -/
theorem exists_inside_of_readBracket {fuel : Nat} {segment : Segment}
    (read : readBracket fuel cursor = .ok (segment, last)) :
    ∃ inside, cursor.rest = '[' :: (inside ++ ']' :: last.rest) := by
  cases fuel with
  | zero => cases read
  | succ fuel =>
      rw [readBracket_succ] at read
      obtain ⟨opened, isOpened, isInside⟩ := bind_eq_ok_iff.mp read
      obtain ⟨⟨value, behind⟩, isValue, isClosed⟩ := bind_eq_ok_iff.mp isInside
      obtain ⟨closed, met, same⟩ := bind_eq_ok_iff.mp isClosed
      cases same
      have inner := readersLookAhead_of_le (Nat.le_refl fuel)
      obtain ⟨front, whole, -⟩ := looksAhead_readInside inner _ _ _ _ isValue
      obtain ⟨blanks, opens, -⟩ := skipBlanks_alike opened
      obtain ⟨blanksToo, closes, -⟩ := skipBlanks_alike behind
      rw [rest_of_expect met] at closes
      refine ⟨blanks ++ front ++ blanksToo, ?_⟩
      rw [rest_of_expect isOpened, opens, whole, closes]
      simp

end Path

end BodyContract
