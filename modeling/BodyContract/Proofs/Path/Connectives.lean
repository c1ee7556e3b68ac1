import BodyContract.Path.Evaluation
import BodyContract.Proofs.Path.Brackets

/-!
# Connectives in filters

Conditions in parentheses are read as they are read as filters of their own,
whatever stands behind them.  With `&&` and `||` in between, they are put
together from the left and `&&` binds closer, so the whole holds exactly if
all conditions between two `||` do.
-/

namespace BodyContract

namespace Path

/-! ## Clauses -/

/-- What stands between two conditions. -/
inductive Connective where
  | both
  | either
deriving DecidableEq, Repr

/-- The sign of a connective in a filter. -/
def Connective.sign : Connective → String
  | .both => "&&"
  | .either => "||"

/-- A condition with a text that it is read from. -/
structure Clause where
  text : String
  condition : Condition

namespace Clause

/-- Whether a filter with the text of the clause is read as its condition. -/
def IsRead (clause : Clause) : Prop :=
  ∃ path, parse ("$[?(" ++ clause.text ++ ")]") = .ok path ∧
    path.segments = [.filter clause.condition]

/-- The text of a clause in parentheses. -/
def enclosed (clause : Clause) : String := "(" ++ clause.text ++ ")"

theorem toList_enclosed (clause : Clause) :
    clause.enclosed.toList = '(' :: (clause.text.toList ++ [')']) := by
  rw [enclosed, String.toList_append, String.toList_append]
  rfl

end Clause

/-- Clauses in parentheses with connectives in between. -/
def connected (first : Clause) (rest : List (Connective × Clause)) : String :=
  first.enclosed ++ String.join
    (rest.map fun next => " " ++ next.1.sign ++ " " ++ next.2.enclosed)

/-- The characters of the clauses behind the first one, each with its connective. -/
def tailChars (rest : List (Connective × Clause)) : List Char :=
  rest.flatMap fun next => ' ' :: (next.1.sign.toList ++ ' ' :: next.2.enclosed.toList)

theorem toList_connected (first : Clause) (rest : List (Connective × Clause)) :
    (connected first rest).toList = first.enclosed.toList ++ tailChars rest := by
  rw [connected, String.toList_append, tailChars]
  congr 1
  induction rest with
  | nil => rfl
  | cons next rest inductionHypothesis =>
      rw [List.map_cons, String.join_cons, String.toList_append, inductionHypothesis,
        List.flatMap_cons]
      simp [String.toList_append]

/-- The clauses between two `||`, when those of `group` have been met since the last one. -/
def groups (group : List Clause) : List (Connective × Clause) → List (List Clause)
  | [] => [group]
  | (.both, next) :: rest => groups (group ++ [next]) rest
  | (.either, next) :: rest => group :: groups [next] rest

/-! ## Single clauses -/

/-- What stands in the brackets of a filter is a condition in parentheses. -/
theorem condition_of_readBracket {fuel position : Nat} {text : List Char} {segment : Segment}
    {last : Cursor}
    (read : readBracket (fuel + 1) ⟨position, '[' :: '?' :: '(' :: text⟩ = .ok (segment, last)) :
    ∃ condition closed start, segment = .filter condition ∧
      (readEither fuel ⟨start, text⟩ >>= fun result =>
        expect ')' (skipBlanks result.2) >>= fun closed => .ok (result.1, closed)) =
          .ok (condition, closed) ∧ expect ']' (skipBlanks closed) = .ok last := by
  rw [readBracket_succ] at read
  obtain ⟨opened, isOpened, isInside⟩ := bind_eq_ok_iff.mp read
  rw [expect_self] at isOpened
  cases isOpened
  obtain ⟨⟨value, behind⟩, isValue, isClosed⟩ := bind_eq_ok_iff.mp isInside
  obtain ⟨ending, met, same⟩ := bind_eq_ok_iff.mp isClosed
  cases same
  rw [skipBlanks_visible (by decide)] at isValue
  obtain ⟨inside, isParenthesis, isFilter⟩ := bind_eq_ok_iff.mp isValue
  rw [Cursor.skip, skipBlanks_visible (by decide), expect_self] at isParenthesis
  cases isParenthesis
  obtain ⟨⟨condition, closed⟩, isCondition, same⟩ := bind_eq_ok_iff.mp isFilter
  cases same
  exact ⟨condition, closed, _, rfl, isCondition, met⟩

/-- A path of one segment in brackets ends behind them. -/
theorem readBracket_of_readSegments {fuel position : Nat} {inside : List Char} {segment : Segment}
    {asksSize : Bool} {last : Cursor}
    (read : readSegments (fuel + 1) false ⟨position, '[' :: inside⟩ =
      .ok (([segment], asksSize), last)) (atEnd : last.rest = []) :
    ∃ behind, readBracket fuel ⟨position, '[' :: inside⟩ = .ok (segment, behind) ∧
      behind.rest = [] := by
  rw [readSegments_succ] at read
  obtain ⟨⟨found, behind⟩, isBracket, isContinued⟩ := bind_eq_ok_iff.mp read
  obtain ⟨fewer, others, -, same, isRead⟩ := of_continueWith isContinued
  cases same
  refine ⟨behind, isBracket, ?_⟩
  cases fewer with
  | zero => cases isRead
  | succ fewer =>
      rcases beginsSegments_of_readSegments isRead atEnd with ⟨nothing, -⟩ |
        ⟨_, _, _, _, _, -, -, -, impossible, -⟩
      · exact nothing
      · cases impossible

/-- The last parenthesis of a text with a bracket behind it is in front of no blanks. -/
theorem eq_of_blanks {front text blanks : List Char}
    (same : text ++ [')', ']'] = front ++ (blanks ++ [']']))
    (blank : ∀ c ∈ blanks, CharSet.whiteSpace.contains c = true) :
    front = text ++ [')'] := by
  have shifted : text ++ [')'] ++ [']'] = front ++ blanks ++ [']'] := by
    rw [List.append_assoc, List.append_assoc]
    exact same
  have ends := List.append_cancel_right shifted
  rcases List.eq_nil_or_concat blanks with rfl | ⟨others, c, rfl⟩
  · rw [ends, List.append_nil]
  · rw [List.concat_eq_append, ← List.append_assoc] at ends
    have isParenthesis : c = ')' := by
      have lasts := (List.append_inj' ends rfl).2
      exact (List.cons.inj lasts).1.symm
    have isBlank := blank c (by simp)
    rw [isParenthesis, whiteSpace_of_isVisible (by decide)] at isBlank
    cases isBlank

/-- Whether a clause in parentheses is read whatever follows, with some fuel at least. -/
def Clause.ReadsWith (least : Nat) (clause : Clause) : Prop :=
  ∀ fuel, least ≤ fuel → ∀ more,
    Reads (readTest fuel) clause.enclosed.toList clause.condition more

/-- What is read as a filter of its own is read in parentheses in front of any text. -/
theorem Clause.IsRead.readsWith {clause : Clause} (isRead : clause.IsRead) :
    clause.ReadsWith (8 * clause.text.toList.length + 63) := by
  obtain ⟨path, parsed, single⟩ := isRead
  obtain ⟨chars, asksSize, last, whole, read, atEnd⟩ := readSegments_of_parse parsed
  have isText : chars = '[' :: '?' :: '(' :: (clause.text.toList ++ [')', ']']) := by
    have text : ("$[?(" ++ clause.text ++ ")]").toList =
        '$' :: '[' :: '?' :: '(' :: (clause.text.toList ++ [')', ']']) := by
      rw [String.toList_append, String.toList_append]
      rfl
    rw [text] at whole
    exact (List.cons.inj whole).2.symm
  have enough : enoughFuel (chars.length + 1) = 8 * clause.text.toList.length + 62 + 1 + 1 := by
    rw [isText, enoughFuel]
    simp only [List.length_cons, List.length_append, List.length_nil]
    omega
  rw [enough, single, isText] at read
  obtain ⟨behind, isBracket, isLast⟩ := readBracket_of_readSegments read atEnd
  obtain ⟨condition, closed, start, same, isCondition, met⟩ := condition_of_readBracket isBracket
  cases same
  intro fuel least more position
  obtain ⟨fuel, rfl⟩ : ∃ fewer, fuel = fewer + 1 := ⟨fuel - 1, by omega⟩
  have ahead := (readersLookAhead_of_le (Nat.le_of_succ_le_succ least)).either.parenthesized
  obtain ⟨front, split, goesOn⟩ := ahead _ _ _ isCondition
  obtain ⟨blanks, ending, blank, -⟩ := expect_alike met
  rw [ending, isLast] at split
  have isFront := eq_of_blanks split blank
  obtain ⟨final, isConditionToo⟩ := goesOn more trivial (position + '('.utf8Size)
  refine ⟨final, ?_⟩
  rw [toList_enclosed, readTest_succ, List.cons_append]
  dsimp only
  rw [skipBlanks_visible (by decide), eat?_self, ← isFront]
  exact isConditionToo

/-! ## Connected clauses -/

/-- Puts a condition behind those that stand in front of the last `||`. -/
def putBehind : Option Condition → Condition → Condition
  | none, left => left
  | some earlier, left => .either earlier left

/-- The condition of connected clauses: `earlier` is read in front of the last `||`, `left` behind
it. -/
def joined (earlier : Option Condition) (left : Condition) :
    List (Connective × Clause) → Condition
  | [] => putBehind earlier left
  | (.both, next) :: rest => joined earlier (.both left next.condition) rest
  | (.either, next) :: rest => joined (some (putBehind earlier left)) next.condition rest

/-- Reads on behind a condition that stands behind the last `||`. -/
def readOn (fuelBoth fuelEither : Nat) (earlier : Option Condition) (left : Condition)
    (cursor : Cursor) : Except PathProblem (Condition × Cursor) :=
  readMoreBoth fuelBoth left cursor >>= fun result =>
    readMoreEither fuelEither (putBehind earlier result.1) result.2

theorem readOn_both {position : Nat} {rest : List Char} (fuelBoth fuelEither : Nat)
    (earlier : Option Condition) (left : Condition) :
    readOn (fuelBoth + 1) fuelEither earlier left ⟨position, ' ' :: '&' :: '&' :: rest⟩ =
      readTest fuelBoth ⟨position + ' '.utf8Size + '&'.utf8Size + '&'.utf8Size, rest⟩ >>=
        fun result => readOn fuelBoth fuelEither earlier (.both left result.1) result.2 := by
  have sign : readMoreBoth (fuelBoth + 1) left ⟨position, ' ' :: '&' :: '&' :: rest⟩ =
      readTest fuelBoth ⟨position + ' '.utf8Size + '&'.utf8Size + '&'.utf8Size, rest⟩ >>=
        fun result => readMoreBoth fuelBoth (.both left result.1) result.2 := by
    rw [readMoreBoth_succ]
    dsimp only
    rw [skipBlanks_blank (by decide)]
    rfl
  rw [readOn, sign, bind_assoc]
  rfl

/-- What is read between two `||` ends in front of the second one. -/
theorem readOn_either {position : Nat} {rest : List Char} (fuelBoth fuelEither : Nat)
    (earlier : Option Condition) (left : Condition) :
    readOn (fuelBoth + 1) (fuelEither + 2) earlier left ⟨position, ' ' :: '|' :: '|' :: rest⟩ =
      readTest fuelEither ⟨position + ' '.utf8Size + '|'.utf8Size + '|'.utf8Size, rest⟩ >>=
        fun result => readOn fuelEither (fuelEither + 1) (some (putBehind earlier left)) result.1
          result.2 := by
  have ends : readMoreBoth (fuelBoth + 1) left ⟨position, ' ' :: '|' :: '|' :: rest⟩ =
      .ok (left, ⟨position + ' '.utf8Size, '|' :: '|' :: rest⟩) := by
    rw [readMoreBoth_succ]
    dsimp only
    rw [skipBlanks_blank (by decide)]
    rfl
  have sign : readMoreEither (fuelEither + 1 + 1) (putBehind earlier left)
        ⟨position + ' '.utf8Size, '|' :: '|' :: rest⟩ =
      readBoth (fuelEither + 1) ⟨position + ' '.utf8Size + '|'.utf8Size + '|'.utf8Size, rest⟩ >>=
        fun result => readMoreEither (fuelEither + 1)
          (putBehind (some (putBehind earlier left)) result.1) result.2 := by
    rw [readMoreEither_succ]
    dsimp only
    rw [skipBlanks_visible (by decide)]
    rfl
  rw [readOn, ends]
  refine sign.trans ?_
  rw [readBoth_succ, bind_assoc]
  rfl

theorem readOn_parenthesis {position : Nat} {rest : List Char} (fuelBoth fuelEither : Nat)
    (earlier : Option Condition) (left : Condition) :
    readOn (fuelBoth + 1) (fuelEither + 1) earlier left ⟨position, ')' :: rest⟩ =
      .ok (putBehind earlier left, ⟨position, ')' :: rest⟩) := by
  have ends : readMoreBoth (fuelBoth + 1) left ⟨position, ')' :: rest⟩ =
      .ok (left, ⟨position, ')' :: rest⟩) := by
    rw [readMoreBoth_succ]
    dsimp only
    rw [skipBlanks_visible (by decide)]
    rfl
  have endsToo : readMoreEither (fuelEither + 1) (putBehind earlier left)
        ⟨position, ')' :: rest⟩ =
      .ok (putBehind earlier left, ⟨position, ')' :: rest⟩) := by
    rw [readMoreEither_succ]
    dsimp only
    rw [skipBlanks_visible (by decide)]
    rfl
  rw [readOn, ends]
  exact endsToo

/-- A blank in front of a condition changes nothing. -/
theorem readTest_blank {position : Nat} {c : Char} (visible : isVisible c = true)
    {rest : List Char} (fuel : Nat) :
    readTest (fuel + 1) ⟨position, ' ' :: c :: rest⟩ =
      readTest (fuel + 1) ⟨position + ' '.utf8Size, c :: rest⟩ := by
  rw [readTest_succ]
  dsimp only
  rw [skipBlanks_blank visible, skipBlanks_visible visible]

theorem Clause.ReadsWith.behindBlank {least fuel : Nat} {clause : Clause}
    (reads : clause.ReadsWith least) (enough : least ≤ fuel) (positive : 0 < fuel)
    (more : List Char) :
    Reads (readTest fuel) (' ' :: clause.enclosed.toList) clause.condition more := by
  intro position
  obtain ⟨fuel, rfl⟩ : ∃ fewer, fuel = fewer + 1 := ⟨fuel - 1, by omega⟩
  obtain ⟨behind, read⟩ := reads (fuel + 1) enough more (position + ' '.utf8Size)
  refine ⟨behind, ?_⟩
  rw [clause.toList_enclosed] at read ⊢
  rw [List.cons_append, List.cons_append, readTest_blank (by decide)]
  exact read

/-- Connected clauses are read up to a closing parenthesis. -/
theorem reads_connected {least : Nat} {rest : List (Connective × Clause)}
    (reads : ∀ next ∈ rest, next.2.ReadsWith least) {fuelBoth fuelEither : Nat}
    (enoughBoth : least + rest.length + 1 ≤ fuelBoth)
    (enoughEither : least + rest.length + 2 ≤ fuelEither) (earlier : Option Condition)
    (left : Condition) (more : List Char) :
    Reads (readOn fuelBoth fuelEither earlier left) (tailChars rest) (joined earlier left rest)
      (')' :: more) := by
  induction rest generalizing fuelBoth fuelEither earlier left with
  | nil =>
      intro position
      obtain ⟨fuelBoth, rfl⟩ : ∃ fewer, fuelBoth = fewer + 1 := ⟨fuelBoth - 1, by omega⟩
      obtain ⟨fuelEither, rfl⟩ : ∃ fewer, fuelEither = fewer + 1 := ⟨fuelEither - 1, by omega⟩
      exact ⟨position, readOn_parenthesis fuelBoth fuelEither earlier left⟩
  | cons next rest inductionHypothesis =>
      obtain ⟨connective, clause⟩ := next
      rw [List.length_cons] at enoughBoth enoughEither
      obtain ⟨fuelBoth, rfl⟩ : ∃ fewer, fuelBoth = fewer + 1 := ⟨fuelBoth - 1, by omega⟩
      obtain ⟨fuelEither, rfl⟩ : ∃ fewer, fuelEither = fewer + 2 := ⟨fuelEither - 2, by omega⟩
      have own : clause.ReadsWith least := reads (connective, clause) List.mem_cons_self
      have later : ∀ next ∈ rest, next.2.ReadsWith least :=
        fun next member => reads next (List.mem_cons_of_mem _ member)
      intro position
      cases connective with
      | both =>
          have chars : tailChars ((.both, clause) :: rest) ++ ')' :: more =
              ' ' :: '&' :: '&' :: (' ' :: clause.enclosed.toList ++
                (tailChars rest ++ ')' :: more)) := by
            simp [tailChars, Connective.sign]
          have enough : least + rest.length + 1 ≤ fuelBoth := by omega
          have enoughToo : least + rest.length + 2 ≤ fuelEither + 2 := by omega
          obtain ⟨middle, isClause⟩ := own.behindBlank (by omega : least ≤ fuelBoth) (by omega)
            (tailChars rest ++ ')' :: more) (position + ' '.utf8Size + '&'.utf8Size + '&'.utf8Size)
          obtain ⟨behind, isRest⟩ := inductionHypothesis later enough enoughToo earlier
            (.both left clause.condition) middle
          refine ⟨behind, ?_⟩
          rw [chars, readOn_both, isClause]
          exact isRest
      | either =>
          have chars : tailChars ((.either, clause) :: rest) ++ ')' :: more =
              ' ' :: '|' :: '|' :: (' ' :: clause.enclosed.toList ++
                (tailChars rest ++ ')' :: more)) := by
            simp [tailChars, Connective.sign]
          have enough : least + rest.length + 1 ≤ fuelEither := by omega
          have enoughToo : least + rest.length + 2 ≤ fuelEither + 1 := by omega
          obtain ⟨middle, isClause⟩ := own.behindBlank (by omega : least ≤ fuelEither) (by omega)
            (tailChars rest ++ ')' :: more) (position + ' '.utf8Size + '|'.utf8Size + '|'.utf8Size)
          obtain ⟨behind, isRest⟩ := inductionHypothesis later enough enoughToo
            (some (putBehind earlier left)) clause.condition middle
          refine ⟨behind, ?_⟩
          rw [chars, readOn_either, isClause]
          exact isRest

theorem readEither_connected {least fuel : Nat} {first : Clause}
    {rest : List (Connective × Clause)} (readsFirst : first.ReadsWith least)
    (reads : ∀ next ∈ rest, next.2.ReadsWith least) (enough : least + rest.length ≤ fuel)
    (more : List Char) :
    Reads (readEither (fuel + 3)) (connected first rest).toList (joined none first.condition rest)
      (')' :: more) := by
  intro position
  obtain ⟨middle, isFirst⟩ :=
    readsFirst (fuel + 1) (by omega) (tailChars rest ++ ')' :: more) position
  have enoughBoth : least + rest.length + 1 ≤ fuel + 1 := by omega
  have enoughEither : least + rest.length + 2 ≤ fuel + 2 := by omega
  obtain ⟨behind, isRest⟩ := reads_connected reads enoughBoth enoughEither none first.condition
    more middle
  refine ⟨behind, ?_⟩
  rw [toList_connected, List.append_assoc, readEither_succ, readBoth_succ]
  dsimp only
  rw [bind_assoc, isFirst]
  exact isRest

/-- Every clause is shorter than the connected ones, by more than their number. -/
theorem length_le_tailChars {rest : List (Connective × Clause)} :
    6 * rest.length ≤ (tailChars rest).length ∧
      ∀ next ∈ rest, next.2.text.toList.length + 6 * rest.length ≤ (tailChars rest).length := by
  induction rest with
  | nil => simp
  | cons first rest inductionHypothesis =>
      obtain ⟨all, each⟩ := inductionHypothesis
      have sign : first.1.sign.toList.length = 2 := by
        cases first.1 with
        | both => rfl
        | either => rfl
      have length : (tailChars (first :: rest)).length =
          first.2.text.toList.length + 6 + (tailChars rest).length := by
        rw [tailChars, List.flatMap_cons, ← tailChars, Clause.toList_enclosed]
        simp only [List.length_append, List.length_cons, List.length_nil, sign]
        omega
      rw [length, List.length_cons]
      refine ⟨by omega, ?_⟩
      intro next member
      rcases List.mem_cons.mp member with rfl | member
      · omega
      · have := each next member
        omega

/-! ## What connected clauses mean -/

/-- Connected clauses hold if what stands in front of the last `||` does, or all clauses of a group
behind it. -/
theorem holds_joined {document value : Json} {rest : List (Connective × Clause)}
    {earlier : Option Condition} {left : Condition} {group : List Clause}
    (same : holds document left value = true ↔
      ∀ clause ∈ group, holds document clause.condition value = true) :
    holds document (joined earlier left rest) value = true ↔
      (∃ condition ∈ earlier, holds document condition value = true) ∨
        ∃ found ∈ groups group rest, ∀ clause ∈ found,
          holds document clause.condition value = true := by
  induction rest generalizing earlier left group with
  | nil =>
      rw [joined, groups]
      cases earlier with
      | none => simp [putBehind, same]
      | some earlier => simp [putBehind, holds, same]
  | cons next rest inductionHypothesis =>
      obtain ⟨connective, clause⟩ := next
      cases connective with
      | both =>
          rw [joined, groups]
          apply inductionHypothesis
          rw [holds, Bool.and_eq_true, same, List.forall_mem_append, List.forall_mem_singleton]
      | either =>
          have fresh : holds document clause.condition value = true ↔
              ∀ member ∈ [clause], holds document member.condition value = true := by simp
          rw [joined, groups, inductionHypothesis fresh, List.exists_mem_cons_iff, ← same]
          cases earlier with
          | none => simp [putBehind]
          | some earlier => simp [putBehind, holds, or_assoc]

/-- Clauses that are read as filters of their own are read in parentheses with connectives in
between, as one filter.  It holds exactly if between some two `||` all clauses hold. -/
theorem parse_connected {first : Clause} {rest : List (Connective × Clause)}
    (isRead : first.IsRead) (areRead : ∀ next ∈ rest, next.2.IsRead) :
    ∃ path condition, parse ("$[?(" ++ connected first rest ++ ")]") = .ok path ∧
      path.segments = [.filter condition] ∧ ∀ document value,
        holds document condition value = true ↔
          ∃ group ∈ groups [first] rest, ∀ clause ∈ group,
            holds document clause.condition value = true := by
  obtain ⟨all, each⟩ := @length_le_tailChars rest
  have whole : (connected first rest).toList.length =
      first.text.toList.length + 2 + (tailChars rest).length := by
    rw [toList_connected, first.toList_enclosed]
    simp only [List.length_append, List.length_cons, List.length_nil]
  have readsFirst : first.ReadsWith
      (8 * (connected first rest).toList.length + 59 - rest.length) := by
    intro fuel enough
    exact isRead.readsWith fuel (by omega)
  have reads : ∀ next ∈ rest, next.2.ReadsWith
      (8 * (connected first rest).toList.length + 59 - rest.length) := by
    intro next member fuel enough
    have short := each next member
    exact (areRead next member).readsWith fuel (by omega)
  have enough : 8 * (connected first rest).toList.length + 59 - rest.length + rest.length ≤
      8 * (connected first rest).toList.length + 59 := by omega
  obtain ⟨behind, either⟩ := readEither_connected readsFirst reads enough [']']
    ('$'.utf8Size + '['.utf8Size + '?'.utf8Size + '('.utf8Size)
  have bracket := readSegments_bracket false (readBracket_of_readEither either)
  rw [readSegments_end (stopsAt_nil _), putFront_ok] at bracket
  have chars : ("$[?(" ++ connected first rest ++ ")]").toList =
      '$' :: '[' :: '?' :: '(' :: ((connected first rest).toList ++ [')', ']']) := by
    rw [String.toList_append, String.toList_append]
    rfl
  have fuels : enoughFuel (('[' :: '?' :: '(' ::
      ((connected first rest).toList ++ [')', ']'])).length + 1) =
        8 * (connected first rest).toList.length + 59 + 3 + 2 := by
    rw [enoughFuel]
    simp only [List.length_append, List.length_cons, List.length_nil]
    omega
  rw [← fuels] at bracket
  refine ⟨_, _, readSegmentsOf_root chars bracket, rfl, ?_⟩
  intro document value
  have own : holds document first.condition value = true ↔
      ∀ clause ∈ [first], holds document clause.condition value = true := by simp
  rw [holds_joined own]
  simp

/-- The clause that what hops lead to equals a value. -/
def Clause.ofEqual (inside : List Hop) (value : Json) : Clause :=
  ⟨"@" ++ Hop.textOf inside ++ " == " ++ value.filterLiteral, Path.condition inside value⟩

theorem Clause.isRead_ofEqual {inside : List Hop}
    (readable : ∀ hop ∈ inside, hop.isReadable = true) {value : Json}
    (literal : LiteralReads value value) : (ofEqual inside value).IsRead := by
  have text : "$[?(" ++ (ofEqual inside value).text ++ ")]" =
      pathText [] ++ conditionText inside value := by
    rw [ofEqual, pathText, conditionText, Hop.textOf_nil, ← String.toList_inj]
    simp
  rw [IsRead, text]
  exact ⟨_, parse_hops_condition (by simp) readable literal, rfl⟩

theorem three_connected :
    ∃ path condition,
      parse "$[?((@.['a'] == 1) && (@.['b'] == true) || (@.['c'] == ')'))]" = .ok path ∧
        path.segments = [.filter condition] ∧ ∀ document value,
          holds document condition value = true ↔
            (holds document (Path.condition [.member "a"] (.int 1)) value = true ∧
              holds document (Path.condition [.member "b"] (.bool true)) value = true) ∨
                holds document (Path.condition [.member "c"] (.string ")")) value = true := by
  have first : (Clause.ofEqual [.member "a"] (.int 1)).IsRead :=
    Clause.isRead_ofEqual (by decide) (literalReads_int (by decide))
  have second : (Clause.ofEqual [.member "b"] (.bool true)).IsRead :=
    Clause.isRead_ofEqual (by decide) (.bool true)
  have third : (Clause.ofEqual [.member "c"] (.string ")")).IsRead :=
    Clause.isRead_ofEqual (by decide) (.string ")")
  have rest : ∀ next ∈ [(Connective.both, Clause.ofEqual [.member "b"] (.bool true)),
      (Connective.either, Clause.ofEqual [.member "c"] (.string ")"))], next.2.IsRead := by
    rw [List.forall_mem_cons, List.forall_mem_singleton]
    exact ⟨second, third⟩
  obtain ⟨path, condition, parsed, single, meaning⟩ := parse_connected first rest
  have text : "$[?((@.['a'] == 1) && (@.['b'] == true) || (@.['c'] == ')'))]" =
      "$[?(" ++ connected (Clause.ofEqual [.member "a"] (.int 1))
        [(Connective.both, Clause.ofEqual [.member "b"] (.bool true)),
          (Connective.either, Clause.ofEqual [.member "c"] (.string ")"))] ++ ")]" := by
    decide +kernel
  rw [← text] at parsed
  refine ⟨path, condition, parsed, single, ?_⟩
  intro document value
  rw [meaning]
  simp [groups, Clause.ofEqual]

end Path

end BodyContract
