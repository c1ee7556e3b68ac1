import BodyContract.Proofs.Pattern.Expansion

/-!
# Expressions in front of more text

What has been read of an expression up to the end of a text is read in the same
way where a bar or a closing parenthesis follows, wherever the text begins and
with more fuel.  The readers look at the next character only, but for the one
that tells a range from a hyphen at the end of a class, and a class is closed.
-/

namespace BodyContract

namespace Pattern

variable {α β : Type} {more : List Char}

/-- Whether what a reader has read of a text is read by a wider one in front of
more text, wherever the text begins.  No reader puts characters back. -/
def ReadsBefore (more : List Char) (reader wider : Cursor → Except PatternError (α × Cursor)) :
    Prop :=
  ∀ start value last, reader start = .ok (value, last) →
    last.rest.length ≤ start.rest.length ∧ ∀ position : Nat, ∃ behind : Nat,
      wider ⟨position, start.rest ++ more⟩ = .ok (value, ⟨behind, last.rest ++ more⟩)

theorem ReadsBefore.bind {first firstWider : Cursor → Except PatternError (α × Cursor)}
    {second secondWider : α → Cursor → Except PatternError (β × Cursor)}
    (reads : ReadsBefore more first firstWider)
    (later : ∀ value, ReadsBefore more (second value) (secondWider value)) :
    ReadsBefore more (fun cursor => first cursor >>= fun result => second result.1 result.2)
      (fun cursor => firstWider cursor >>= fun result => secondWider result.1 result.2) := by
  intro start value last read
  obtain ⟨⟨found, between⟩, isFirst, isSecond⟩ := bind_eq_ok_iff.mp read
  obtain ⟨shorter, goesOn⟩ := reads start found between isFirst
  obtain ⟨shorterToo, ends⟩ := later found between value last isSecond
  refine ⟨Nat.le_trans shorterToo shorter, ?_⟩
  intro position
  obtain ⟨next, same⟩ := goesOn position
  obtain ⟨final, sameToo⟩ := ends next
  exact ⟨final, bind_eq_ok_iff.mpr ⟨_, same, sameToo⟩⟩

theorem readsBefore_ok (value : α) :
    ReadsBefore more (fun cursor => .ok (value, cursor)) (fun cursor => .ok (value, cursor)) := by
  intro start other last read
  cases read
  exact ⟨Nat.le_refl _, fun position => ⟨position, rfl⟩⟩

/-- A reader that goes on behind a first character goes on so in front of more text.
Where its text begins may be told in its errors. -/
theorem ReadsBefore.behindFirst {reader : Cursor → Except PatternError (α × Cursor)}
    {wider : Nat → Cursor → Except PatternError (α × Cursor)}
    (reads : ∀ position, ReadsBefore more reader (wider position)) {c : Char} {place : Nat}
    {tail : List Char} {value : α} {last : Cursor}
    (read : reader ⟨place + c.utf8Size, tail⟩ = .ok (value, last))
    {whole : Nat → Except PatternError (α × Cursor)}
    (goesOn : ∀ position, whole position = wider position ⟨position + c.utf8Size, tail ++ more⟩) :
    last.rest.length ≤ (c :: tail).length ∧ ∀ position : Nat, ∃ behind : Nat,
      whole position = .ok (value, ⟨behind, last.rest ++ more⟩) := by
  refine ⟨Nat.le_succ_of_le (reads 0 _ value last read).1, ?_⟩
  intro position
  rw [goesOn]
  exact (reads position _ value last read).2 (position + c.utf8Size)

/-- A character that does not begin the further text comes next as it did without it. -/
theorem eat?_before {c : Char} (notNext : more.head? ≠ some c) (position : Nat) (cursor : Cursor) :
    (Cursor.mk position (cursor.rest ++ more)).eat? c =
      (cursor.eat? c).map fun behind => ⟨position + c.utf8Size, behind.rest ++ more⟩ := by
  obtain ⟨place, rest⟩ := cursor
  cases rest with
  | nil => simp [Cursor.eat?, Cursor.peek?, notNext]
  | cons first others =>
      by_cases same : first = c
      · simp [Cursor.eat?, Cursor.peek?, Cursor.skip, same]
      · simp [Cursor.eat?, Cursor.peek?, same]

/-! ## Counts and operators -/

/-- What digits, or none, stand for where a count is read. -/
def IsCount (digits : List Char) (count : Option Nat) : Prop :=
  (digits = [] ∧ count = none) ∨
    (digits ≠ [] ∧ Numeral.value digits ≤ countLimit ∧ count = some (Numeral.value digits))

theorem readCount_eq_ok_iff {start behind last : Cursor} {digits : List Char} {count : Option Nat}
    (spanned : start.span Char.isDigit = (digits, behind)) :
    readCount start = .ok (count, last) ↔ IsCount digits count ∧ last = behind := by
  have value : digits.foldl (fun total digit => total * 10 + (digit.toNat - '0'.toNat)) 0 =
      Numeral.value digits := rfl
  rw [readCount, IsCount]
  simp only [spanned, value]
  cases digits with
  | nil =>
      constructor
      · intro read
        cases read
        exact ⟨Or.inl ⟨rfl, rfl⟩, rfl⟩
      · rintro ⟨⟨-, rfl⟩ | ⟨filled, -⟩, rfl⟩
        · rfl
        · exact absurd rfl filled
  | cons digit others =>
      rw [List.isEmpty_cons, if_neg Bool.false_ne_true]
      by_cases large : countLimit < Numeral.value (digit :: others)
      · rw [if_pos large]
        constructor
        · intro impossible
          cases impossible
        · rintro ⟨⟨empty, -⟩ | ⟨-, small, -⟩, -⟩
          · cases empty
          · exact absurd large (Nat.not_lt.mpr small)
      · rw [if_neg large]
        constructor
        · intro read
          cases read
          exact ⟨Or.inr ⟨List.cons_ne_nil _ _, Nat.not_lt.mp large, rfl⟩, rfl⟩
        · rintro ⟨⟨empty, -⟩ | ⟨-, -, rfl⟩, rfl⟩
          · cases empty
          · rfl

theorem readsBefore_readCount (stops : StopsAt Char.isDigit more) :
    ReadsBefore more readCount readCount := by
  intro start count last read
  cases spanned : start.span Char.isDigit with
  | mk digits behind =>
      obtain ⟨isCount, rfl⟩ := (readCount_eq_ok_iff spanned).mp read
      obtain ⟨same, areDigits, stopsHere⟩ := Cursor.rest_of_span spanned
      have stopsMore : StopsAt Char.isDigit (last.rest ++ more) := by
        cases rest : last.rest with
        | nil => exact stops
        | cons c others =>
            rw [rest] at stopsHere
            exact stopsAt_cons (stopsHere c rfl) _
      constructor
      · rw [same, List.length_append]
        omega
      · intro position
        rw [same, List.append_assoc]
        obtain ⟨next, spansMore⟩ := Cursor.span_append position areDigits stopsMore
        exact ⟨next, (readCount_eq_ok_iff spansMore).mpr ⟨isCount, rfl⟩⟩

/-- Reads an operator as the counts that it stands for. -/
def readOperator (cursor : Cursor) : Except PatternError ((Nat × Option Nat) × Cursor) :=
  match cursor.peek? with
  | some '*' => .ok ((0, none), cursor.skip)
  | some '+' => .ok ((1, none), cursor.skip)
  | some '?' => .ok ((0, some 1), cursor.skip)
  | _ => readCounts cursor

theorem readRepetitions_operator {cursor : Cursor} (operator : opensOperator cursor.rest = true)
    (fuel : Nat) (body : Pattern) :
    readRepetitions (fuel + 1) body cursor = (do
      let ((least, most), behind) ← readOperator cursor
      readRepetitions fuel (.repeated body least most) behind) := by
  obtain ⟨place, rest⟩ := cursor
  cases rest with
  | nil => cases operator
  | cons c tail =>
      have isOne : ((c = '*' ∨ c = '+') ∨ c = '?') ∨ c = '\x7b' := by
        simpa [opensOperator, isOperator] using operator
      rcases isOne with ((rfl | rfl) | rfl) | rfl <;> rfl

/-- What follows an item or a whole sequence: nothing, a bar or a closing parenthesis. -/
theorem ne_of_ended (ended : more.head?.all endsSequence = true) {c : Char}
    (within : endsSequence c = false) : more.head? ≠ some c := by
  intro isNext
  rw [isNext, Option.all_some, within] at ended
  cases ended

theorem stopsAt_of_ended (ended : more.head?.all endsSequence = true) :
    StopsAt Char.isDigit more := by
  intro c isNext
  rw [isNext, Option.all_some, endsSequence, Bool.or_eq_true, beq_iff_eq, beq_iff_eq] at ended
  rcases ended with rfl | rfl <;> decide

theorem readsBefore_readMost (ended : more.head?.all endsSequence = true) (least : Nat) :
    ReadsBefore more (readMost least) (readMost least) := by
  intro start most last read
  have eaten := fun position =>
    eat?_before (ne_of_ended ended (c := ',') (by decide)) position start
  rw [readMost] at read
  cases comma : start.eat? ',' with
  | none =>
      simp only [comma] at read eaten
      cases read
      refine ⟨Nat.le_refl _, ?_⟩
      intro position
      refine ⟨position, ?_⟩
      rw [readMost, eaten]
      rfl
  | some behind =>
      simp only [comma] at read eaten
      obtain ⟨shorter, goesOn⟩ :=
        readsBefore_readCount (stopsAt_of_ended ended) behind most last read
      constructor
      · rw [Path.rest_of_eat? comma, List.length_cons]
        omega
      · intro position
        obtain ⟨next, same⟩ := goesOn (position + ','.utf8Size)
        refine ⟨next, ?_⟩
        rw [readMost, eaten]
        exact same

theorem readsBefore_closeCounts (ended : more.head?.all endsSequence = true)
    (start begin least : Nat) (most : Option Nat) :
    ReadsBefore more (closeCounts start least most) (closeCounts begin least most) := by
  intro cursor value last read
  rw [closeCounts_eq_ok_iff] at read
  obtain ⟨brace, isValue, areCounts⟩ := read
  constructor
  · rw [Path.rest_of_eat? brace, List.length_cons]
    exact Nat.le_succ _
  · intro position
    refine ⟨position + '\x7d'.utf8Size, ?_⟩
    rw [closeCounts_eq_ok_iff, eat?_before (ne_of_ended ended (by decide)), brace]
    exact ⟨rfl, isValue, areCounts⟩

theorem readsBefore_readOperator (ended : more.head?.all endsSequence = true) {start last : Cursor}
    (operator : opensOperator start.rest = true) {counts : Nat × Option Nat}
    (read : readOperator start = .ok (counts, last)) :
    last.rest.length ≤ start.rest.length ∧ ∀ position : Nat, ∃ behind : Nat,
      readOperator ⟨position, start.rest ++ more⟩ =
        .ok (counts, ⟨behind, last.rest ++ more⟩) := by
  obtain ⟨place, rest⟩ := start
  cases rest with
  | nil => cases operator
  | cons c tail =>
      have isOne : ((c = '*' ∨ c = '+') ∨ c = '?') ∨ c = '\x7b' := by
        simpa [opensOperator, isOperator] using operator
      rcases isOne with ((rfl | rfl) | rfl) | rfl
      · cases read
        exact ⟨Nat.le_succ _, fun position => ⟨position + '*'.utf8Size, rfl⟩⟩
      · cases read
        exact ⟨Nat.le_succ _, fun position => ⟨position + '+'.utf8Size, rfl⟩⟩
      · cases read
        exact ⟨Nat.le_succ _, fun position => ⟨position + '?'.utf8Size, rfl⟩⟩
      · have braces : ∀ begin others, readOperator ⟨begin, '\x7b' :: others⟩ =
            readCounts ⟨begin, '\x7b' :: others⟩ := fun _ _ => rfl
        rw [braces, readCounts_eq] at read
        obtain ⟨⟨least?, behindLeast⟩, isLeast, afterLeast⟩ := bind_eq_ok_iff.mp read
        obtain ⟨shorter, goesOn⟩ :=
          ReadsBefore.behindFirst (fun _ => readsBefore_readCount (stopsAt_of_ended ended)) isLeast
            fun _ => rfl
        cases least? with
        | none => cases afterLeast
        | some least =>
            have ends := fun begin => ((readsBefore_readMost ended least).bind fun most =>
              readsBefore_closeCounts ended place begin least most) _ counts last afterLeast
            refine ⟨Nat.le_trans (ends 0).1 shorter, ?_⟩
            intro position
            obtain ⟨middle, same⟩ := goesOn position
            obtain ⟨next, sameToo⟩ := (ends position).2 middle
            refine ⟨next, ?_⟩
            rw [List.cons_append, braces, readCounts_eq, bind_eq_ok_iff]
            exact ⟨_, same, sameToo⟩

theorem opensOperator_before (ended : more.head?.all endsSequence = true) {rest : List Char}
    (noOperator : opensOperator rest = false) : opensOperator (rest ++ more) = false := by
  cases rest with
  | cons c others => exact noOperator
  | nil =>
      cases more with
      | nil => rfl
      | cons c others =>
          have isEnd : c = '|' ∨ c = ')' := by simpa [endsSequence] using ended
          rcases isEnd with rfl | rfl <;> rfl

/-- Repetitions that are read to the end are read in front of more text. -/
theorem readRepetitions_before (ended : more.head?.all endsSequence = true) {fuel : Nat}
    (spare : Nat) {body item : Pattern} {start last : Cursor}
    (read : readRepetitions fuel body start = .ok (item, last))
    (noOperator : opensOperator last.rest = false) :
    last.rest.length ≤ start.rest.length ∧ ∀ position : Nat, ∃ behind : Nat,
      readRepetitions (fuel + spare) body ⟨position, start.rest ++ more⟩ =
        .ok (item, ⟨behind, last.rest ++ more⟩) := by
  have finished : ∀ (amount : Nat) (body : Pattern) (start : Cursor),
      opensOperator start.rest = false → readRepetitions amount body start = .ok (item, last) →
        last.rest.length ≤ start.rest.length ∧ ∀ position : Nat, ∃ behind : Nat,
          readRepetitions (amount + spare) body ⟨position, start.rest ++ more⟩ =
            .ok (item, ⟨behind, last.rest ++ more⟩) := by
    intro amount body start noneHere read
    rw [readRepetitions_other _ _ _ noneHere] at read
    cases read
    exact ⟨Nat.le_refl _, fun position => ⟨position, readRepetitions_other _ _ _
      (opensOperator_before ended noneHere)⟩⟩
  induction fuel generalizing body start with
  | zero =>
      have isLast : last = start := by
        rw [readRepetitions] at read
        cases read
        rfl
      rw [isLast] at noOperator
      exact finished 0 body start noOperator read
  | succ fuel inductionHypothesis =>
      cases operator : opensOperator start.rest with
      | false => exact finished (fuel + 1) body start operator read
      | true =>
          rw [readRepetitions_operator operator] at read
          obtain ⟨⟨⟨least, most⟩, between⟩, isOperator, isLater⟩ := bind_eq_ok_iff.mp read
          obtain ⟨shorter, goesOn⟩ := readsBefore_readOperator ended operator isOperator
          obtain ⟨shorterToo, ends⟩ := inductionHypothesis isLater
          refine ⟨Nat.le_trans shorterToo shorter, ?_⟩
          intro position
          obtain ⟨middle, same⟩ := goesOn position
          obtain ⟨next, sameToo⟩ := ends middle
          refine ⟨next, ?_⟩
          have opens : opensOperator (start.rest ++ more) = true := by
            cases rest : start.rest with
            | nil =>
                rw [rest] at operator
                cases operator
            | cons c others =>
                rw [rest] at operator
                exact operator
          rw [Nat.add_right_comm, readRepetitions_operator opens, bind_eq_ok_iff]
          exact ⟨_, same, sameToo⟩

/-! ## Quoted texts and classes -/

theorem readQuotedAux_before {start place : Nat} {text : List Char} {items : List Pattern}
    {value : Pattern} {last : Cursor}
    (read : readQuotedAux start place text items = .ok (value, last)) (begin : Nat) :
    last.rest.length ≤ text.length ∧ ∀ position : Nat, ∃ behind : Nat,
      readQuotedAux begin position (text ++ more) items =
        .ok (value, ⟨behind, last.rest ++ more⟩) := by
  induction text generalizing place items with
  | nil => cases read
  | cons c rest inductionHypothesis =>
      rw [readQuotedAux] at read
      by_cases closes : c = '"'
      · rw [if_pos closes] at read
        cases read
        refine ⟨Nat.le_succ _, ?_⟩
        intro position
        refine ⟨position + c.utf8Size, ?_⟩
        rw [List.cons_append, readQuotedAux, if_pos closes]
      · rw [if_neg closes] at read
        obtain ⟨shorter, goesOn⟩ := inductionHypothesis read
        refine ⟨Nat.le_succ_of_le shorter, ?_⟩
        intro position
        obtain ⟨behind, same⟩ := goesOn (position + c.utf8Size)
        refine ⟨behind, ?_⟩
        rw [List.cons_append, readQuotedAux, if_neg closes]
        exact same

theorem readsBefore_readEscape (start begin : Nat) :
    ReadsBefore more (readEscape start) (readEscape begin) := by
  rintro ⟨place, rest⟩ set last read
  cases rest with
  | nil => cases read
  | cons c tail =>
      obtain ⟨-, same, escapes⟩ := readEscape_kept read
      rw [same]
      exact ⟨Nat.le_succ _, fun position => escapes position (tail ++ more) begin⟩

/-- The upper end of a range that is given by an escape. -/
def endRange (position : Nat) (set : CharSet) (cursor : Cursor) :
    Except PatternError (Char × Cursor) :=
  match set.only? with
  | none => .error (.malformed position .invalidRangeEnd)
  | some high => .ok (high, cursor)

theorem readsBefore_readRangeEnd : ReadsBefore more readRangeEnd readRangeEnd := by
  rintro ⟨place, rest⟩ high last read
  cases rest with
  | nil => cases read
  | cons c tail =>
      by_cases escape : c = '\\'
      · subst escape
        have escapes : ∀ position others, readRangeEnd ⟨position, '\\' :: others⟩ =
            (readEscape position ⟨position + '\\'.utf8Size, others⟩ >>= fun result =>
              endRange position result.1 result.2) := fun _ _ => rfl
        have ends : ∀ position set,
            ReadsBefore more (endRange place set) (endRange position set) := by
          intro position set
          unfold endRange
          cases set.only? with
          | none =>
              intro start value last impossible
              cases impossible
          | some high => exact readsBefore_ok high
        rw [escapes] at read
        exact ReadsBefore.behindFirst
          (fun position => (readsBefore_readEscape place position).bind (ends position)) read
          fun position => escapes position _
      · have plain : ∀ position others, readRangeEnd ⟨position, c :: others⟩ =
            .ok (c, ⟨position + c.utf8Size, others⟩) := by
          intro position others
          simp [readRangeEnd, Cursor.peek?, Cursor.skip]
        rw [plain] at read
        cases read
        refine ⟨Nat.le_succ _, ?_⟩
        intro position
        exact ⟨_, plain position _⟩

/-- Whether a text does not end where a hyphen could still begin a range. -/
def GoesPastHyphen (rest : List Char) : Prop := rest ≠ [] ∧ rest ≠ ['-']

theorem rangeFollows_before {rest : List Char} (goesPast : GoesPastHyphen rest)
    (place position : Nat) :
    rangeFollows ⟨position, rest ++ more⟩ = rangeFollows ⟨place, rest⟩ := by
  obtain ⟨filled, noHyphen⟩ := goesPast
  cases rest with
  | nil => exact absurd rfl filled
  | cons c tail =>
      by_cases hyphen : c = '-'
      · subst hyphen
        cases tail with
        | nil => exact absurd rfl noHyphen
        | cons second others =>
            by_cases bracket : second = ']'
            · subst bracket
              rfl
            · simp [rangeFollows]
      · simp [rangeFollows, hyphen]

theorem readRange_before {start : Nat} {first item : CharSet} {cursor last : Cursor}
    (read : readRange start first cursor = .ok (item, last)) (goesPast : GoesPastHyphen last.rest)
    (begin : Nat) :
    last.rest.length ≤ cursor.rest.length ∧ ∀ position : Nat, ∃ behind : Nat,
      readRange begin first ⟨position, cursor.rest ++ more⟩ =
        .ok (item, ⟨behind, last.rest ++ more⟩) := by
  obtain ⟨place, rest⟩ := cursor
  rw [readRange] at read
  cases follows : rangeFollows ⟨place, rest⟩ with
  | false =>
      rw [follows, if_neg Bool.false_ne_true] at read
      cases read
      refine ⟨Nat.le_refl _, ?_⟩
      intro position
      refine ⟨position, ?_⟩
      rw [readRange, rangeFollows_before goesPast place, follows, if_neg Bool.false_ne_true]
  | true =>
      rw [follows, if_pos rfl] at read
      have opens : ∃ c tail, rest = '-' :: c :: tail := by
        cases rest with
        | nil => cases follows
        | cons hyphen tail =>
            by_cases isHyphen : hyphen = '-'
            · subst isHyphen
              cases tail with
              | nil => cases follows
              | cons c others => exact ⟨c, others, rfl⟩
            · simp [rangeFollows, isHyphen] at follows
      obtain ⟨c, tail, rfl⟩ := opens
      have followsMore : ∀ position,
          rangeFollows ⟨position, '-' :: c :: tail ++ more⟩ = true := by
        intro position
        rw [rangeFollows_before ⟨List.cons_ne_nil _ _, by simp⟩ place, follows]
      cases only : first.only? with
      | none =>
          rw [only] at read
          cases read
      | some low =>
          rw [only] at read
          obtain ⟨⟨high, behind⟩, ends, finishes⟩ := bind_eq_ok_iff.mp read
          dsimp only at finishes
          split at finishes
          · cases finishes
          · rename_i ordered
            cases finishes
            obtain ⟨shorter, goesOn⟩ :=
              ReadsBefore.behindFirst (fun _ => readsBefore_readRangeEnd) ends fun _ => rfl
            refine ⟨shorter, ?_⟩
            intro position
            obtain ⟨next, same⟩ := goesOn position
            refine ⟨next, ?_⟩
            rw [readRange, followsMore, if_pos rfl, only]
            simp only [List.cons_append, Cursor.skip] at same ⊢
            rw [same]
            simp only [bind, Except.bind, if_neg ordered]

/-- Whether classes are read in front of more text, with more fuel. -/
structure ClassReadersBefore (more : List Char) (fuel spare : Nat) : Prop where
  inBrackets (start begin : Nat) :
    ReadsBefore more (readClass fuel start) (readClass (fuel + spare) begin)
  items (start begin : Nat) (isFirst : Bool) (found : CharSet) :
    ReadsBefore more (readClassItems fuel start isFirst found)
      (readClassItems (fuel + spare) begin isFirst found)

section Classes

variable {fuel spare : Nat}

theorem readClassItems_nil (fuel start position : Nat) (isFirst : Bool) (found : CharSet)
    (result : CharSet × Cursor) :
    readClassItems fuel start isFirst found ⟨position, []⟩ ≠ .ok result := by
  intro read
  cases fuel <;> cases read

/-- A class goes on until it is closed. -/
theorem goesPastHyphen_of_readClassItems {start : Nat} {isFirst : Bool} {found set : CharSet}
    {cursor last : Cursor}
    (read : readClassItems fuel start isFirst found cursor = .ok (set, last)) :
    GoesPastHyphen cursor.rest := by
  obtain ⟨position, rest⟩ := cursor
  constructor
  · rintro rfl
    exact readClassItems_nil _ _ _ _ _ _ read
  · rintro rfl
    cases fuel with
    | zero => cases read
    | succ fuel =>
        rw [readClassItems_plain _ _ _ _ _ _ (by decide) (by decide) (by decide)] at read
        obtain ⟨⟨item, behind⟩, isItem, isLater⟩ := bind_eq_ok_iff.mp read
        cases isItem
        exact readClassItems_nil _ _ _ _ _ _ isLater

theorem readsBefore_readClass (later : ClassReadersBefore more fuel spare) (start begin : Nat) :
    ReadsBefore more (readClass (fuel + 1) start) (readClass (fuel + spare + 1) begin) := by
  intro cursor value last read
  rw [readClass] at read
  cases caret : cursor.eat? '^' with
  | none =>
      simp only [caret] at read
      have filled := (goesPastHyphen_of_readClassItems read).1
      obtain ⟨shorter, goesOn⟩ := later.items start begin true .empty cursor value last read
      refine ⟨shorter, ?_⟩
      intro position
      obtain ⟨next, same⟩ := goesOn position
      refine ⟨next, ?_⟩
      rw [readClass, Path.eat?_more_none caret filled]
      exact same
  | some behind =>
      simp only [caret] at read
      obtain ⟨⟨set, between⟩, items, whole⟩ := bind_eq_ok_iff.mp read
      cases whole
      have opens := Path.rest_of_eat? caret
      obtain ⟨shorter, goesOn⟩ := later.items start begin true .empty behind set _ items
      constructor
      · rw [opens]
        exact Nat.le_succ_of_le shorter
      · intro position
        obtain ⟨next, same⟩ := goesOn (position + '^'.utf8Size)
        refine ⟨next, ?_⟩
        rw [opens, List.cons_append, readClass, Path.eat?_self]
        dsimp only
        rw [same]
        rfl

/-- An item of a class and the items behind it. -/
theorem readsBefore_item (later : ClassReadersBefore more fuel spare)
    (start begin place position : Nat) (first found : CharSet) :
    ReadsBefore more
      (fun cursor => readRange place first cursor >>= fun result =>
        readClassItems fuel start false (found.union result.1) result.2)
      (fun cursor => readRange position first cursor >>= fun result =>
        readClassItems (fuel + spare) begin false (found.union result.1) result.2) := by
  intro cursor value last read
  obtain ⟨⟨item, behind⟩, isItem, isLater⟩ := bind_eq_ok_iff.mp read
  obtain ⟨shorter, goesOn⟩ :=
    readRange_before isItem (goesPastHyphen_of_readClassItems isLater) position
  obtain ⟨shorterToo, ends⟩ := later.items start begin false (found.union item) _ value last isLater
  refine ⟨Nat.le_trans shorterToo shorter, ?_⟩
  intro place
  obtain ⟨middle, same⟩ := goesOn place
  obtain ⟨next, sameToo⟩ := ends middle
  exact ⟨next, bind_eq_ok_iff.mpr ⟨_, same, sameToo⟩⟩

theorem readsBefore_readClassItems (later : ClassReadersBefore more fuel spare)
    (start begin : Nat) (isFirst : Bool) (found : CharSet) :
    ReadsBefore more (readClassItems (fuel + 1) start isFirst found)
      (readClassItems (fuel + spare + 1) begin isFirst found) := by
  rintro ⟨place, rest⟩ value last read
  cases rest with
  | nil => exact absurd read (readClassItems_nil _ _ _ _ _ _)
  | cons c tail =>
      by_cases escape : c = '\\'
      · subst escape
        rw [readClassItems_escape] at read
        exact ReadsBefore.behindFirst
          (fun position => (readsBefore_readEscape place position).bind fun first =>
            readsBefore_item later start begin place position first found) read
          fun _ => readClassItems_escape _ _ _ _ _ _
      · by_cases opens : c = '['
        · subst opens
          rw [readClassItems_class] at read
          exact ReadsBefore.behindFirst
            (fun position => (later.inBrackets place position).bind fun inner =>
              later.items start begin false (found.union inner)) read
            fun _ => readClassItems_class _ _ _ _ _ _
        · by_cases closes : c = ']'
          · subst closes
            rw [readClassItems_close] at read
            split at read
            · cases read
            · rename_i notFirst
              cases read
              refine ⟨Nat.le_succ _, ?_⟩
              intro position
              refine ⟨position + ']'.utf8Size, ?_⟩
              rw [List.cons_append, readClassItems_close, if_neg notFirst]
          · rw [readClassItems_plain _ _ _ _ _ _ closes opens escape] at read
            exact ReadsBefore.behindFirst
              (fun position => readsBefore_item later start begin place position (.single c) found)
              read fun _ => readClassItems_plain _ _ _ _ _ _ closes opens escape

end Classes

theorem classReadersBefore (more : List Char) (fuel spare : Nat) :
    ClassReadersBefore more fuel spare := by
  induction fuel with
  | zero =>
      constructor
      · intro start begin cursor value last read
        cases read
      · intro start begin isFirst found cursor value last read
        cases read
  | succ fuel inductionHypothesis =>
      have fuels : fuel + 1 + spare = fuel + spare + 1 := Nat.add_right_comm fuel 1 spare
      constructor
      · intro start begin
        rw [fuels]
        exact readsBefore_readClass inductionHypothesis start begin
      · intro start begin isFirst found
        rw [fuels]
        exact readsBefore_readClassItems inductionHypothesis start begin isFirst found

/-! ## Sequences and choices -/

/-- Whether an atom that begins with a character is read in front of more text. -/
def AtomBefore (more : List Char) (fuel spare : Nat) (c : Char) (tail : List Char) : Prop :=
  ∀ place value last, readAtom fuel c ⟨place, c :: tail⟩ = .ok (value, last) →
    last.rest.length ≤ (c :: tail).length ∧ ∀ position : Nat, ∃ behind : Nat,
      readAtom (fuel + spare) c ⟨position, c :: (tail ++ more)⟩ =
        .ok (value, ⟨behind, last.rest ++ more⟩)

/-- Whether the readers with some fuel read in front of more text as well, with more
of it.  A choice goes on behind a bar, so none may follow where it ends. -/
structure ReadersBefore (more : List Char) (fuel spare : Nat) : Prop where
  choice : ∀ start branches last, readChoice fuel start = .ok (branches, last) →
    (last.rest ++ more).head? ≠ some '|' →
      last.rest.length ≤ start.rest.length ∧ ∀ position : Nat, ∃ behind : Nat,
        readChoice (fuel + spare) ⟨position, start.rest ++ more⟩ =
          .ok (branches, ⟨behind, last.rest ++ more⟩)
  sequence : ReadsBefore more (readSequence fuel) (readSequence (fuel + spare))
  atom : ∀ c tail, AtomBefore more fuel spare c tail
  group : ∀ start begin,
    ReadsBefore more (readGroup fuel start) (readGroup (fuel + spare) begin)

section Sequences

variable {fuel spare : Nat}

theorem readsBefore_readSequence (ended : more.head?.all endsSequence = true)
    (later : ReadersBefore more fuel spare) :
    ReadsBefore more (readSequence (fuel + 1)) (readSequence (fuel + spare + 1)) := by
  rintro ⟨place, rest⟩ value last read
  by_cases atEnd : rest.head?.all endsSequence = true
  · rw [readSequence_end atEnd] at read
    cases read
    have atEndToo : (rest ++ more).head?.all endsSequence = true := by
      cases rest with
      | nil => exact ended
      | cons c tail => exact atEnd
    exact ⟨Nat.le_refl _, fun position => ⟨position, readSequence_end atEndToo _ _⟩⟩
  · cases rest with
    | nil => exact absurd rfl atEnd
    | cons c tail =>
        have within : endsSequence c = false := by
          rw [← Bool.not_eq_true]
          exact atEnd
        rw [readSequence_cons within] at read
        obtain ⟨⟨atom, behindAtom⟩, isAtom, afterAtom⟩ := bind_eq_ok_iff.mp read
        obtain ⟨⟨item, behind⟩, repeats, afterItem⟩ := bind_eq_ok_iff.mp afterAtom
        obtain ⟨⟨items, final⟩, sequence_, whole⟩ := bind_eq_ok_iff.mp afterItem
        cases whole
        dsimp only at repeats sequence_ ⊢
        obtain ⟨shorterAtom, atoms⟩ := later.atom c tail place atom behindAtom isAtom
        obtain ⟨shorterItem, repetitions⟩ := readRepetitions_before ended spare repeats
          (opensOperator_of_readSequence sequence_)
        obtain ⟨shorter, sequences⟩ := later.sequence behind items _ sequence_
        refine ⟨Nat.le_trans shorter (Nat.le_trans shorterItem shorterAtom), ?_⟩
        intro position
        obtain ⟨middle, isAtomToo⟩ := atoms position
        obtain ⟨between, repeatsToo⟩ := repetitions middle
        obtain ⟨next, sequenceToo⟩ := sequences between
        refine ⟨next, ?_⟩
        rw [List.cons_append, readSequence_cons within, isAtomToo]
        simp only [bind, Except.bind]
        rw [repeatsToo]
        dsimp only
        rw [sequenceToo]

theorem eat?_of_ne {c : Char} {rest : List Char} (notNext : rest.head? ≠ some c) (position : Nat) :
    (Cursor.mk position rest).eat? c = none := by
  rw [Cursor.eat?, Cursor.peek?, if_neg notNext]

theorem readChoice_before (later : ReadersBefore more fuel spare) {start last : Cursor}
    {branches : List Pattern} (read : readChoice (fuel + 1) start = .ok (branches, last))
    (noBar : (last.rest ++ more).head? ≠ some '|') :
    last.rest.length ≤ start.rest.length ∧ ∀ position : Nat, ∃ behind : Nat,
      readChoice (fuel + spare + 1) ⟨position, start.rest ++ more⟩ =
        .ok (branches, ⟨behind, last.rest ++ more⟩) := by
  rw [readChoice] at read
  obtain ⟨⟨items, behind⟩, sequence_, afterSequence⟩ := bind_eq_ok_iff.mp read
  obtain ⟨shorter, sequences⟩ := later.sequence start items behind sequence_
  dsimp only at afterSequence
  cases bar : behind.eat? '|' with
  | none =>
      simp only [bar] at afterSequence
      cases afterSequence
      refine ⟨shorter, ?_⟩
      intro position
      obtain ⟨next, same⟩ := sequences position
      refine ⟨next, ?_⟩
      rw [readChoice, same]
      simp only [bind, Except.bind]
      rw [eat?_of_ne noBar]
  | some behindBar =>
      simp only [bar] at afterSequence
      obtain ⟨⟨others, final⟩, choice_, whole⟩ := bind_eq_ok_iff.mp afterSequence
      cases whole
      have opens : behind.rest = '|' :: behindBar.rest := Path.rest_of_eat? bar
      obtain ⟨shorterToo, choices⟩ := later.choice behindBar others _ choice_ noBar
      rw [opens, List.length_cons] at shorter
      refine ⟨Nat.le_trans shorterToo (Nat.le_of_succ_le shorter), ?_⟩
      intro position
      obtain ⟨middle, same⟩ := sequences position
      obtain ⟨next, sameToo⟩ := choices (middle + '|'.utf8Size)
      refine ⟨next, ?_⟩
      rw [readChoice, same, opens]
      simp only [bind, Except.bind, List.cons_append, Path.eat?_self]
      rw [sameToo]

theorem readsBefore_readGroup (later : ReadersBefore more fuel spare) (start begin : Nat) :
    ReadsBefore more (readGroup (fuel + 1) start) (readGroup (fuel + spare + 1) begin) := by
  rintro cursor value last read
  rw [readGroup] at read
  obtain ⟨⟨branches, behind⟩, choice_, afterChoice⟩ := bind_eq_ok_iff.mp read
  dsimp only at afterChoice
  cases closes : behind.eat? ')' with
  | none =>
      simp only [closes] at afterChoice
      cases afterChoice
  | some final =>
      simp only [closes] at afterChoice
      cases afterChoice
      have opens : behind.rest = ')' :: last.rest := Path.rest_of_eat? closes
      have noBar : (behind.rest ++ more).head? ≠ some '|' := by
        rw [opens, List.cons_append, List.head?_cons]
        decide
      obtain ⟨shorter, choices⟩ := later.choice cursor branches behind choice_ noBar
      rw [opens, List.length_cons] at shorter
      refine ⟨Nat.le_of_succ_le shorter, ?_⟩
      intro position
      obtain ⟨middle, same⟩ := choices position
      refine ⟨middle + ')'.utf8Size, ?_⟩
      rw [readGroup, same, opens]
      simp only [bind, Except.bind, List.cons_append, Path.eat?_self]

/-! ### Atoms -/

theorem atomBefore_char {c : Char} {value : Pattern} (reads : ∀ amount place tail,
      readAtom (amount + 1) c ⟨place, c :: tail⟩ = .ok (value, ⟨place + c.utf8Size, tail⟩))
    (tail : List Char) : AtomBefore more (fuel + 1) spare c tail := by
  intro place found last read
  rw [reads] at read
  cases read
  refine ⟨Nat.le_succ _, ?_⟩
  intro position
  refine ⟨position + c.utf8Size, ?_⟩
  rw [Nat.add_right_comm]
  exact reads _ position _

/-- A group is marked as one that is not counted or its inside begins at once. -/
theorem atomBefore_group (ended : more.head?.all endsSequence = true)
    (later : ReadersBefore more fuel spare) (tail : List Char) :
    AtomBefore more (fuel + 1) spare '(' tail := by
  intro place value last read
  have fuels : fuel + 1 + spare = fuel + spare + 1 := Nat.add_right_comm fuel 1 spare
  by_cases marked : ∃ others, tail = '?' :: others
  · obtain ⟨others, rfl⟩ := marked
    cases others with
    | nil => cases read
    | cons second inside =>
        by_cases colon : second = ':'
        · subst colon
          have reads := fun begin => later.group place begin _ value last read
          refine ⟨Nat.le_trans (reads 0).1 (Nat.le_add_right inside.length 3), ?_⟩
          intro position
          obtain ⟨next, same⟩ := (reads position).2
            (position + '('.utf8Size + '?'.utf8Size + ':'.utf8Size)
          refine ⟨next, ?_⟩
          rw [fuels]
          exact same
        · rw [readAtom_group_unsupported colon] at read
          cases read
  · have unmarked : ∀ others, tail ≠ '?' :: others := fun others same => marked ⟨others, same⟩
    have unmarkedToo : ∀ others, tail ++ more ≠ '?' :: others := by
      intro others isMarked
      cases tail with
      | nil => exact ne_of_ended ended (by decide) (List.head?_eq_some_iff.mpr ⟨others, isMarked⟩)
      | cons c behind =>
          cases isMarked
          exact unmarked behind rfl
    rw [readAtom_group unmarked] at read
    rw [fuels]
    exact ReadsBefore.behindFirst (later.group place) read
      fun position => readAtom_group unmarkedToo _ position

theorem atomBefore_class (tail : List Char) : AtomBefore more (fuel + 1) spare '[' tail := by
  intro place value last read
  rw [readAtom_class] at read
  rw [Nat.add_right_comm]
  exact ReadsBefore.behindFirst
    (fun begin => ((classReadersBefore more fuel spare).inBrackets place begin).bind fun set =>
      readsBefore_ok (Pattern.oneOf set)) read
    fun position => readAtom_class _ position _

theorem atomBefore_quoted (tail : List Char) : AtomBefore more (fuel + 1) spare '"' tail := by
  intro place value last read
  have reads : ∀ amount begin others, readAtom (amount + 1) '"' ⟨begin, '"' :: others⟩ =
      readQuotedAux begin (begin + '"'.utf8Size) others [] := fun _ _ _ => rfl
  rw [reads] at read
  have quotes := fun begin => @readQuotedAux_before more _ _ _ _ _ _ read begin
  refine ⟨Nat.le_succ_of_le (quotes 0).1, ?_⟩
  intro position
  rw [Nat.add_right_comm, reads]
  exact (quotes position).2 _

theorem atomBefore_escape (tail : List Char) : AtomBefore more (fuel + 1) spare '\\' tail := by
  intro place value last read
  rw [readAtom_escape] at read
  rw [Nat.add_right_comm]
  exact ReadsBefore.behindFirst
    (fun begin => (readsBefore_readEscape place begin).bind fun set =>
      readsBefore_ok (Pattern.oneOf set)) read
    fun position => readAtom_escape _ position _

theorem atomBefore (ended : more.head?.all endsSequence = true)
    (later : ReadersBefore more fuel spare) (c : Char) (tail : List Char) :
    AtomBefore more (fuel + 1) spare c tail := by
  by_cases group : c = '('
  · subst group
    exact atomBefore_group ended later tail
  by_cases bracket : c = '['
  · subst bracket
    exact atomBefore_class tail
  by_cases quote : c = '"'
  · subst quote
    exact atomBefore_quoted tail
  by_cases escape : c = '\\'
  · subst escape
    exact atomBefore_escape tail
  cases operator : isOperator c with
  | true =>
      intro place value last read
      exact absurd read (readAtom_operator operator)
  | false =>
      obtain ⟨value, reads⟩ := readAtom_char group bracket quote escape operator
      exact atomBefore_char reads tail

end Sequences

/-- An expression that is read is read in the same way in front of a text that ends
a sequence, with as much fuel or more. -/
theorem readersBefore (ended : more.head?.all endsSequence = true) (fuel spare : Nat) :
    ReadersBefore more fuel spare := by
  induction fuel with
  | zero =>
      constructor
      · intro start branches last read
        cases read
      · intro start items last read
        cases read
      · intro c tail place value last read
        cases read
      · intro start begin cursor value last read
        cases read
  | succ fuel inductionHypothesis =>
      have fuels : fuel + 1 + spare = fuel + spare + 1 := Nat.add_right_comm fuel 1 spare
      constructor
      · rw [fuels]
        intro start branches last read noBar
        exact readChoice_before inductionHypothesis read noBar
      · rw [fuels]
        exact readsBefore_readSequence ended inductionHypothesis
      · intro c tail
        exact atomBefore ended inductionHypothesis c tail
      · intro start begin
        rw [fuels]
        exact readsBefore_readGroup inductionHypothesis start begin

/-- A choice that is read to the end goes on behind a bar. -/
theorem readChoice_bar {fuel : Nat} {start last : Cursor} {branches : List Pattern}
    (read : readChoice fuel start = .ok (branches, last)) (atEnd : last.rest = []) (spare : Nat)
    (more : List Char) (position : Nat) :
    ∃ middle left, fuel + spare ≤ left + start.rest.length + 1 ∧
      readChoice (fuel + spare) ⟨position, start.rest ++ '|' :: more⟩ =
        readChoice left ⟨middle, more⟩ >>= fun result =>
          .ok (branches ++ result.1, result.2) := by
  induction fuel generalizing start branches position with
  | zero => cases read
  | succ fuel inductionHypothesis =>
      rw [readChoice] at read
      obtain ⟨⟨items, behind⟩, sequence_, afterSequence⟩ := bind_eq_ok_iff.mp read
      have ended : ('|' :: more).head?.all endsSequence = true := rfl
      obtain ⟨shorter, sequences⟩ :=
        (readersBefore ended fuel spare).sequence start items behind sequence_
      obtain ⟨between, same⟩ := sequences position
      dsimp only at afterSequence
      rw [Nat.add_right_comm, readChoice, same]
      simp only [bind, Except.bind]
      cases bar : behind.eat? '|' with
      | none =>
          simp only [bar] at afterSequence
          cases afterSequence
          rw [atEnd, List.nil_append, Path.eat?_self]
          exact ⟨_, fuel + spare, by omega, rfl⟩
      | some behindBar =>
          simp only [bar] at afterSequence
          obtain ⟨⟨others, final⟩, choice_, whole⟩ := bind_eq_ok_iff.mp afterSequence
          cases whole
          have opens : behind.rest = '|' :: behindBar.rest := Path.rest_of_eat? bar
          obtain ⟨middle, left, enough, goesOn⟩ :=
            inductionHypothesis choice_ (between + '|'.utf8Size)
          rw [opens, List.length_cons] at shorter
          refine ⟨middle, left, by omega, ?_⟩
          rw [opens, List.cons_append, Path.eat?_self]
          dsimp only
          rw [goesOn]
          cases readChoice left ⟨middle, more⟩ with
          | error fault => rfl
          | ok result => rfl

end Pattern

end BodyContract
