import BodyContract.Proofs.Path.Hop

/-!
# Conditions that are read

The literal of a value that is no container is always read, but for a number
that is out of the reader's range.  If a path with a condition at its end is
read at all, the literal in the condition is read as well.
-/

namespace BodyContract

/-! ## The characters of a number -/

namespace DecimalDigits

theorem isNumberChar_of_mem_plain {decimal : DecimalDigits}
    (digits : ∀ c ∈ decimal.digits, c.isDigit = true) {c : Char} (member : c ∈ decimal.plain) :
    Path.isNumberChar c = true := by
  have zeros : ∀ count, c ∈ List.replicate count '0' → Path.isNumberChar c = true := by
    intro count isZero
    rw [List.eq_of_mem_replicate isZero]
    decide
  have isDigit : c ∈ decimal.digits → Path.isNumberChar c = true :=
    fun isIn => Json.isNumberChar_of_isDigit (digits c isIn)
  rw [plain] at member
  split at member
  · simp only [List.mem_cons, List.mem_append] at member
    rcases member with rfl | rfl | isZero | isIn
    · decide
    · decide
    · exact zeros _ isZero
    · exact isDigit isIn
  · simp only [List.mem_cons, List.mem_append] at member
    rcases member with (isIn | isZero) | rfl | isIn
    · exact isDigit (List.mem_of_mem_take isIn)
    · exact zeros _ isZero
    · decide
    · split at isIn
      · rw [List.mem_singleton.mp isIn]
        decide
      · exact isDigit (List.mem_of_mem_drop isIn)

theorem isNumberChar_of_mem_scientific {decimal : DecimalDigits}
    (digits : ∀ c ∈ decimal.digits, c.isDigit = true) {c : Char} (member : c ∈ decimal.scientific) :
    Path.isNumberChar c = true := by
  have isDigit : c ∈ decimal.digits → Path.isNumberChar c = true :=
    fun isIn => Json.isNumberChar_of_isDigit (digits c isIn)
  rw [scientific] at member
  simp only [List.mem_cons, List.mem_append] at member
  rcases member with isIn | rfl | rfl | isIn
  · split at isIn
    · rename_i first second rest same
      rw [same] at isDigit
      simp only [List.mem_cons] at isIn isDigit
      rcases isIn with rfl | rfl | rfl | isIn
      · exact isDigit (Or.inl rfl)
      · decide
      · exact isDigit (Or.inr (Or.inl rfl))
      · exact isDigit (Or.inr (Or.inr isIn))
    · exact isDigit isIn
  · decide
  · split <;> decide
  · exact Json.isNumberChar_of_isDigit (isDigit_of_mem_toDigits isIn)

theorem isNumberChar_of_mem_text {decimal : DecimalDigits}
    (digits : ∀ c ∈ decimal.digits, c.isDigit = true) {c : Char} (member : c ∈ decimal.text) :
    Path.isNumberChar c = true := by
  rw [text] at member
  split at member
  · exact isNumberChar_of_mem_plain digits member
  · exact isNumberChar_of_mem_scientific digits member

theorem text_ne_nil (decimal : DecimalDigits) : decimal.text ≠ [] := by
  rw [text, plain, scientific]
  split
  · split <;> simp
  · simp

end DecimalDigits

namespace Binary

theorem isDigit_of_mem_shortest {number : Binary} {c : Char} (member : c ∈ number.shortest.digits) :
    c.isDigit = true := by
  rw [shortest] at member
  split at member
  · rw [List.mem_singleton.mp member]
    decide
  · dsimp only [dropTrailingZeros] at member
    rw [List.mem_reverse] at member
    have isIn := List.mem_reverse.mp ((List.dropWhile_sublist _).subset member)
    exact isDigit_of_mem_toDigits isIn

end Binary

namespace Number

theorem isNumberChar_of_mem_text {number : Number} {c : Char} (member : c ∈ number.text) :
    Path.isNumberChar c = true := by
  have digit : ∀ magnitude, c ∈ Nat.toDigits 10 magnitude → Path.isNumberChar c = true :=
    fun _ isIn => Json.isNumberChar_of_isDigit (isDigit_of_mem_toDigits isIn)
  cases number with
  | int value =>
      rw [text_int] at member
      split at member
      · rcases List.mem_cons.mp member with rfl | isIn
        · decide
        · exact digit _ isIn
      · exact digit _ member
  | float value =>
      have decimal : c ∈ value.shortest.text → Path.isNumberChar c = true :=
        DecimalDigits.isNumberChar_of_mem_text fun _ => Binary.isDigit_of_mem_shortest
      rw [text] at member
      split at member
      · rcases List.mem_cons.mp member with rfl | isIn
        · decide
        · exact decimal isIn
      · exact decimal member

theorem text_ne_nil (number : Number) : number.text ≠ [] := by
  cases number with
  | int value =>
      rw [text_int]
      split
      · simp
      · exact Nat.toDigits_ne_nil
  | float value =>
      rw [text]
      split
      · simp
      · exact DecimalDigits.text_ne_nil _

end Number

namespace Path

open Json

theorem exists_number_of_readNumber? {text rest : List Char} {value : Json}
    (read : readNumber? text = some (value, rest)) : ∃ number, value = .number number := by
  rw [readNumber?.eq_def] at read
  split at read
  · simp only [Option.bind_eq_bind, Option.bind_eq_some_iff, Prod.exists] at read
    obtain ⟨numeral, behind, -, number, -, same⟩ := read
    cases same
    exact ⟨number, rfl⟩
  · simp only [Option.bind_eq_bind, Option.bind_eq_some_iff, Prod.exists] at read
    obtain ⟨numeral, behind, -, number, -, same⟩ := read
    cases same
    exact ⟨number, rfl⟩

/-! ## Operands -/

/-- The text of a number is read as a number or not at all. -/
theorem exists_read_of_readOperand {number : Number} {fuel position : Nat} {rest : List Char}
    {result : Operand × Cursor}
    (read : readOperand (fuel + 1) ⟨position, number.text ++ ')' :: rest⟩ = .ok result) :
    ∃ other, readNumber? number.text = some (.number other, []) := by
  have chars : ∀ c ∈ number.text, isNumberChar c = true :=
    fun c member => Number.isNumberChar_of_mem_text member
  obtain ⟨c, more, same⟩ := List.exists_cons_of_ne_nil number.text_ne_nil
  have isFirst := chars c (by rw [same]; exact List.mem_cons_self)
  have special : c ∉ ['@', '$', '/', '\'', '"'] := by
    intro member
    simp only [List.mem_cons, List.not_mem_nil, or_false] at member
    rcases member with rfl | rfl | rfl | rfl | rfl <;> exact absurd isFirst (by decide)
  rw [same, List.cons_append, readOperand_plain special] at read
  split at read
  · have stops : StopsAt isNumberChar (')' :: rest) := stopsAt_cons (by decide) rest
    obtain ⟨behind, span⟩ := Cursor.span_append position chars stops
    rw [← List.cons_append, ← same, readNumber, span] at read
    dsimp only at read
    split at read
    · rename_i value found
      obtain ⟨other, rfl⟩ := exists_number_of_readNumber? found
      exact ⟨other, found⟩
    · cases read
  · -- What begins with another character of a number is no word either.
    rename_i noNumber
    simp only [Bool.or_eq_true, decide_eq_true_eq, not_or] at noNumber
    have wordEnds : ∀ letter ∈ ['t', 'f', 'n'], ¬ c = letter := by
      rintro letter member rfl
      simp only [List.mem_cons, List.not_mem_nil, or_false] at member
      rcases member with rfl | rfl | rfl <;> exact absurd isFirst (by decide)
    have noWord : ∀ letter others, letter ∈ ['t', 'f', 'n'] →
        String.ofList ((c :: (more ++ ')' :: rest)).takeWhile Char.isAlpha) ≠
          String.ofList (letter :: others) := by
      intro letter others isLetter equal
      have chars := congrArg String.toList equal
      rw [String.toList_ofList, String.toList_ofList, List.takeWhile_cons] at chars
      split at chars
      · injection chars with first _
        exact wordEnds letter isLetter first
      · cases chars
    rw [readKeyword, Cursor.span] at read
    dsimp only at read
    split at read
    · rename_i isTrue
      exact absurd isTrue (noWord 't' ['r', 'u', 'e'] (by decide))
    · rename_i isFalse
      exact absurd isFalse (noWord 'f' ['a', 'l', 's', 'e'] (by decide))
    · rename_i isNull
      exact absurd isNull (noWord 'n' ['u', 'l', 'l'] (by decide))
    · cases read

theorem literalReads_of_readOperand {value : Json} (scalar : value.isContainer = false)
    {fuel position : Nat} {rest : List Char} {result : Operand × Cursor}
    (read : readOperand (fuel + 1) ⟨position, value.filterLiteral.toList ++ ')' :: rest⟩ =
      .ok result) :
    ∃ literal, LiteralReads value literal := by
  cases value with
  | null => exact ⟨_, .null⟩
  | bool flag => exact ⟨_, .bool flag⟩
  | string text => exact ⟨_, .string text⟩
  | number number =>
      rw [filterLiteral, String.toList_ofList] at read
      obtain ⟨other, found⟩ := exists_read_of_readOperand read
      exact ⟨_, .number found⟩
  | array elements => cases scalar
  | object members => cases scalar

/-- The literal of a value begins with a visible character. -/
theorem filterLiteral_begins {value : Json} (scalar : value.isContainer = false) :
    ∃ c more, value.filterLiteral.toList = c :: more ∧ isVisible c = true := by
  cases value with
  | null => exact ⟨'n', ['u', 'l', 'l'], rfl, by decide⟩
  | bool flag =>
      cases flag with
      | true => exact ⟨'t', ['r', 'u', 'e'], rfl, by decide⟩
      | false => exact ⟨'f', ['a', 'l', 's', 'e'], rfl, by decide⟩
  | string text =>
      rw [filterLiteral, toList_quoteForPath]
      exact ⟨'\'', _, rfl, by decide⟩
  | number number =>
      obtain ⟨c, more, same⟩ := List.exists_cons_of_ne_nil number.text_ne_nil
      rw [filterLiteral, String.toList_ofList]
      refine ⟨c, more, same, ?_⟩
      have member : c ∈ number.text := by
        rw [same]
        exact List.mem_cons_self
      have isPart := Number.isNumberChar_of_mem_text member
      rw [isNumberChar, Bool.or_eq_true] at isPart
      rcases isPart with digit | other
      · exact isVisible_of_isDigit digit
      · have isSign : c ∈ ['-', '+', '.', 'e', 'E'] := List.contains_iff_mem.mp other
        simp only [List.mem_cons, List.not_mem_nil, or_false] at isSign
        rcases isSign with rfl | rfl | rfl | rfl | rfl <;> decide
  | array elements => cases scalar
  | object members => cases scalar

section Condition

variable {inside : List Hop} {value : Json} {fuel position : Nat} {rest : List Char}

theorem literalReads_of_readTest (readable : ∀ hop ∈ inside, hop.isReadable = true)
    (scalar : value.isContainer = false) {result : Condition × Cursor}
    (read : readTest (fuel + 2 * inside.length + 3)
        ⟨position, '@' :: ((Hop.textOf inside).toList ++
          ' ' :: '=' :: '=' :: ' ' :: (value.filterLiteral.toList ++ ')' :: rest))⟩ =
      .ok result) :
    ∃ literal, LiteralReads value literal := by
  obtain ⟨left, readLeft⟩ := readOperand_current readable fuel position
    ('=' :: '=' :: ' ' :: (value.filterLiteral.toList ++ ')' :: rest))
  obtain ⟨c, more, same, visible⟩ := filterLiteral_begins scalar
  rw [readTest] at read
  simp only at read
  rw [skipBlanks_visible (by decide)] at read
  have noParenthesis : ∀ text, (Cursor.mk position ('@' :: text)).eat? '(' = none := by
    intro text
    simp [Cursor.eat?, Cursor.peek?]
  rw [noParenthesis] at read
  simp only [readLeft, bind, Except.bind] at read
  rw [skipBlanks_blank (by decide)] at read
  simp only [readComparison?, Cursor.skipMany, Cursor.skip] at read
  rw [same, List.cons_append, skipBlanks_blank visible, ← List.cons_append, ← same] at read
  split at read
  · cases read
  · rename_i right readRight
    exact literalReads_of_readOperand scalar readRight

theorem literalReads_of_readEither (readable : ∀ hop ∈ inside, hop.isReadable = true)
    (scalar : value.isContainer = false) {result : Condition × Cursor}
    (read : readEither (fuel + 2 * inside.length + 5)
        ⟨position, '@' :: ((Hop.textOf inside).toList ++
          ' ' :: '=' :: '=' :: ' ' :: (value.filterLiteral.toList ++ ')' :: rest))⟩ =
      .ok result) :
    ∃ literal, LiteralReads value literal := by
  rw [readEither] at read
  obtain ⟨first, readBoth_, -⟩ := bind_eq_ok_iff.mp read
  rw [readBoth] at readBoth_
  obtain ⟨test, readTest_, -⟩ := bind_eq_ok_iff.mp readBoth_
  exact literalReads_of_readTest readable scalar readTest_

theorem literalReads_of_readBracket (readable : ∀ hop ∈ inside, hop.isReadable = true)
    (scalar : value.isContainer = false) {result : Segment × Cursor}
    (read : readBracket (fuel + 2 * inside.length + 6)
        ⟨position, (conditionText inside value).toList ++ rest⟩ = .ok result) :
    ∃ literal, LiteralReads value literal := by
  have split : (conditionText inside value).toList ++ rest =
      '[' :: '?' :: '(' :: '@' :: ((Hop.textOf inside).toList ++
        ' ' :: '=' :: '=' :: ' ' :: (value.filterLiteral.toList ++ ')' :: ']' :: rest)) := by
    rw [toList_conditionText]
    simp
  rw [split, readBracket, expect_self] at read
  simp only [bind, Except.bind] at read
  rw [skipBlanks_visible (by decide)] at read
  simp only [Cursor.peek?, List.head?_cons, Cursor.skip] at read
  rw [skipBlanks_visible (by decide), expect_self] at read
  simp only at read
  cases either : readEither (fuel + 2 * inside.length + 5)
      ⟨position + '['.utf8Size + '?'.utf8Size + '('.utf8Size, '@' :: ((Hop.textOf inside).toList ++
        ' ' :: '=' :: '=' :: ' ' :: (value.filterLiteral.toList ++ ')' :: ']' :: rest))⟩ with
  | error problem =>
      rw [either] at read
      cases read
  | ok condition => exact literalReads_of_readEither readable scalar either

end Condition

/-! ## Whole paths -/

theorem exists_readSegments_of_parse {text : String} {chars : List Char}
    (same : text.toList = '$' :: chars) {parsed : Path} (read : parse text = .ok parsed) :
    ∃ result, readSegments (enoughFuel (chars.length + 1)) false ⟨'$'.utf8Size, chars⟩ =
      .ok result := by
  have start : (Cursor.ofString text).eat? '$' = some ⟨'$'.utf8Size, chars⟩ := by
    rw [Cursor.ofString, same]
    simp [Cursor.eat?, Cursor.peek?, Cursor.skip]
  have length : (Cursor.ofString text).rest.length = chars.length + 1 := by
    rw [Cursor.ofString, same, List.length_cons]
  rw [parse, readSegmentsOf] at read
  simp only [start, length] at read
  cases segments : readSegments (enoughFuel (chars.length + 1)) false ⟨'$'.utf8Size, chars⟩ with
  | error problem =>
      rw [segments] at read
      cases read
  | ok result => exact ⟨result, rfl⟩

/-- If a path that ends in a condition is read, so is the literal in it. -/
theorem literalReads_of_parse {hops inside : List Hop}
    (readable : ∀ hop ∈ hops, hop.isReadable = true)
    (insideReadable : ∀ hop ∈ inside, hop.isReadable = true) {value : Json}
    (scalar : value.isContainer = false) {parsed : Path}
    (read : parse (pathText hops ++ conditionText inside value) = .ok parsed) :
    ∃ literal, LiteralReads value literal := by
  have chars : (pathText hops ++ conditionText inside value).toList =
      '$' :: ((Hop.textOf hops).toList ++ (conditionText inside value).toList) := by
    rw [String.toList_append, pathText, String.toList_append]
    rfl
  obtain ⟨spare, fuel⟩ := enoughFuel_condition hops inside value
  obtain ⟨more, opens⟩ : ∃ more, (conditionText inside value).toList = '[' :: more :=
    ⟨_, toList_conditionText inside value⟩
  have ends : EndsName false (conditionText inside value).toList := by
    rw [opens]
    exact stopsAt_cons (by decide) _
  obtain ⟨result, segments⟩ := exists_readSegments_of_parse chars read
  obtain ⟨middle, front⟩ := readSegments_hops readable ends
    (spare + 2 * inside.length + 5 + 2) '$'.utf8Size
  rw [fuel, front] at segments
  obtain ⟨last, readLast, -⟩ := bind_eq_ok_iff.mp segments
  rw [opens, readSegments] at readLast
  obtain ⟨bracket, readBracket_, -⟩ := bind_eq_ok_iff.mp readLast
  rw [← opens, ← List.append_nil (conditionText inside value).toList] at readBracket_
  exact literalReads_of_readBracket insideReadable scalar readBracket_

end Path

end BodyContract
