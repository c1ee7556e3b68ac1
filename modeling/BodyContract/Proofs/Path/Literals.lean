import BodyContract.Proofs.Path.Lexical

/-!
# The literals of a filter

The literal of a value that is no container is read back as that value; only a
floating-point number may come back as another one, because it is read with
less care than it is written.
-/

namespace BodyContract

namespace Json

/-! ## The characters of a number -/

theorem span_spec {member : Char → Bool} {text run rest : List Char}
    (split : text.span member = (run, rest)) :
    text = run ++ rest ∧ ∀ c ∈ run, member c = true := by
  rw [List.span_eq_takeWhile_dropWhile] at split
  injection split with sameRun sameRest
  subst sameRun sameRest
  refine ⟨List.takeWhile_append_dropWhile.symm, ?_⟩
  intro c isIn
  exact List.all_eq_true.mp List.all_takeWhile c isIn

theorem isNumberChar_of_isDigit {c : Char} (digit : c.isDigit = true) :
    Path.isNumberChar c = true := by
  rw [Path.isNumberChar, digit, Bool.true_or]

/-- Whether what has been read of a text is part of a number. -/
def ReadsNumberChars (text rest : List Char) : Prop :=
  ∃ run, text = run ++ rest ∧ ∀ c ∈ run, Path.isNumberChar c = true

theorem readsNumberChars_refl (text : List Char) : ReadsNumberChars text text :=
  ⟨[], rfl, fun _ member => absurd member List.not_mem_nil⟩

theorem ReadsNumberChars.trans {first second third : List Char}
    (left : ReadsNumberChars first second) (right : ReadsNumberChars second third) :
    ReadsNumberChars first third := by
  obtain ⟨front, rfl, frontChars⟩ := left
  obtain ⟨back, rfl, backChars⟩ := right
  refine ⟨front ++ back, (List.append_assoc front back third).symm, ?_⟩
  intro c member
  rcases List.mem_append.mp member with member | member
  · exact frontChars c member
  · exact backChars c member

theorem readsNumberChars_cons {c : Char} {text rest : List Char}
    (isPart : Path.isNumberChar c = true) (later : ReadsNumberChars text rest) :
    ReadsNumberChars (c :: text) rest :=
  ReadsNumberChars.trans ⟨[c], rfl, by simpa using isPart⟩ later

theorem readsNumberChars_spanDigits {text digits rest : List Char}
    (split : spanDigits text = (digits, rest)) : ReadsNumberChars text rest := by
  obtain ⟨same, all⟩ := span_spec split
  exact ⟨digits, same, fun c member => isNumberChar_of_isDigit (all c member)⟩

theorem readsNumberChars_fraction {text rest : List Char} {fraction : Option (List Char)}
    (read : readFraction? text = some (fraction, rest)) : ReadsNumberChars text rest := by
  rw [readFraction?.eq_def] at read
  split at read
  · rename_i others
    cases split : spanDigits others with
    | mk digits behind =>
        simp only [split] at read
        split at read
        · cases read
        · cases read
          exact readsNumberChars_cons (by decide) (readsNumberChars_spanDigits split)
  · cases read
    exact readsNumberChars_refl _

theorem readsNumberChars_exponentDigits {text rest : List Char} {isNegative : Bool}
    {exponent : Option (Bool × List Char)}
    (read : readExponentDigits? isNegative text = some (exponent, rest)) :
    ReadsNumberChars text rest := by
  rw [readExponentDigits?] at read
  cases split : spanDigits text with
  | mk digits behind =>
      simp only [split] at read
      split at read
      · cases read
      · cases read
        exact readsNumberChars_spanDigits split

theorem readsNumberChars_exponent {text rest : List Char} {exponent : Option (Bool × List Char)}
    (read : readExponent? text = some (exponent, rest)) : ReadsNumberChars text rest := by
  rw [readExponent?.eq_def] at read
  split at read
  · rename_i c others
    split at read
    · rename_i mark
      have isPart : Path.isNumberChar c = true := by
        simp only [Bool.or_eq_true, decide_eq_true_eq] at mark
        rcases mark with rfl | rfl <;> decide
      refine readsNumberChars_cons isPart ?_
      split at read
      · exact readsNumberChars_cons (by decide) (readsNumberChars_exponentDigits read)
      · exact readsNumberChars_cons (by decide) (readsNumberChars_exponentDigits read)
      · exact readsNumberChars_exponentDigits read
    · cases read
      exact readsNumberChars_refl _
  · cases read
    exact readsNumberChars_refl _

theorem readNumeral?_spec {text rest : List Char} {isNegative : Bool} {numeral : Numeral}
    (read : readNumeral? isNegative text = some (numeral, rest)) :
    ReadsNumberChars text rest ∧ ∃ c more, text = c :: more ∧ c.isDigit = true := by
  rw [readNumeral?] at read
  cases split : spanDigits text with
  | mk whole behind =>
      obtain ⟨same, digits⟩ := span_spec split
      simp only [split] at read
      split at read
      · cases read
      · cases read
      · rename_i filled _
        simp only [Option.bind_eq_bind, Option.bind_eq_some_iff, Prod.exists] at read
        obtain ⟨fraction, behindFraction, readFraction, exponent, behindExponent, readExponent,
          whole_⟩ := read
        cases whole_
        constructor
        · exact ((readsNumberChars_spanDigits split).trans
            (readsNumberChars_fraction readFraction)).trans
              (readsNumberChars_exponent readExponent)
        · cases whole with
          | nil => exact absurd rfl filled
          | cons c more =>
              exact ⟨c, more ++ behind, same, digits c List.mem_cons_self⟩

/-- A number is read from characters of numbers only, the first of which is a
sign or a digit. -/
theorem readNumber?_spec {text rest : List Char} {value : Json}
    (read : readNumber? text = some (value, rest)) :
    ReadsNumberChars text rest ∧ ∃ c more, text = c :: more ∧ (c = '-' ∨ c.isDigit = true) := by
  rw [readNumber?.eq_def] at read
  split at read
  · rename_i others
    simp only [Option.bind_eq_bind, Option.bind_eq_some_iff, Prod.exists] at read
    obtain ⟨numeral, behind, readNumeral, number, -, same⟩ := read
    cases same
    have spec := readNumeral?_spec readNumeral
    exact ⟨readsNumberChars_cons (by decide) spec.1, '-', others, rfl, Or.inl rfl⟩
  · simp only [Option.bind_eq_bind, Option.bind_eq_some_iff, Prod.exists] at read
    obtain ⟨numeral, behind, readNumeral, number, -, same⟩ := read
    cases same
    obtain ⟨chars, c, more, same, digit⟩ := readNumeral?_spec readNumeral
    exact ⟨chars, c, more, same, Or.inr digit⟩

end Json

namespace Path

open Json

/-! ## Literals -/

/-- What the literal of a value is read as. -/
inductive LiteralReads : Json → Json → Prop where
  | null : LiteralReads .null .null
  | bool (flag : Bool) : LiteralReads (.bool flag) (.bool flag)
  | string (text : String) : LiteralReads (.string text) (.string text)
  | number {value other : Number} (read : readNumber? value.text = some (.number other, [])) :
      LiteralReads (.number value) (.number other)

theorem literalReads_int {value : Int} (fits : Number.fits value = true) :
    LiteralReads (.int value) (.int value) := by
  have read := readNumber?_int fits (stopsAt_nil _)
  rw [List.append_nil] at read
  exact LiteralReads.number read

theorem reads_keyword {word : String} {value : Json} {rest : List Char}
    (known : (word = "null" ∧ value = .null) ∨ (word = "true" ∧ value = .bool true) ∨
      (word = "false" ∧ value = .bool false)) :
    Reads readKeyword word.toList (.literal value) (')' :: rest) := by
  intro position
  have letters : word.toList.all Char.isAlpha = true := by
    rcases known with ⟨rfl, -⟩ | ⟨rfl, -⟩ | ⟨rfl, -⟩ <;> decide
  have stops : StopsAt Char.isAlpha (')' :: rest) := stopsAt_cons (by decide) rest
  obtain ⟨behind, span⟩ := Cursor.span_append position (List.all_eq_true.mp letters) stops
  refine ⟨behind, ?_⟩
  rw [readKeyword, span]
  simp only [String.ofList_toList]
  rcases known with ⟨rfl, rfl⟩ | ⟨rfl, rfl⟩ | ⟨rfl, rfl⟩ <;> rfl

theorem reads_number {value other : Number} (read : readNumber? value.text = some (.number other, []))
    {rest : List Char} (stops : StopsAt isNumberChar rest) :
    Reads readNumber value.text (.literal (.number other)) rest := by
  intro position
  obtain ⟨⟨run, same, chars⟩, -⟩ := readNumber?_spec read
  rw [List.append_nil] at same
  rw [← same] at chars
  obtain ⟨behind, span⟩ := Cursor.span_append position chars stops
  refine ⟨behind, ?_⟩
  rw [readNumber, span]
  simp only [read]

/-- An operand that begins with none of the special characters is a number or a
word. -/
theorem readOperand_plain {c : Char} (special : c ∉ ['@', '$', '/', '\'', '"']) (fuel position : Nat)
    (more : List Char) :
    readOperand (fuel + 1) ⟨position, c :: more⟩ =
      if c = '-' || c.isDigit then readNumber ⟨position, c :: more⟩
      else readKeyword ⟨position, c :: more⟩ := by
  simp only [List.mem_cons, List.not_mem_nil, or_false, not_or] at special
  obtain ⟨noAt, noDollar, noSlash, noQuote, noDoubleQuote⟩ := special
  have isPlain : (c = '\'' || c = '"') = false := by
    simp [noQuote, noDoubleQuote]
  have peek : (Cursor.mk position (c :: more)).peek? = some c := rfl
  rw [readOperand, peek]
  simp [isPlain]

theorem reads_operand_keyword {word : String} {value : Json} (fuel : Nat) {rest : List Char}
    (known : (word = "null" ∧ value = .null) ∨ (word = "true" ∧ value = .bool true) ∨
      (word = "false" ∧ value = .bool false)) :
    Reads (readOperand (fuel + 1)) word.toList (.literal value) (')' :: rest) := by
  intro position
  obtain ⟨behind, read⟩ := reads_keyword known position
  refine ⟨behind, ?_⟩
  rw [← read]
  rcases known with ⟨rfl, -⟩ | ⟨rfl, -⟩ | ⟨rfl, -⟩
  · exact readOperand_plain (by decide) fuel position _
  · exact readOperand_plain (by decide) fuel position _
  · exact readOperand_plain (by decide) fuel position _

theorem reads_operand_number {value other : Number}
    (known : readNumber? value.text = some (.number other, [])) (fuel : Nat) {rest : List Char}
    (stops : StopsAt isNumberChar rest) :
    Reads (readOperand (fuel + 1)) value.text (.literal (.number other)) rest := by
  obtain ⟨-, c, more, same, first⟩ := readNumber?_spec known
  have special : c ∉ ['@', '$', '/', '\'', '"'] := by
    intro member
    simp only [List.mem_cons, List.not_mem_nil, or_false] at member
    rcases first with rfl | digit
    · revert member
      decide
    · rcases member with rfl | rfl | rfl | rfl | rfl <;> exact absurd digit (by decide)
  have isNumber : (c = '-' || c.isDigit) = true := by
    rw [Bool.or_eq_true, decide_eq_true_eq]
    exact first
  intro position
  obtain ⟨behind, read⟩ := reads_number known stops position
  refine ⟨behind, ?_⟩
  rw [← read, same, List.cons_append, readOperand_plain special, if_pos isNumber]

/-- The literal of a value begins with a character that is no blank, and in
front of a closing parenthesis it is read as an operand. -/
theorem reads_literal {value read : Json} (literal : LiteralReads value read) (fuel : Nat)
    (rest : List Char) :
    (∃ c more, value.filterLiteral.toList = c :: more ∧ isVisible c = true) ∧
      Reads (readOperand (fuel + 1)) value.filterLiteral.toList (.literal read) (')' :: rest) := by
  cases literal with
  | null =>
      exact ⟨⟨'n', ['u', 'l', 'l'], rfl, by decide⟩,
        reads_operand_keyword fuel (Or.inl ⟨rfl, rfl⟩)⟩
  | bool flag =>
      cases flag with
      | true =>
          exact ⟨⟨'t', ['r', 'u', 'e'], rfl, by decide⟩,
            reads_operand_keyword fuel (Or.inr (Or.inl ⟨rfl, rfl⟩))⟩
      | false =>
          exact ⟨⟨'f', ['a', 'l', 's', 'e'], rfl, by decide⟩,
            reads_operand_keyword fuel (Or.inr (Or.inr ⟨rfl, rfl⟩))⟩
  | string text =>
      rw [filterLiteral, toList_quoteForPath]
      refine ⟨⟨'\'', _, rfl, by decide⟩, ?_⟩
      intro position
      obtain ⟨behind, read⟩ := reads_quoted text (')' :: rest) (position + '\''.utf8Size)
      rw [List.append_assoc, List.singleton_append] at read
      refine ⟨behind, ?_⟩
      rw [List.cons_append, readOperand]
      simp [Cursor.peek?, Cursor.skip, read, bind, Except.bind]
  | @number value other known =>
      obtain ⟨-, c, more, same, first⟩ := readNumber?_spec known
      rw [filterLiteral, String.toList_ofList]
      refine ⟨⟨c, more, same, ?_⟩,
        reads_operand_number known fuel (stopsAt_cons (by decide) rest)⟩
      rcases first with rfl | digit
      · decide
      · exact isVisible_of_isDigit digit

end Path

end BodyContract
