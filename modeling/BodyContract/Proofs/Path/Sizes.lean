import BodyContract.Proofs.Path.Comparing
import BodyContract.Proofs.Path.Connectives

/-!
# Sizes in filters

A filter may compare the size of what some steps lead to with a whole number.  Such a
comparison is read up to the blank or the parenthesis behind it, so with `&&` in between
comparisons are read as one filter, which holds exactly if all of them do.
-/

namespace BodyContract

namespace Path

/-! ## Comparing a size -/

variable {inside : List Char} {steps : List Segment}

theorem readSegments_size (fuel position : Nat) (rest : List Char) :
    ∃ behind, readSegments (fuel + 1) true ⟨position, '.' :: ("size()".toList ++ rest)⟩ =
      .ok (([], true), ⟨behind, rest⟩) := by
  have opens : EndsName true ('(' :: ')' :: rest) := stopsAt_cons (by simp [endsName]) _
  have inside : ∀ c ∈ "size".toList, endsName true c = false := by
    have letters : ∀ c ∈ "size".toList, c.isAlpha = true := by simp
    exact fun c member => endsName_of_isAlpha true (letters c member)
  obtain ⟨behind, read⟩ := readName_append (by simp) inside opens (position + '.'.utf8Size)
  rw [String.ofList_toList] at read
  have eaten : eatWord? "()" ⟨behind, '(' :: ')' :: rest⟩ =
    some ⟨behind + '('.utf8Size + ')'.utf8Size, rest⟩ := rfl
  have chars : "size()".toList ++ rest = "size".toList ++ '(' :: ')' :: rest := rfl
  have isName : opening ('.' :: ("size".toList ++ '(' :: ')' :: rest)) = .dottedName := rfl
  refine ⟨behind + '('.utf8Size + ')'.utf8Size, ?_⟩
  rw [chars, readSegments_succ, isName]
  simp only [Opening.read, Opening.length, Cursor.skipMany, Cursor.skip, followName, read]
  rfl

/-- Steps with a question for the size behind them are read as an operand. -/
theorem readOperand_size (known : stepsInFilter? inside = some steps) (spare position : Nat)
    (others : List Char) :
    ∃ behind, readOperand (spare + (8 * inside.length + 1) + 1)
        ⟨position, '@' :: (inside ++ ('.' :: ("size()".toList ++ ' ' :: others)))⟩ =
      .ok (.current steps true, ⟨behind, ' ' :: others⟩) := by
  have ends : EndsWord true ('.' :: ("size()".toList ++ ' ' :: others)) :=
    ⟨⟨stopsAt_cons (by simp [endsName]) _, by simp⟩, by simp⟩
  obtain ⟨last, isRead⟩ := readSegments_of_stepsInFilter? known
  obtain ⟨short, goesOn⟩ := passesOn_readSegments ends (fun _ => rfl) spare (8 * inside.length)
    _ _ _ _ isRead rfl rfl
  obtain ⟨middle, isReadMore⟩ := goesOn (position + '@'.utf8Size)
  have left : spare + (8 * inside.length + 1) - 2 * steps.length =
      spare + 8 * inside.length - 2 * steps.length + 1 := by omega
  obtain ⟨behind, isSize⟩ := readSegments_size (spare + 8 * inside.length - 2 * steps.length) middle
    (' ' :: others)
  rw [left, isSize, putFront_ok, List.append_nil] at isReadMore
  refine ⟨behind, ?_⟩
  rw [readOperand]
  simp only [Cursor.peek?, List.head?_cons, Cursor.skip, isReadMore, bind, Except.bind]

/-- Whether a text begins with what stands behind a comparison of a size. -/
def EndsTest (more : List Char) : Prop := ∃ others, more = ' ' :: others ∨ more = ')' :: others

theorem EndsTest.stopsAt {more : List Char} (ends : EndsTest more) : StopsAt isNumberChar more := by
  obtain ⟨others, rfl | rfl⟩ := ends
  · exact stopsAt_cons (by decide) others
  · exact stopsAt_cons (by decide) others

/-- The comparison of the size of what steps lead to with a whole number. -/
def Clause.ofSize (inside : List Char) (steps : List Segment) (comparison : Comparison)
    (bound : Nat) : Clause where
  text := "@" ++ String.ofList inside ++ ".size() " ++ comparison.sign ++ " " ++ toString bound
  condition := .compares (.current steps true) comparison (.literal (.int bound))

theorem Clause.toList_ofSize (comparison : Comparison) (bound : Nat) :
    (ofSize inside steps comparison bound).text.toList =
      '@' :: (inside ++ ('.' :: ("size()".toList ++
        ' ' :: (comparison.sign.toList ++ ' ' :: Number.text (.int bound))))) := by
  have digits : Number.text (.int bound) = Nat.toDigits 10 bound := by
    rw [Number.text_int, if_neg (by omega)]
    rfl
  simp [ofSize, digits]

/-- Whether a clause is read in front of a blank and of a parenthesis, with some fuel at
least. -/
structure Clause.StandsAlone (least : Nat) (clause : Clause) : Prop where
  begins : ∃ c others, clause.text.toList = c :: others ∧ isVisible c = true
  reads : ∀ fuel, least ≤ fuel → ∀ more, EndsTest more →
    Reads (readTest fuel) clause.text.toList clause.condition more

theorem Clause.standsAlone_ofSize (known : stepsInFilter? inside = some steps)
    {comparison : Comparison} (noMatch : comparison ≠ .matching) {bound : Nat}
    (small : bound < twoTo 64) :
    (ofSize inside steps comparison bound).StandsAlone (8 * inside.length + 3) := by
  refine ⟨⟨'@', _, toList_ofSize comparison bound, by decide⟩, ?_⟩
  have fits : Number.fits bound = true := by
    rw [Number.fits, Bool.and_eq_true, decide_eq_true_eq, decide_eq_true_eq]
    omega
  cases literalReads_int fits with
  | number isNumber =>
      obtain ⟨-, c, others, same, isFirst⟩ := Json.readNumber?_spec isNumber
      have visible : isVisible c = true := by
        rcases isFirst with rfl | digit
        · decide
        · exact isVisible_of_isDigit digit
      intro fuel enough more ends position
      obtain ⟨spare, rfl⟩ : ∃ spare, fuel = spare + (8 * inside.length + 1) + 1 + 1 :=
        ⟨fuel - (8 * inside.length + 3), by omega⟩
      obtain ⟨left, readLeft⟩ := readOperand_size known spare position
        (comparison.sign.toList ++ ' ' :: (Number.text (.int bound) ++ more))
      obtain ⟨signFirst, signMore, signSame, signVisible⟩ := sign_begins comparison
      obtain ⟨middle, readSign⟩ := readComparison?_sign comparison (left + ' '.utf8Size)
        (Number.text (.int bound) ++ more)
      obtain ⟨behind, readRight⟩ := reads_operand_number isNumber (spare + (8 * inside.length + 1))
        ends.stopsAt (middle + ' '.utf8Size)
      have toSign : skipBlanks ⟨left, ' ' :: (comparison.sign.toList ++
          ' ' :: (Number.text (.int bound) ++ more))⟩ = ⟨left + ' '.utf8Size,
            comparison.sign.toList ++ ' ' :: (Number.text (.int bound) ++ more)⟩ := by
        rw [signSame, List.cons_append, skipBlanks_blank signVisible]
      have toRight : skipBlanks ⟨middle, ' ' :: (Number.text (.int bound) ++ more)⟩ =
          ⟨middle + ' '.utf8Size, Number.text (.int bound) ++ more⟩ := by
        rw [same, List.cons_append, skipBlanks_blank visible]
      refine ⟨behind, ?_⟩
      have chars : (ofSize inside steps comparison bound).text.toList ++ more =
          '@' :: (inside ++ ('.' :: ("size()".toList ++ ' ' :: (comparison.sign.toList ++
            ' ' :: (Number.text (.int bound) ++ more))))) := by
        rw [toList_ofSize]
        simp only [List.append_assoc, List.cons_append]
      rw [chars]
      exact readTest_of_operands readLeft toSign readSign toRight readRight
        fun isMatching => absurd isMatching noMatch

/-! ## Conditions that hold together -/

/-- The characters of clauses with `&&` in front of each. -/
def bothChars (rest : List Clause) : List Char :=
  rest.flatMap fun clause => ' ' :: '&' :: '&' :: ' ' :: clause.text.toList

/-- The condition that further clauses hold as well. -/
def allBoth (left : Condition) (rest : List Clause) : Condition :=
  rest.foldl (fun before clause => .both before clause.condition) left

theorem holds_allBoth {document value : Json} {left : Condition} {rest : List Clause} :
    holds document (allBoth left rest) value = true ↔ holds document left value = true ∧
      ∀ clause ∈ rest, holds document clause.condition value = true := by
  induction rest generalizing left with
  | nil => simp [allBoth]
  | cons clause others inductionHypothesis =>
      rw [allBoth, List.foldl_cons, ← allBoth, inductionHypothesis, holds, Bool.and_eq_true,
        List.forall_mem_cons, and_assoc]

variable {least : Nat} {first : Clause} {rest : List Clause}

theorem endsTest_bothChars (rest : List Clause) (more : List Char) :
    EndsTest (bothChars rest ++ ')' :: more) := by
  cases rest with
  | nil => exact ⟨more, Or.inr rfl⟩
  | cons clause others => exact ⟨_, Or.inl rfl⟩

/-- Clauses with `&&` in front are read up to a closing parenthesis. -/
theorem reads_bothChars (alone : ∀ clause ∈ rest, clause.StandsAlone least)
    {fuelBoth fuelEither : Nat} (enough : least + rest.length + 1 ≤ fuelBoth)
    (positive : 0 < fuelEither) (left : Condition) (more : List Char) :
    Reads (readOn fuelBoth fuelEither none left) (bothChars rest) (allBoth left rest)
      (')' :: more) := by
  induction rest generalizing fuelBoth left with
  | nil =>
      intro position
      obtain ⟨fuelBoth, rfl⟩ : ∃ fewer, fuelBoth = fewer + 1 := ⟨fuelBoth - 1, by omega⟩
      obtain ⟨fuelEither, rfl⟩ : ∃ fewer, fuelEither = fewer + 1 := ⟨fuelEither - 1, by omega⟩
      exact ⟨position, readOn_parenthesis fuelBoth fuelEither none left⟩
  | cons clause others inductionHypothesis =>
      rw [List.length_cons] at enough
      obtain ⟨fuelBoth, rfl⟩ : ∃ fewer, fuelBoth = fewer + 2 := ⟨fuelBoth - 2, by omega⟩
      have own := alone clause List.mem_cons_self
      obtain ⟨c, behindFirst, begins, visible⟩ := own.begins
      intro position
      obtain ⟨middle, isClause⟩ := own.reads (fuelBoth + 1) (by omega) _
        (endsTest_bothChars others more)
        (position + ' '.utf8Size + '&'.utf8Size + '&'.utf8Size + ' '.utf8Size)
      have enoughToo : least + others.length + 1 ≤ fuelBoth + 1 := by omega
      obtain ⟨behind, isRest⟩ := inductionHypothesis
        (fun other member => alone other (List.mem_cons_of_mem clause member)) enoughToo
        (.both left clause.condition) middle
      have chars : bothChars (clause :: others) ++ ')' :: more = ' ' :: '&' :: '&' :: ' ' ::
          (clause.text.toList ++ (bothChars others ++ ')' :: more)) := by
        simp [bothChars]
      refine ⟨behind, ?_⟩
      rw [begins, List.cons_append] at isClause
      rw [chars, readOn_both, begins, List.cons_append, readTest_blank visible, isClause]
      exact isRest

/-- Clauses with `&&` in between are read as a filter behind a path. -/
theorem parse_append_both {front : String} {base : Path} (parsed : parse front = .ok base)
    (aloneFirst : first.StandsAlone least) (alone : ∀ clause ∈ rest, clause.StandsAlone least)
    (enough : least + rest.length ≤ 8 * (first.text.toList ++ bothChars rest).length)
    {text : String} (same : text.toList =
      front.toList ++ '[' :: '?' :: '(' :: (first.text.toList ++ bothChars rest ++ [')', ']'])) :
    parse text =
      .ok ⟨text, base.segments ++ [.filter (allBoth first.condition rest)]⟩ := by
  have ends : EndsWord false
      ('[' :: '?' :: '(' :: (first.text.toList ++ bothChars rest ++ [')', ']'])) :=
    ⟨⟨stopsAt_cons (by decide) _, by simp⟩, by simp⟩
  have whole : text = String.ofList (front.toList ++
      '[' :: '?' :: '(' :: (first.text.toList ++ bothChars rest ++ [')', ']'])) := by
    rw [← same, String.ofList_toList]
  rw [whole]
  apply parse_append parsed ends
  intro fuel position
  have fuels : ∃ spare, least ≤ spare ∧ least + rest.length + 1 ≤ spare ∧
      fuel + 8 * ('[' :: '?' :: '(' :: (first.text.toList ++ bothChars rest ++ [')', ']'])).length +
        1 = spare + 2 + 2 := by
    have long : ('[' :: '?' :: '(' :: (first.text.toList ++ bothChars rest ++ [')', ']'])).length =
        (first.text.toList ++ bothChars rest).length + 5 := by
      simp only [List.length_cons, List.length_append, List.length_nil]
    refine ⟨fuel + 8 * (first.text.toList ++ bothChars rest).length + 37, ?_, ?_, ?_⟩ <;> omega
  obtain ⟨spare, enoughFirst, enoughRest, sameFuel⟩ := fuels
  obtain ⟨middle, isFirst⟩ := aloneFirst.reads spare enoughFirst _
    (endsTest_bothChars rest [']']) (position + '['.utf8Size + '?'.utf8Size + '('.utf8Size)
  obtain ⟨behind, isRest⟩ := reads_bothChars alone enoughRest (Nat.succ_pos spare)
    first.condition [']'] middle
  have either : readEither (spare + 2)
      ⟨position + '['.utf8Size + '?'.utf8Size + '('.utf8Size,
        first.text.toList ++ bothChars rest ++ [')', ']']⟩ =
      .ok (allBoth first.condition rest, ⟨behind, ')' :: [']']⟩) := by
    rw [List.append_assoc, readEither_succ, readBoth_succ]
    dsimp only
    rw [bind_assoc, isFirst]
    exact isRest
  have bracket := readSegments_bracket false (readBracket_of_readEither either)
  rw [readSegments_end (stopsAt_nil _), putFront_ok] at bracket
  rw [sameFuel]
  exact ⟨_, bracket⟩

/-! ## What sizes mean -/

/-- The size of what steps lead to is the value of an operand. -/
theorem resolve?_sized (definite : areDefinite steps = true) (document value : Json) :
    resolve? document (.current steps true) value =
      ((Json.behind? steps value).bind Json.size?).map fun size => .int size := by
  have values := map_value_selectAll_definite definite document [⟨[], value⟩]
  rw [List.flatMap_singleton] at values
  have first := congrArg List.head? values
  rw [Option.head?_toList, List.head?_map] at first
  rw [resolve?, operandValue?, definite, ← first]
  cases (selectAll document steps [⟨[], value⟩]).head? with
  | none => rfl
  | some node =>
      simp only [if_true, Option.map_some, Option.bind_some, bind]
      cases node.value.size? <;> rfl

theorem holds_ofSize_iff (definite : areDefinite steps = true) {comparison : Comparison}
    (noMatch : comparison ≠ .matching) {bound : Nat} {document value : Json} :
    holds document (Clause.ofSize inside steps comparison bound).condition value = true ↔
      ∃ size, (Json.behind? steps value).bind Json.size? = some size ∧
        comparison.holds (.int size) (.int bound) = true := by
  rw [Clause.ofSize, holds, resolve?_sized definite, resolve?]
  · cases (Json.behind? steps value).bind Json.size? <;> simp
  · intro pattern same
    exact absurd same noMatch

theorem ordering?_int (left right : Int) :
    (Json.int left).ordering? (.int right) = some (compare left right) := rfl

theorem greaterOrEqual_holds_int (left right : Int) :
    Comparison.greaterOrEqual.holds (.int left) (.int right) = true ↔ right ≤ left := by
  rw [Comparison.holds, ordering?_int, Bool.or_eq_true, beq_iff_eq, beq_iff_eq, Option.some.injEq,
    Option.some.injEq, Int.compare_eq_gt, Int.compare_eq_eq]
  omega

theorem lessOrEqual_holds_int (left right : Int) :
    Comparison.lessOrEqual.holds (.int left) (.int right) = true ↔ left ≤ right := by
  rw [Comparison.holds, ordering?_int, Bool.or_eq_true, beq_iff_eq, beq_iff_eq, Option.some.injEq,
    Option.some.injEq, Int.compare_eq_lt, Int.compare_eq_eq]
  omega

end Path

end BodyContract
