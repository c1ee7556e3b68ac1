import BodyContract.Proofs.Outcome
import BodyContract.Proofs.Path.Hop

/-!
# How far readers look ahead

What a reader has read of a text it also reads in front of another text,
wherever it begins, as long as that goes on like the first one: no reader of a
path looks further ahead than two characters, nor past a closing parenthesis.
More fuel does not change what is read.
-/

namespace BodyContract

/-! ## Texts that go on alike -/

namespace Path

/-- Whether two texts have their first characters in common, `least` of them or
all up to a closing parenthesis. -/
def Alike : Nat → List Char → List Char → Prop
  | 0, _, _ => True
  | least + 1, c :: text, d :: other => c = d ∧ (c = ')' ∨ Alike least text other)
  | _ + 1, _, _ => False

section

variable {least : Nat} {text other : List Char}

theorem alike_cons (c : Char) (alike : Alike least text other) :
    Alike (least + 1) (c :: text) (c :: other) :=
  ⟨rfl, Or.inr alike⟩

theorem Alike.cases_succ (alike : Alike (least + 1) text other) :
    ∃ c rest others, text = c :: rest ∧ other = c :: others ∧
      (c = ')' ∨ Alike least rest others) := by
  cases text with
  | nil => exact alike.elim
  | cons c rest =>
      cases other with
      | nil => exact alike.elim
      | cons d others =>
          obtain ⟨rfl, later⟩ := alike
          exact ⟨c, rest, others, rfl, rfl, later⟩

theorem Alike.mono {more : Nat} (alike : Alike more text other) (enough : least ≤ more) :
    Alike least text other := by
  induction least generalizing more text other with
  | zero => trivial
  | succ least inductionHypothesis =>
      cases more with
      | zero => cases enough
      | succ more =>
          obtain ⟨c, rest, others, rfl, rfl, later⟩ := alike.cases_succ
          refine ⟨rfl, later.imp_right fun alike => ?_⟩
          exact inductionHypothesis alike (Nat.le_of_succ_le_succ enough)

theorem Alike.prepend (alike : Alike least text other) (front : List Char) :
    Alike least (front ++ text) (front ++ other) := by
  induction front with
  | nil => exact alike
  | cons c front inductionHypothesis =>
      exact (alike_cons c inductionHypothesis).mono (Nat.le_succ least)

/-- A closing parenthesis ends what has to be alike. -/
theorem alike_parenthesis (least : Nat) (text other : List Char) :
    Alike least (')' :: text) (')' :: other) := by
  cases least with
  | zero => trivial
  | succ least => exact ⟨rfl, Or.inl rfl⟩

theorem alike_append {text : List Char} (left : least ≤ text.length) (more : List Char) :
    Alike least text (text ++ more) := by
  induction least generalizing text with
  | zero => trivial
  | succ least inductionHypothesis =>
      cases text with
      | nil => cases left
      | cons c rest => exact alike_cons c (inductionHypothesis (Nat.le_of_succ_le_succ left))

theorem Alike.head? (alike : Alike least text other) (positive : 1 ≤ least) :
    text ≠ [] ∧ other.head? = text.head? := by
  obtain ⟨c, rest, others, rfl, rfl, -⟩ := (alike.mono positive).cases_succ
  exact ⟨List.cons_ne_nil c rest, rfl⟩

/-- A short word in which nothing follows a closing parenthesis begins both texts
or neither. -/
theorem Alike.begins {word : List Char} (alike : Alike least text other)
    (short : word.length ≤ least) (inner : ∀ c ∈ word.dropLast, c ≠ ')')
    (starts : word <+: other) : word <+: text := by
  induction word generalizing least text other with
  | nil => exact List.nil_prefix
  | cons first rest inductionHypothesis =>
      cases least with
      | zero => cases short
      | succ least =>
          obtain ⟨c, tail, others, rfl, rfl, later⟩ := alike.cases_succ
          rw [List.cons_prefix_cons] at starts ⊢
          obtain ⟨rfl, starts⟩ := starts
          refine ⟨rfl, ?_⟩
          cases rest with
          | nil => exact List.nil_prefix
          | cons second rest =>
              rw [List.dropLast_cons_cons, List.forall_mem_cons] at inner
              exact inductionHypothesis (later.resolve_left inner.1)
                (Nat.le_of_succ_le_succ short) inner.2 starts

end

end Path

/-! ## Runs of characters -/

namespace Cursor

variable {cursor behind : Cursor} {member : Char → Bool} {run : List Char}

theorem rest_skipMany (cursor : Cursor) (count : Nat) :
    (cursor.skipMany count).rest = cursor.rest.drop count := by
  induction count generalizing cursor with
  | zero => rfl
  | succ count inductionHypothesis =>
      rw [skipMany, inductionHypothesis, skip]
      cases same : cursor.rest with
      | nil => rw [same, List.drop_nil, List.drop_nil]
      | cons c rest => rw [List.drop_succ_cons]

theorem rest_skip_of_cons {c : Char} {rest : List Char} (same : cursor.rest = c :: rest) :
    cursor.skip.rest = rest := by
  rw [skip, same]

theorem rest_of_span (spanned : cursor.span member = (run, behind)) :
    cursor.rest = run ++ behind.rest ∧ (∀ c ∈ run, member c = true) ∧
      StopsAt member behind.rest := by
  rw [span] at spanned
  cases spanned
  rw [rest_skipMany]
  have dropped : cursor.rest.drop (cursor.rest.takeWhile member).length =
      cursor.rest.dropWhile member :=
    calc cursor.rest.drop (cursor.rest.takeWhile member).length
        = (cursor.rest.takeWhile member ++ cursor.rest.dropWhile member).drop
            (cursor.rest.takeWhile member).length := by rw [List.takeWhile_append_dropWhile]
      _ = cursor.rest.dropWhile member := List.drop_left
  rw [dropped]
  refine ⟨List.takeWhile_append_dropWhile.symm, ?_, ?_⟩
  · intro c isIn
    exact List.all_eq_true.mp List.all_takeWhile c isIn
  · intro c isHead
    have stops := List.head?_dropWhile_not member cursor.rest
    rw [isHead] at stops
    simpa using stops

/-- A run that ends in front of a character ends in front of the same one in
another text. -/
theorem span_alike (spanned : cursor.span member = (run, behind)) {other : List Char}
    (alike : Path.Alike 1 behind.rest other) (position : Nat) :
    ∃ later, (Cursor.mk position (run ++ other)).span member = (run, ⟨later, other⟩) := by
  obtain ⟨-, inside, stops⟩ := rest_of_span spanned
  apply span_append position inside
  intro c isHead
  rw [(alike.head? (Nat.le_refl 1)).2] at isHead
  exact stops c isHead

end Cursor

namespace Path

variable {α : Type} {cursor behind last : Cursor}

/-! ## Single characters and words -/

theorem skipBlanks_alike (cursor : Cursor) :
    ∃ blanks, cursor.rest = blanks ++ (skipBlanks cursor).rest ∧
      (∀ c ∈ blanks, CharSet.whiteSpace.contains c = true) ∧
        ∀ other, Alike 1 (skipBlanks cursor).rest other → ∀ position, ∃ later,
          skipBlanks ⟨position, blanks ++ other⟩ = ⟨later, other⟩ := by
  cases spanned : cursor.span CharSet.whiteSpace.contains with
  | mk blanks behind =>
      have same : skipBlanks cursor = behind := by rw [skipBlanks, spanned]
      rw [same]
      obtain ⟨whole, blank, -⟩ := Cursor.rest_of_span spanned
      refine ⟨blanks, whole, blank, ?_⟩
      intro other alike position
      obtain ⟨later, spannedToo⟩ := Cursor.span_alike spanned alike position
      exact ⟨later, by rw [skipBlanks, spannedToo]⟩

theorem peek?_alike {other : List Char} (alike : Alike 1 cursor.rest other) (position : Nat) :
    (Cursor.mk position other).peek? = cursor.peek? :=
  (alike.head? (Nat.le_refl 1)).2

theorem rest_of_eat? {c : Char} (eaten : cursor.eat? c = some behind) :
    cursor.rest = c :: behind.rest := by
  rw [Cursor.eat?] at eaten
  split at eaten
  · rename_i isNext
    obtain ⟨rest, same⟩ := List.head?_eq_some_iff.mp isNext
    cases eaten
    rw [Cursor.rest_skip_of_cons same, same]
  · cases eaten

theorem eat?_self (c : Char) (position : Nat) (rest : List Char) :
    (Cursor.mk position (c :: rest)).eat? c = some ⟨position + c.utf8Size, rest⟩ := by
  simp [Cursor.eat?, Cursor.peek?, Cursor.skip]

theorem eat?_alike_none {c : Char} (refused : cursor.eat? c = none) {other : List Char}
    (alike : Alike 1 cursor.rest other) (position : Nat) :
    (Cursor.mk position other).eat? c = none := by
  rw [Cursor.eat?] at refused ⊢
  rw [peek?_alike alike]
  split at refused
  · cases refused
  · rename_i different
    rw [if_neg different]

theorem eat?_more_none {c : Char} (refused : cursor.eat? c = none) (left : cursor.rest ≠ [])
    (more : List Char) (position : Nat) :
    (Cursor.mk position (cursor.rest ++ more)).eat? c = none :=
  eat?_alike_none refused (alike_append (List.length_pos_iff.mpr left) more) position

theorem rest_of_expect {c : Char} (met : expect c cursor = .ok last) :
    cursor.rest = c :: last.rest := by
  rw [expect] at met
  split at met
  · rename_i eaten
    cases met
    exact rest_of_eat? eaten
  · cases met

/-- A character that has to come next behind blanks. -/
theorem expect_alike {c : Char} (met : expect c (skipBlanks cursor) = .ok last) :
    ∃ blanks, cursor.rest = blanks ++ c :: last.rest ∧
      (∀ c ∈ blanks, CharSet.whiteSpace.contains c = true) ∧ ∀ other position, ∃ later,
        expect c (skipBlanks ⟨position, blanks ++ c :: other⟩) = .ok ⟨later, other⟩ := by
  have same := rest_of_expect met
  obtain ⟨blanks, whole, blank, skips⟩ := skipBlanks_alike cursor
  rw [same] at whole skips
  refine ⟨blanks, whole, blank, ?_⟩
  intro other position
  have closes : Alike 1 (c :: last.rest) (c :: other) := alike_cons c trivial
  obtain ⟨later, skipped⟩ := skips (c :: other) closes position
  rw [skipped, expect_self]
  exact ⟨_, rfl⟩

theorem eatWord?_alike {word : String} (eaten : eatWord? word cursor = some behind) :
    cursor.rest = word.toList ++ behind.rest ∧ ∀ other position, ∃ later,
      eatWord? word ⟨position, word.toList ++ other⟩ = some ⟨later, other⟩ := by
  rw [eatWord?] at eaten
  split at eaten
  · rename_i begins
    cases eaten
    rw [List.isPrefixOf_iff_prefix] at begins
    obtain ⟨rest, same⟩ := begins
    rw [Cursor.rest_skipMany, ← same, ← String.length_toList, List.drop_left]
    refine ⟨rfl, ?_⟩
    intro other position
    obtain ⟨later, skipped⟩ := Cursor.skipMany_append position word.toList other
    refine ⟨later, ?_⟩
    have goesOn : word.toList.isPrefixOf (word.toList ++ other) = true :=
      List.isPrefixOf_iff_prefix.mpr (List.prefix_append _ _)
    rw [eatWord?, if_pos goesOn, ← String.length_toList, skipped]
  · cases eaten

/-- A word that can be told apart by a few characters. -/
def IsShort (least : Nat) (word : String) : Prop :=
  word.toList.length ≤ least ∧ ∀ c ∈ word.toList.dropLast, c ≠ ')'

theorem eatWord?_alike_none {least : Nat} {word : String} (refused : eatWord? word cursor = none)
    (short : IsShort least word) {other : List Char} (alike : Alike least cursor.rest other)
    (position : Nat) : eatWord? word ⟨position, other⟩ = none := by
  rw [eatWord?] at refused ⊢
  split at refused
  · cases refused
  · rename_i differs
    rw [List.isPrefixOf_iff_prefix] at differs
    rw [if_neg]
    rw [List.isPrefixOf_iff_prefix]
    intro begins
    exact differs (alike.begins short.1 short.2 begins)

theorem readComparison?_alike {comparison : Comparison}
    (isSign : readComparison? cursor = some (comparison, behind)) :
    ∃ sign, cursor.rest = sign ++ behind.rest ∧
      ∀ other, Alike 1 behind.rest other → ∀ position, ∃ later,
        readComparison? ⟨position, sign ++ other⟩ = some (comparison, ⟨later, other⟩) := by
  rw [readComparison?.eq_def] at isSign
  split at isSign
  case h_6 rest notOther same =>
      cases isSign
      rw [Cursor.rest_skip_of_cons same, same]
      refine ⟨['<'], rfl, ?_⟩
      intro other alike position
      obtain ⟨c, tail, others, rfl, rfl, -⟩ := alike.cases_succ
      have different : c ≠ '=' := by
        rintro rfl
        exact notOther tail rfl
      refine ⟨position + '<'.utf8Size, ?_⟩
      simp [readComparison?, different, Cursor.skip]
  case h_7 rest notOther same =>
      cases isSign
      rw [Cursor.rest_skip_of_cons same, same]
      refine ⟨['>'], rfl, ?_⟩
      intro other alike position
      obtain ⟨c, tail, others, rfl, rfl, -⟩ := alike.cases_succ
      have different : c ≠ '=' := by
        rintro rfl
        exact notOther tail rfl
      refine ⟨position + '>'.utf8Size, ?_⟩
      simp [readComparison?, different, Cursor.skip]
  case h_8 => cases isSign
  all_goals
    rename_i rest same
    cases isSign
    rw [Cursor.rest_skipMany, same]
    refine ⟨_, (List.take_append_drop 2 _).symm, ?_⟩
    intro other _ position
    exact ⟨_, rfl⟩

/-- A comparison sign has two characters, the first of which is no parenthesis. -/
theorem readComparison?_alike_none (noSign : readComparison? cursor = none) {other : List Char}
    (alike : Alike 2 cursor.rest other) (position : Nat) :
    readComparison? ⟨position, other⟩ = none := by
  obtain ⟨c, rest, others, same, rfl, later⟩ := alike.cases_succ
  rcases later with rfl | alike
  · simp [readComparison?]
  · obtain ⟨d, tail, ending, rfl, rfl, -⟩ := alike.cases_succ
    rw [readComparison?.eq_def, same] at noSign
    rw [readComparison?.eq_def]
    dsimp only at noSign ⊢
    split at noSign
    case h_8 equal unequal less greater matching before after =>
      split
      case h_1 isSign => cases isSign; exact absurd rfl (equal _)
      case h_2 isSign => cases isSign; exact absurd rfl (unequal _)
      case h_3 isSign => cases isSign; exact absurd rfl (less _)
      case h_4 isSign => cases isSign; exact absurd rfl (greater _)
      case h_5 isSign => cases isSign; exact absurd rfl (matching _)
      case h_6 isSign => cases isSign; exact absurd rfl (before _)
      case h_7 isSign => cases isSign; exact absurd rfl (after _)
      case h_8 => rfl
    all_goals cases noSign

/-! ## Readers of words -/

/-- Whether a reader takes characters from the front of a text, and another one
reads them in the same way in front of every text that goes on alike. -/
def LooksAhead (least : Nat) (reader wider : Cursor → Except PathProblem (α × Cursor)) : Prop :=
  ∀ start value last, reader start = .ok (value, last) →
    ∃ front, start.rest = front ++ last.rest ∧
      ∀ other, Alike least last.rest other → Reads wider front value other

theorem looksAhead_readName (inFilter : Bool) :
    LooksAhead 1 (readName inFilter) (readName inFilter) := by
  intro start value last read
  rw [readName] at read
  cases spanned : start.span fun c => !endsName inFilter c with
  | mk name behind =>
      simp only [spanned] at read
      split at read
      · cases read
      · rename_i filled
        cases read
        refine ⟨name, (Cursor.rest_of_span spanned).1, ?_⟩
        intro other alike position
        obtain ⟨later, spannedToo⟩ := Cursor.span_alike spanned alike position
        refine ⟨later, ?_⟩
        rw [readName]
        simp only [spannedToo, if_neg filled]

theorem readQuotedAux_alike {quote : Char} {position : Nat} {read text : List Char}
    {value : String} (isRead : readQuotedAux quote position read text = .ok (value, last)) :
    ∃ front, text = front ++ last.rest ∧ ∀ (other : List Char) (position : Nat), ∃ behind,
      readQuotedAux quote position read (front ++ other) = .ok (value, ⟨behind, other⟩) := by
  fun_induction readQuotedAux quote position read text with
  | case1 => cases isRead
  | case2 => cases isRead
  | case3 position read c rest behind escaped inductionHypothesis =>
      obtain ⟨front, same, goesOn⟩ := inductionHypothesis isRead
      refine ⟨'\\' :: c :: front, by rw [same]; rfl, ?_⟩
      intro other position
      obtain ⟨later, isReadToo⟩ := goesOn other (position + 1 + c.utf8Size)
      refine ⟨later, ?_⟩
      rw [List.cons_append, List.cons_append, readQuotedAux]
      simp only [escaped, if_true, isReadToo]
  | case4 position read c rest behind kept inductionHypothesis =>
      obtain ⟨front, same, goesOn⟩ := inductionHypothesis isRead
      refine ⟨'\\' :: c :: front, by rw [same]; rfl, ?_⟩
      intro other position
      obtain ⟨later, isReadToo⟩ := goesOn other (position + 1 + c.utf8Size)
      refine ⟨later, ?_⟩
      rw [List.cons_append, List.cons_append, readQuotedAux, if_neg kept, isReadToo]
  | case5 position read rest notLast notEscape behind =>
      cases isRead
      refine ⟨[quote], rfl, ?_⟩
      intro other position
      refine ⟨position + quote.utf8Size, ?_⟩
      rw [List.singleton_append, readQuotedAux_close (ne_backslash notLast notEscape)]
  | case6 position read c rest notLast notEscape behind noQuote inductionHypothesis =>
      obtain ⟨front, same, goesOn⟩ := inductionHypothesis isRead
      refine ⟨c :: front, by rw [same]; rfl, ?_⟩
      intro other position
      obtain ⟨later, isReadToo⟩ := goesOn other (position + c.utf8Size)
      refine ⟨later, ?_⟩
      rw [List.cons_append, readQuotedAux_plain _ _ noQuote (ne_backslash notLast notEscape),
        isReadToo]

theorem looksAhead_readQuoted (quote : Char) :
    LooksAhead 0 (readQuoted quote) (readQuoted quote) := by
  intro start value last read
  obtain ⟨front, same, goesOn⟩ := readQuotedAux_alike read
  exact ⟨front, same, fun other _ position => goesOn other position⟩

theorem readBodyAux_alike {position : Nat} {read text : List Char} {value : String}
    (isRead : readBodyAux position read text = .ok (value, last)) :
    ∃ front, text = front ++ last.rest ∧ ∀ (other : List Char) (position : Nat), ∃ behind,
      readBodyAux position read (front ++ other) = .ok (value, ⟨behind, other⟩) := by
  fun_induction readBodyAux position read text with
  | case1 => cases isRead
  | case2 => cases isRead
  | case3 position read c rest inductionHypothesis =>
      obtain ⟨front, same, goesOn⟩ := inductionHypothesis isRead
      refine ⟨'\\' :: c :: front, by rw [same]; rfl, ?_⟩
      intro other position
      obtain ⟨later, isReadToo⟩ := goesOn other (position + 1 + c.utf8Size)
      refine ⟨later, ?_⟩
      rw [List.cons_append, List.cons_append, readBodyAux, isReadToo]
  | case4 position read rest notLast notEscape =>
      cases isRead
      refine ⟨['/'], rfl, ?_⟩
      intro other position
      refine ⟨position + 1, ?_⟩
      rw [List.singleton_append, readBodyAux_close]
  | case5 position read c rest notLast notEscape noSlash inductionHypothesis =>
      obtain ⟨front, same, goesOn⟩ := inductionHypothesis isRead
      refine ⟨c :: front, by rw [same]; rfl, ?_⟩
      intro other position
      obtain ⟨later, isReadToo⟩ := goesOn other (position + c.utf8Size)
      refine ⟨later, ?_⟩
      rw [List.cons_append, readBodyAux_plain noSlash (ne_backslash notLast notEscape),
        isReadToo]

/-- Behind its closing slash, only one character can belong to a regular
expression. -/
theorem looksAhead_readRegex : LooksAhead 1 readRegex readRegex := by
  intro start value last read
  rw [readRegex] at read
  obtain ⟨⟨body, behind⟩, isBody, read⟩ := bind_eq_ok_iff.mp read
  obtain ⟨front, whole, goesOn⟩ := readBodyAux_alike isBody
  cases eaten : behind.eat? 'i' with
  | some mark =>
      simp only [eaten] at read
      have same := rest_of_eat? eaten
      split at read
      · rename_i pattern isPattern
        cases read
        refine ⟨front ++ ['i'], by rw [whole, same, List.append_assoc]; rfl, ?_⟩
        intro other _ position
        obtain ⟨later, isBodyToo⟩ := goesOn ('i' :: other) position
        refine ⟨later + 'i'.utf8Size, ?_⟩
        rw [List.append_assoc, List.singleton_append, readRegex]
        simp only [isBodyToo, eat?_self, isPattern, bind, Except.bind]
      · cases read
  | none =>
      simp only [eaten] at read
      split at read
      · rename_i pattern isPattern
        cases read
        refine ⟨front, whole, ?_⟩
        intro other alike position
        obtain ⟨later, isBodyToo⟩ := goesOn other position
        refine ⟨later, ?_⟩
        rw [readRegex]
        simp only [isBodyToo, eat?_alike_none eaten alike, isPattern, bind, Except.bind]
      · cases read

/-- The position that digits stand for. -/
def signed (isNegative : Bool) (digits : List Char) : Int :=
  if isNegative then -(Numeral.value digits : Int) else Numeral.value digits

/-- Reads the digits of a position. -/
def readMagnitude (isNegative : Bool) (cursor : Cursor) : Except PathProblem (Int × Cursor) :=
  let (digits, behind) := cursor.span Char.isDigit
  if behind.peek? = some ':' || behind.peek? = some ',' then
    fail behind .unsupportedSlice
  else if digits.isEmpty || !positionInRange (signed isNegative digits) then
    fail behind (.invalidIndex (String.ofList ((if isNegative then ['-'] else []) ++ digits)))
  else
    .ok (signed isNegative digits, behind)

theorem readPosition_eq (cursor : Cursor) :
    readPosition cursor =
      match cursor.eat? '-' with
      | some behind => readMagnitude true behind
      | none => readMagnitude false cursor := by
  rw [readPosition]
  cases cursor.eat? '-' <;> rfl

theorem looksAhead_readMagnitude (isNegative : Bool) :
    LooksAhead 1 (readMagnitude isNegative) (readMagnitude isNegative) := by
  intro start value last read
  rw [readMagnitude] at read
  cases spanned : start.span Char.isDigit with
  | mk digits behind =>
      simp only [spanned] at read
      split at read
      · cases read
      · rename_i noSlice
        split at read
        · cases read
        · rename_i inRange
          cases read
          refine ⟨digits, (Cursor.rest_of_span spanned).1, ?_⟩
          intro other alike position
          obtain ⟨later, spannedToo⟩ := Cursor.span_alike spanned alike position
          refine ⟨later, ?_⟩
          rw [readMagnitude]
          simp only [spannedToo, peek?_alike alike, if_neg noSlice, if_neg inRange]

theorem looksAhead_readNumber : LooksAhead 1 readNumber readNumber := by
  intro start value last read
  rw [readNumber] at read
  cases spanned : start.span isNumberChar with
  | mk text behind =>
      simp only [spanned] at read
      split at read
      · rename_i number isNumber
        cases read
        refine ⟨text, (Cursor.rest_of_span spanned).1, ?_⟩
        intro other alike position
        obtain ⟨later, spannedToo⟩ := Cursor.span_alike spanned alike position
        refine ⟨later, ?_⟩
        rw [readNumber]
        simp only [spannedToo, isNumber]
      · cases read

theorem looksAhead_readKeyword : LooksAhead 1 readKeyword readKeyword := by
  intro start value last read
  rw [readKeyword] at read
  cases spanned : start.span Char.isAlpha with
  | mk word behind =>
      simp only [spanned] at read
      split at read
      all_goals
        cases read
      all_goals
        rename_i isWord
        refine ⟨word, (Cursor.rest_of_span spanned).1, ?_⟩
        intro other alike position
        obtain ⟨later, spannedToo⟩ := Cursor.span_alike spanned alike position
        refine ⟨later, ?_⟩
        rw [readKeyword]
        simp only [spannedToo, isWord]

/-! ## Readers one behind the other -/

variable {β : Type} {least : Nat}

theorem LooksAhead.mono {reader wider : Cursor → Except PathProblem (α × Cursor)} {more : Nat}
    (ahead : LooksAhead least reader wider) (enough : least ≤ more) :
    LooksAhead more reader wider := by
  intro start value last read
  obtain ⟨front, same, goesOn⟩ := ahead start value last read
  exact ⟨front, same, fun other alike => goesOn other (alike.mono enough)⟩

theorem LooksAhead.bind {first firstWider : Cursor → Except PathProblem (α × Cursor)}
    {second secondWider : α → Cursor → Except PathProblem (β × Cursor)}
    (ahead : LooksAhead least first firstWider)
    (later : ∀ value, LooksAhead least (second value) (secondWider value)) :
    LooksAhead least (fun cursor => first cursor >>= fun result => second result.1 result.2)
      (fun cursor => firstWider cursor >>= fun result => secondWider result.1 result.2) := by
  intro start value last read
  obtain ⟨⟨middle, behind⟩, isFirst, isSecond⟩ := bind_eq_ok_iff.mp read
  obtain ⟨front, same, goesOn⟩ := ahead start middle behind isFirst
  obtain ⟨back, sameToo, goesOnToo⟩ := later middle behind value last isSecond
  refine ⟨front ++ back, by rw [same, sameToo, List.append_assoc], ?_⟩
  intro other alike position
  rw [sameToo] at goesOn
  obtain ⟨next, isFirstToo⟩ := goesOn (back ++ other) (alike.prepend back) position
  obtain ⟨final, isSecondToo⟩ := goesOnToo other alike next
  rw [List.append_assoc]
  exact ⟨final, bind_eq_ok_iff.mpr ⟨_, isFirstToo, isSecondToo⟩⟩

theorem looksAhead_ok (value : α) :
    LooksAhead least (fun cursor => .ok (value, cursor)) (fun cursor => .ok (value, cursor)) := by
  intro start other last read
  cases read
  exact ⟨[], rfl, fun other _ position => ⟨position, rfl⟩⟩

theorem looksAhead_fail {value : Cursor → PathProblem}
    {wider : Cursor → Except PathProblem (α × Cursor)} :
    LooksAhead least (fun cursor => .error (value cursor)) wider := by
  intro start other last read
  cases read

/-- The next character decides how to read on. -/
theorem LooksAhead.ofPeek {reader wider : Option Char → Cursor → Except PathProblem (α × Cursor)}
    (positive : 1 ≤ least) (ahead : ∀ next, LooksAhead least (reader next) (wider next)) :
    LooksAhead least (fun cursor => reader cursor.peek? cursor)
      (fun cursor => wider cursor.peek? cursor) := by
  intro start value last read
  obtain ⟨front, same, goesOn⟩ := ahead start.peek? start value last read
  refine ⟨front, same, ?_⟩
  intro other alike position
  have begins : Alike 1 start.rest (front ++ other) := by
    rw [same]
    exact (alike.mono positive).prepend front
  dsimp only
  rw [peek?_alike begins]
  exact goesOn other alike position

theorem LooksAhead.skip {reader wider : Cursor → Except PathProblem (α × Cursor)}
    (positive : 1 ≤ least) (ahead : LooksAhead least reader wider) :
    LooksAhead least (fun cursor => reader cursor.skip) (fun cursor => wider cursor.skip) := by
  intro start value last read
  obtain ⟨front, same, goesOn⟩ := ahead start.skip value last read
  cases isText : start.rest with
  | nil =>
      rw [Cursor.skip, isText] at same
      rw [isText, List.nil_eq_append_iff] at same
      refine ⟨[], same.2.symm, ?_⟩
      intro other alike
      exact absurd same.2 (alike.head? positive).1
  | cons c rest =>
      rw [Cursor.rest_skip_of_cons isText] at same
      refine ⟨c :: front, by rw [same]; rfl, ?_⟩
      intro other alike position
      exact goesOn other alike (position + c.utf8Size)

theorem LooksAhead.skipBlanks {reader wider : Cursor → Except PathProblem (α × Cursor)}
    (positive : 1 ≤ least) (ahead : LooksAhead least reader wider) :
    LooksAhead least (fun cursor => reader (skipBlanks cursor))
      (fun cursor => wider (Path.skipBlanks cursor)) := by
  intro start value last read
  obtain ⟨front, same, goesOn⟩ := ahead _ value last read
  obtain ⟨blanks, whole, -, skips⟩ := skipBlanks_alike start
  rw [same] at whole skips
  refine ⟨blanks ++ front, by rw [whole, List.append_assoc], ?_⟩
  intro other alike position
  obtain ⟨middle, skipped⟩ := skips (front ++ other) ((alike.mono positive).prepend front) position
  dsimp only
  rw [List.append_assoc, skipped]
  exact goesOn other alike middle

/-- A reader behind an opening character. -/
theorem LooksAhead.opened {reader wider : Cursor → Except PathProblem (α × Cursor)} (c : Char)
    (ahead : LooksAhead least reader wider) :
    LooksAhead least (fun cursor => expect c cursor >>= reader)
      (fun cursor => expect c cursor >>= wider) := by
  intro start value last read
  obtain ⟨behind, met, read⟩ := bind_eq_ok_iff.mp read
  obtain ⟨front, same, goesOn⟩ := ahead behind value last read
  refine ⟨c :: front, by rw [rest_of_expect met, same]; rfl, ?_⟩
  intro other alike position
  rw [List.cons_append]
  dsimp only
  rw [expect_self]
  exact goesOn other alike _

/-- A reader in front of a closing character, which may decide what has to be
alike behind it. -/
theorem LooksAhead.closing {reader wider : Cursor → Except PathProblem (α × Cursor)} {less : Nat}
    (c : Char) (ahead : LooksAhead least reader wider)
    (decides : ∀ text other, Alike less text other → Alike least (c :: text) (c :: other)) :
    LooksAhead less
      (fun cursor => reader cursor >>= fun result =>
        expect c (Path.skipBlanks result.2) >>= fun closed => .ok (result.1, closed))
      (fun cursor => wider cursor >>= fun result =>
        expect c (Path.skipBlanks result.2) >>= fun closed => .ok (result.1, closed)) := by
  intro start value last read
  obtain ⟨⟨inside, behind⟩, isInside, read⟩ := bind_eq_ok_iff.mp read
  obtain ⟨closed, met, same⟩ := bind_eq_ok_iff.mp read
  cases same
  obtain ⟨front, whole, goesOn⟩ := ahead start inside behind isInside
  obtain ⟨blanks, wholeToo, -, closes⟩ := expect_alike met
  dsimp only at wholeToo goesOn
  refine ⟨front ++ (blanks ++ [c]), by rw [whole, wholeToo]; simp, ?_⟩
  intro other alike position
  have further : Alike least behind.rest (blanks ++ c :: other) := by
    rw [wholeToo]
    exact (decides _ _ alike).prepend blanks
  obtain ⟨middle, isInsideToo⟩ := goesOn (blanks ++ c :: other) further position
  obtain ⟨later, metToo⟩ := closes other middle
  have split : front ++ (blanks ++ [c]) ++ other = front ++ (blanks ++ c :: other) := by simp
  rw [split]
  exact ⟨later, bind_eq_ok_iff.mpr ⟨_, isInsideToo, bind_eq_ok_iff.mpr ⟨_, metToo, rfl⟩⟩⟩

/-- A reader in front of a closing character looks ahead one character less. -/
theorem LooksAhead.closed {reader wider : Cursor → Except PathProblem (α × Cursor)} (c : Char)
    (ahead : LooksAhead (least + 1) reader wider) :
    LooksAhead least
      (fun cursor => reader cursor >>= fun result =>
        expect c (Path.skipBlanks result.2) >>= fun closed => .ok (result.1, closed))
      (fun cursor => wider cursor >>= fun result =>
        expect c (Path.skipBlanks result.2) >>= fun closed => .ok (result.1, closed)) :=
  ahead.closing c fun _ _ alike => alike_cons c alike

/-- A reader in front of a closing parenthesis does not look past it. -/
theorem LooksAhead.parenthesized {reader wider : Cursor → Except PathProblem (α × Cursor)}
    (ahead : LooksAhead least reader wider) :
    LooksAhead 0
      (fun cursor => reader cursor >>= fun result =>
        expect ')' (Path.skipBlanks result.2) >>= fun closed => .ok (result.1, closed))
      (fun cursor => wider cursor >>= fun result =>
        expect ')' (Path.skipBlanks result.2) >>= fun closed => .ok (result.1, closed)) :=
  ahead.closing ')' fun text other _ => alike_parenthesis least text other

/-- An opening character decides how to read on. -/
theorem LooksAhead.ofEat (c : Char)
    {inside insideWider outside outsideWider : Cursor → Except PathProblem (α × Cursor)}
    (positive : 1 ≤ least) (aheadInside : LooksAhead least inside insideWider)
    (aheadOutside : LooksAhead least outside outsideWider) :
    LooksAhead least
      (fun cursor =>
        match cursor.eat? c with
        | some behind => inside behind
        | none => outside cursor)
      (fun cursor =>
        match cursor.eat? c with
        | some behind => insideWider behind
        | none => outsideWider cursor) := by
  intro start value last read
  dsimp only at read
  cases eaten : start.eat? c with
  | some behind =>
      rw [eaten] at read
      obtain ⟨front, same, goesOn⟩ := aheadInside behind value last read
      refine ⟨c :: front, by rw [rest_of_eat? eaten, same]; rfl, ?_⟩
      intro other alike position
      rw [List.cons_append]
      dsimp only
      rw [eat?_self]
      exact goesOn other alike _
  | none =>
      rw [eaten] at read
      obtain ⟨front, same, goesOn⟩ := aheadOutside start value last read
      refine ⟨front, same, ?_⟩
      intro other alike position
      have begins : Alike 1 start.rest (front ++ other) := by
        rw [same]
        exact (alike.mono positive).prepend front
      dsimp only
      rw [eat?_alike_none eaten begins]
      exact goesOn other alike position

/-- A short word decides how to read on. -/
theorem LooksAhead.ofWord {word : String} (short : IsShort least word)
    {inside insideWider outside outsideWider : Cursor → Except PathProblem (α × Cursor)}
    (aheadInside : LooksAhead least inside insideWider)
    (aheadOutside : LooksAhead least outside outsideWider) :
    LooksAhead least
      (fun cursor =>
        match eatWord? word cursor with
        | none => outside cursor
        | some behind => inside behind)
      (fun cursor =>
        match eatWord? word cursor with
        | none => outsideWider cursor
        | some behind => insideWider behind) := by
  intro start value last read
  dsimp only at read
  cases eaten : eatWord? word start with
  | some behind =>
      rw [eaten] at read
      obtain ⟨whole, eats⟩ := eatWord?_alike eaten
      obtain ⟨front, same, goesOn⟩ := aheadInside behind value last read
      refine ⟨word.toList ++ front, by rw [whole, same, List.append_assoc], ?_⟩
      intro other alike position
      obtain ⟨next, eatenToo⟩ := eats (front ++ other) position
      rw [List.append_assoc]
      dsimp only
      rw [eatenToo]
      exact goesOn other alike next
  | none =>
      rw [eaten] at read
      obtain ⟨front, same, goesOn⟩ := aheadOutside start value last read
      refine ⟨front, same, ?_⟩
      intro other alike position
      have begins : Alike least start.rest (front ++ other) := by
        rw [same]
        exact alike.prepend front
      dsimp only
      rw [eatWord?_alike_none eaten short begins]
      exact goesOn other alike position

/-- A comparison sign decides how to read on. -/
theorem looksAhead_ofComparison (value : α)
    {reader wider : Comparison → Cursor → Except PathProblem (α × Cursor)}
    (ahead : ∀ comparison, LooksAhead 2 (reader comparison) (wider comparison)) :
    LooksAhead 2
      (fun cursor =>
        match readComparison? cursor with
        | none => .ok (value, cursor)
        | some sign => reader sign.1 sign.2)
      (fun cursor =>
        match readComparison? cursor with
        | none => .ok (value, cursor)
        | some sign => wider sign.1 sign.2) := by
  intro start other last read
  dsimp only at read
  cases isSign : readComparison? start with
  | none =>
      rw [isSign] at read
      cases read
      refine ⟨[], rfl, ?_⟩
      intro other alike position
      refine ⟨position, ?_⟩
      dsimp only
      rw [List.nil_append, readComparison?_alike_none isSign alike]
  | some sign =>
      obtain ⟨comparison, behind⟩ := sign
      rw [isSign] at read
      obtain ⟨front, same, goesOn⟩ := ahead comparison behind _ last read
      obtain ⟨back, whole, signs⟩ := readComparison?_alike isSign
      rw [same] at whole signs
      refine ⟨back ++ front, by rw [whole, List.append_assoc], ?_⟩
      intro other alike position
      obtain ⟨middle, isSignToo⟩ :=
        signs (front ++ other) ((alike.mono (by decide)).prepend front) position
      rw [List.append_assoc]
      dsimp only
      rw [isSignToo]
      exact goesOn other alike middle

theorem looksAhead_readPosition : LooksAhead 1 readPosition readPosition := by
  have same : readPosition = fun cursor =>
      match cursor.eat? '-' with
      | some behind => readMagnitude true behind
      | none => readMagnitude false cursor := by
    funext cursor
    exact readPosition_eq cursor
  rw [same]
  exact LooksAhead.ofEat '-' (Nat.le_refl 1) (looksAhead_readMagnitude true)
    (looksAhead_readMagnitude false)

end Path

end BodyContract
