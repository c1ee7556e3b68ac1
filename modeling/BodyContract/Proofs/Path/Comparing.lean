import BodyContract.Proofs.Path.Matching

/-!
# Comparisons behind paths

A filter behind a path compares what some steps lead to with an operand.  The path
is read with that filter if the text of the operand is read up to the end of the
filter, and refused for the same reason if that text is refused.  It is refused as
well if the operand ends early and the filter neither closes nor goes on there.

A pattern between slashes is such a text, with a backslash in front of each of its
slashes that has none: whatever the pattern is, it is read to its end and no
further.
-/

namespace BodyContract

namespace Path

variable {inside right : List Char} {steps : List Segment} {comparison : Comparison}
  {outcome : Nat → Except PathProblem Operand}

/-! ## Filters -/

/-- The text of a filter that compares what steps lead to with an operand. -/
def comparing (inside : List Char) (comparison : Comparison) (right : List Char) : List Char :=
  '[' :: '?' :: '(' :: '@' :: (inside ++
    ' ' :: (comparison.sign.toList ++ ' ' :: (right ++ [')', ']'])))

/-- What becomes of a filter behind what has been read of its condition: it is closed there
and ends the path, or it is refused, also because neither a closing parenthesis nor a
further condition follows. -/
inductive EndsFilter {α : Type} : Except PathProblem (α × Cursor) → Except PathProblem α → Prop where
  | refused (problem : PathProblem) : EndsFilter (.error problem) (.error problem)
  | closed (value : α) (behind : Nat) : EndsFilter (.ok (value, ⟨behind, [')', ']']⟩)) (.ok value)
  | stray {last : Cursor} {problem : PathProblem} (value : α)
      (noBoth : eatWord? "&&" (skipBlanks last) = none)
      (noEither : eatWord? "||" (skipBlanks last) = none)
      (unclosed : expect ')' (skipBlanks last) = .error problem) :
      EndsFilter (.ok (value, last)) (.error problem)

theorem EndsFilter.map {α β : Type} {result : Except PathProblem (α × Cursor)}
    {answer : Except PathProblem α} (ends : EndsFilter result answer) (change : α → β) :
    EndsFilter (result.map fun read => (change read.1, read.2)) (answer.map change) := by
  cases ends with
  | refused problem => exact .refused problem
  | closed value behind => exact .closed (change value) behind
  | stray value noBoth noEither unclosed => exact .stray (change value) noBoth noEither unclosed

theorem endsFilter_of_map {α : Type} {result : Except PathProblem (α × Cursor)}
    {answer : Except PathProblem α} {behind : Nat}
    (same : result = answer.map fun value => (value, ⟨behind, [')', ']']⟩)) :
    EndsFilter result answer := by
  rw [same]
  cases answer with
  | ok value => exact .closed value behind
  | error problem => exact .refused problem

/-- Whether a text at the end of a filter is read as an operand, or the filter is refused,
for a reason that may name the position where the text begins. -/
structure Answers (text : List Char) (outcome : Nat → Except PathProblem Operand) : Prop where
  begins : ∃ c others, text = c :: others ∧ isVisible c = true
  reads : ∀ fuel position,
    EndsFilter (readOperand (fuel + 1) ⟨position, text ++ [')', ']']⟩) (outcome position)

/-- Whether what is read of a text at the end of a filter can stand behind a comparison
sign. -/
def Fits (comparison : Comparison) (text : List Char) : Prop :=
  comparison = .matching → ∀ fuel position operand last,
    readOperand (fuel + 1) ⟨position, text ++ [')', ']']⟩ = .ok (operand, last) →
      ∃ regex, operand = .regex regex

/-- A sign between blanks is read as its comparison. -/
theorem readComparison?_sign (comparison : Comparison) (position : Nat) (rest : List Char) :
    ∃ behind, readComparison? ⟨position, comparison.sign.toList ++ ' ' :: rest⟩ =
      some (comparison, ⟨behind, ' ' :: rest⟩) := by
  cases comparison <;> exact ⟨_, rfl⟩

theorem sign_begins (comparison : Comparison) :
    ∃ c more, comparison.sign.toList = c :: more ∧ isVisible c = true := by
  cases comparison <;> exact ⟨_, _, rfl, by decide⟩

theorem readTest_comparing (known : stepsInFilter? inside = some steps)
    (answers : Answers right outcome) (fits : Fits comparison right) (spare position : Nat) :
    ∃ start, EndsFilter
      (readTest (spare + (8 * inside.length + 1) + 2) ⟨position, '@' :: (inside ++
        ' ' :: (comparison.sign.toList ++ ' ' :: (right ++ [')', ']'])))⟩)
      ((outcome start).map fun operand =>
        Condition.compares (.current steps false) comparison operand) := by
  obtain ⟨left, readLeft⟩ := readOperand_steps known spare position
    (comparison.sign.toList ++ ' ' :: (right ++ [')', ']']))
  obtain ⟨signFirst, signMore, signSame, signVisible⟩ := sign_begins comparison
  obtain ⟨middle, readSign⟩ := readComparison?_sign comparison (left + ' '.utf8Size)
    (right ++ [')', ']'])
  obtain ⟨first, others, same, visible⟩ := answers.begins
  have toSign : skipBlanks ⟨left, ' ' :: (comparison.sign.toList ++ ' ' :: (right ++ [')', ']']))⟩ =
      ⟨left + ' '.utf8Size, comparison.sign.toList ++ ' ' :: (right ++ [')', ']'])⟩ := by
    rw [signSame, List.cons_append, skipBlanks_blank signVisible]
  have toRight : skipBlanks ⟨middle, ' ' :: (right ++ [')', ']'])⟩ =
      ⟨middle + ' '.utf8Size, right ++ [')', ']']⟩ := by
    rw [same, List.cons_append, skipBlanks_blank visible]
  refine ⟨middle + ' '.utf8Size, ?_⟩
  have ends := (answers.reads (spare + (8 * inside.length + 1)) (middle + ' '.utf8Size)).map
    fun operand => Condition.compares (.current steps false) comparison operand
  cases readRight : readOperand (spare + (8 * inside.length + 1) + 1)
      ⟨middle + ' '.utf8Size, right ++ [')', ']']⟩ with
  | ok read =>
      rw [readRight] at ends
      rw [readTest_of_operands readLeft toSign readSign toRight readRight
        fun isMatching => fits isMatching _ _ _ _ readRight]
      exact ends
  | error problem =>
      have noParenthesis : ∀ others, (Cursor.mk position ('@' :: others)).eat? '(' = none := by
        intro others
        simp [Cursor.eat?, Cursor.peek?]
      rw [readRight] at ends
      rw [readTest]
      simp only
      rw [skipBlanks_visible (by decide), noParenthesis]
      simp only [readLeft, bind, Except.bind, toSign, readSign, toRight, readRight]
      exact ends

theorem skipBlanks_skipBlanks (cursor : Cursor) :
    skipBlanks (skipBlanks cursor) = skipBlanks cursor := by
  cases spanned : cursor.span CharSet.whiteSpace.contains with
  | mk run behind =>
      obtain ⟨-, -, stops⟩ := Cursor.rest_of_span spanned
      have nothing : behind.rest.takeWhile CharSet.whiteSpace.contains = [] :=
        takeWhile_append (fun _ impossible => absurd impossible List.not_mem_nil) stops
      rw [skipBlanks, skipBlanks, spanned, Cursor.span, nothing]
      rfl

/-- A filter is a condition that is closed. -/
theorem readBracket_filter (fuel position : Nat) (text : List Char) :
    readBracket (fuel + 1) ⟨position, '[' :: '?' :: '(' :: text⟩ =
      (readEither fuel ⟨position + '['.utf8Size + '?'.utf8Size + '('.utf8Size, text⟩ >>=
        fun result => expect ')' (skipBlanks result.2) >>= fun closed =>
          expect ']' (skipBlanks closed) >>= fun last => .ok (.filter result.1, last)) := by
  rw [readBracket, expect_self]
  simp only [bind, Except.bind]
  rw [skipBlanks_visible (by decide)]
  simp only [Cursor.peek?, List.head?_cons, Cursor.skip]
  rw [skipBlanks_visible (by decide), expect_self]

/-- A condition that no further one follows is a whole condition. -/
theorem readEither_of_stray {condition : Condition} {fuel : Nat} {cursor last : Cursor}
    (read : readTest (fuel + 1) cursor = .ok (condition, last))
    (noBoth : eatWord? "&&" (skipBlanks last) = none)
    (noEither : eatWord? "||" (skipBlanks last) = none) :
    readEither (fuel + 3) cursor = .ok (condition, skipBlanks last) := by
  simp only [readEither_succ, readBoth_succ, read, bind, Except.bind, readMoreBoth_succ, noBoth,
    readMoreEither_succ, skipBlanks_skipBlanks, noEither]

/-- A condition in brackets is a filter, if the filter can be read to its end. -/
theorem readBracket_of_readTest {test : Except PathProblem Condition} {fuel position : Nat}
    {text : List Char}
    (ends : EndsFilter
      (readTest (fuel + 1) ⟨position + '['.utf8Size + '?'.utf8Size + '('.utf8Size, text⟩) test) :
    ∃ behind, readBracket (fuel + 4) ⟨position, '[' :: '?' :: '(' :: text⟩ =
      test.map fun condition => (.filter condition, ⟨behind, []⟩) := by
  generalize read : readTest (fuel + 1) ⟨position + '['.utf8Size + '?'.utf8Size + '('.utf8Size, text⟩ =
    result at ends
  cases ends with
  | closed condition behind =>
      exact ⟨_, readBracket_of_readEither (readEither_of_readTest read)⟩
  | refused problem =>
      refine ⟨position, ?_⟩
      rw [readBracket_filter, readEither, readBoth, read]
      rfl
  | stray condition noBoth noEither unclosed =>
      refine ⟨position, ?_⟩
      rw [readBracket_filter, readEither_of_stray read noBoth noEither]
      simp only [bind, Except.bind, skipBlanks_skipBlanks, unclosed]
      rfl

theorem readSegments_of_readBracket_error {inside : List Char} {problem : PathProblem}
    {fuel position : Nat} (read : readBracket fuel ⟨position, '[' :: inside⟩ = .error problem) :
    readSegments (fuel + 1) false ⟨position, '[' :: inside⟩ = .error problem := by
  rw [readSegments]
  simp only [read, bind, Except.bind]

theorem readSegments_comparing (known : stepsInFilter? inside = some steps)
    (answers : Answers right outcome) (fits : Fits comparison right) (fuel position : Nat) :
    ∃ start behind, readSegments (fuel + 8 * (comparing inside comparison right).length + 1) false
        ⟨position, comparing inside comparison right⟩ =
      ((outcome start).map fun operand =>
        [Segment.filter (.compares (.current steps false) comparison operand)]).map
          fun segments => ((segments, false), ⟨behind, []⟩) := by
  have long : inside.length + 4 ≤ (comparing inside comparison right).length := by
    simp only [comparing, List.length_cons, List.length_append]
    omega
  have enough : ∃ spare, fuel + 8 * (comparing inside comparison right).length + 1 =
      spare + (8 * inside.length + 1) + 1 + 5 :=
    ⟨fuel + 8 * (comparing inside comparison right).length + 1 - (8 * inside.length + 7), by omega⟩
  obtain ⟨spare, sameFuel⟩ := enough
  obtain ⟨start, isTest⟩ := readTest_comparing known answers fits spare
    (position + '['.utf8Size + '?'.utf8Size + '('.utf8Size)
  obtain ⟨behind, bracket⟩ := readBracket_of_readTest isTest
  have text : comparing inside comparison right = '[' :: '?' :: '(' :: '@' :: (inside ++
      ' ' :: (comparison.sign.toList ++ ' ' :: (right ++ [')', ']']))) := rfl
  rw [sameFuel, text]
  refine ⟨start, behind, ?_⟩
  cases answer : outcome start with
  | ok operand =>
      rw [answer] at bracket
      rw [readSegments_bracket false bracket, readSegments_end (stopsAt_nil _), putFront_ok]
      rfl
  | error problem =>
      rw [answer] at bracket
      exact readSegments_of_readBracket_error bracket

theorem endsWord_comparing : EndsWord false (comparing inside comparison right) :=
  ⟨⟨stopsAt_cons (by decide) _, by simp [comparing]⟩, by simp [comparing]⟩

/-- A filter behind a path is read behind its segments if its operand is read, and
refused if that is. -/
theorem parse_append_comparing {front : String} {base : Path} (parsed : parse front = .ok base)
    (known : stepsInFilter? inside = some steps) (answers : Answers right outcome)
    (fits : Fits comparison right) {text : String}
    (same : text.toList = front.toList ++ comparing inside comparison right) :
    ∃ start, parse text =
      ((outcome start).map fun operand => Path.mk text (base.segments ++
        [.filter (.compares (.current steps false) comparison operand)])).mapError
          (PathProblem.inPath text) := by
  have whole : text = String.ofList (front.toList ++ comparing inside comparison right) := by
    rw [← same, String.ofList_toList]
  obtain ⟨start, isRead⟩ := @parse_append_outcome _ front base parsed endsWord_comparing
    (fun position => (outcome position).map fun operand =>
      [Segment.filter (.compares (.current steps false) comparison operand)])
    (readSegments_comparing known answers fits)
  refine ⟨start, ?_⟩
  rw [whole, isRead]
  cases outcome start <;> rfl

/-! ## Patterns between slashes -/

/-- A pattern with plain slashes in place of escaped ones, unless it ends inside an
escape. -/
def plainSlashes? : List Char → Option (List Char)
  | [] => some []
  | '\\' :: [] => none
  | '\\' :: c :: rest =>
      (plainSlashes? rest).map fun plain => if c = '/' then '/' :: plain else '\\' :: c :: plain
  | c :: rest => (plainSlashes? rest).map fun plain => c :: plain

/-- The expression that a path holds for a pattern: it has to match whole texts. -/
def wholeMatch? (pattern : String) : Option FullMatch := do
  let body ← plainSlashes? pattern.toList
  fullMatch? (String.ofList body) false

theorem escapeSlashesAux_plain {c : Char} (noSlash : c ≠ '/') (noBackslash : c ≠ '\\')
    (rest : List Char) :
    escapeSlashesAux false (c :: rest) = c :: escapeSlashesAux false rest := by
  have isNone : (c == '\\') = false := beq_false_of_ne noBackslash
  simp [escapeSlashesAux, noSlash, isNone]

theorem plainSlashes?_plain {c : Char} (noBackslash : c ≠ '\\') (rest : List Char) :
    plainSlashes? (c :: rest) = (plainSlashes? rest).map fun plain => c :: plain := by
  rw [plainSlashes?]
  · intro same
    exact absurd same noBackslash
  · intro other others same
    exact absurd same noBackslash

theorem escapeSlashesAux_escape (c : Char) (rest : List Char) :
    escapeSlashesAux false ('\\' :: c :: rest) = '\\' :: c :: escapeSlashesAux false rest := by
  simp [escapeSlashesAux]

theorem escapeSlashesAux_slash (rest : List Char) :
    escapeSlashesAux false ('/' :: rest) = '\\' :: '/' :: escapeSlashesAux false rest := by
  simp [escapeSlashesAux]

theorem readBodyAux_slash (position : Nat) (read rest : List Char) :
    readBodyAux position read ('\\' :: '/' :: rest) =
      readBodyAux (position + 1 + '/'.utf8Size) ('/' :: read) rest := by
  rw [readBodyAux, if_pos rfl]

/-- Between slashes a pattern is read with its slashes plain. -/
theorem readBodyAux_escapeSlashes {pattern plain : List Char}
    (isPlain : plainSlashes? pattern = some plain) (position : Nat) (read rest : List Char) :
    ∃ behind, readBodyAux position read (escapeSlashesAux false pattern ++ '/' :: rest) =
      .ok (String.ofList (read.reverse ++ plain), ⟨behind, rest⟩) := by
  induction pattern using plainSlashes?.induct generalizing plain read position with
  | case1 =>
      cases isPlain
      refine ⟨position + 1, ?_⟩
      rw [escapeSlashesAux, List.nil_append, readBodyAux_close, List.append_nil]
  | case2 => cases isPlain
  | case3 c others inductionHypothesis =>
      rw [plainSlashes?, Option.map_eq_some_iff] at isPlain
      obtain ⟨later, isLater, rfl⟩ := isPlain
      rw [escapeSlashesAux_escape, List.cons_append, List.cons_append]
      by_cases slash : c = '/'
      · subst slash
        obtain ⟨behind, same⟩ :=
          inductionHypothesis isLater (position + 1 + '/'.utf8Size) ('/' :: read)
        refine ⟨behind, ?_⟩
        rw [readBodyAux_slash, same, if_pos rfl]
        simp
      · obtain ⟨behind, same⟩ :=
          inductionHypothesis isLater (position + 1 + c.utf8Size) (c :: '\\' :: read)
        refine ⟨behind, ?_⟩
        rw [readBodyAux_escape slash, same, if_neg slash]
        simp
  | case4 c others noEnd noEscape inductionHypothesis =>
      have noBackslash := ne_backslash noEnd noEscape
      rw [plainSlashes?_plain noBackslash, Option.map_eq_some_iff] at isPlain
      obtain ⟨later, isLater, rfl⟩ := isPlain
      by_cases slash : c = '/'
      · subst slash
        obtain ⟨behind, same⟩ :=
          inductionHypothesis isLater (position + 1 + '/'.utf8Size) ('/' :: read)
        refine ⟨behind, ?_⟩
        rw [escapeSlashesAux_slash, List.cons_append, List.cons_append, readBodyAux_slash, same]
        simp
      · obtain ⟨behind, same⟩ := inductionHypothesis isLater (position + c.utf8Size) (c :: read)
        refine ⟨behind, ?_⟩
        rw [escapeSlashesAux_plain slash noBackslash, List.cons_append,
          readBodyAux_plain slash noBackslash, same]
        simp

/-- How the engine answers to a body that has to match whole texts. -/
def wholeMatchOf (body : String) : Except PathProblem Operand :=
  match fullMatch? body false with
  | some regex => .ok (.regex regex)
  | none => .error (.invalidRegex body)

/-- Between slashes, an escaped pattern is read to its end, with its slashes plain. -/
theorem readOperand_escapeSlashes {pattern : String} {plain : List Char}
    (isPlain : plainSlashes? pattern.toList = some plain) (fuel : Nat) (rest : List Char)
    (position : Nat) :
    ∃ behind, readOperand (fuel + 1)
        ⟨position, '/' :: (escapeSlashesAux false pattern.toList ++ ['/']) ++ ')' :: rest⟩ =
      (wholeMatchOf (String.ofList plain)).map fun operand =>
        (operand, ⟨behind, ')' :: rest⟩) := by
  obtain ⟨behind, read⟩ := readBodyAux_escapeSlashes isPlain (position + '/'.utf8Size) []
    (')' :: rest)
  have noMark : (Cursor.mk behind (')' :: rest)).eat? 'i' = none := by
    simp [Cursor.eat?, Cursor.peek?]
  refine ⟨behind, ?_⟩
  rw [List.cons_append, List.append_assoc, List.singleton_append, readOperand]
  simp only [Cursor.peek?, List.head?_cons, Cursor.skip]
  rw [readRegex, read, wholeMatchOf]
  simp only [bind, Except.bind, List.reverse_nil, List.nil_append, noMark]
  cases fullMatch? (String.ofList plain) false <;> rfl

theorem answers_escapeSlashes {pattern : String} {plain : List Char}
    (isPlain : plainSlashes? pattern.toList = some plain) :
    Answers ('/' :: (escapeSlashesAux false pattern.toList ++ ['/']))
      (fun _ => wholeMatchOf (String.ofList plain)) := by
  refine ⟨⟨'/', _, rfl, by decide⟩, ?_⟩
  intro fuel position
  obtain ⟨behind, read⟩ := readOperand_escapeSlashes isPlain fuel [']'] position
  exact endsFilter_of_map read

theorem fits_escapeSlashes {pattern : String} {plain : List Char} (comparison : Comparison)
    (isPlain : plainSlashes? pattern.toList = some plain) :
    Fits comparison ('/' :: (escapeSlashesAux false pattern.toList ++ ['/'])) := by
  intro _ fuel position operand last read
  obtain ⟨behind, isRead⟩ := readOperand_escapeSlashes isPlain fuel [']'] position
  rw [isRead, wholeMatchOf] at read
  cases accepted : fullMatch? (String.ofList plain) false with
  | none =>
      rw [accepted] at read
      cases read
  | some regex =>
      rw [accepted] at read
      cases read
      exact ⟨regex, rfl⟩

/-- How a path is read that ends in a filter for what matches a body: with the body as a
whole match if the engine accepts that, and not at all otherwise. -/
def EndsInMatch (text : String) (front : List Segment) (left : Operand) (body : String) : Prop :=
  match fullMatch? body false with
  | some regex => regex.text = "^(?:" ++ body ++ ")$" ∧
      parse text = .ok ⟨text, front ++ [.filter (.compares left .matching (.regex regex))]⟩
  | none => parse text = .error (.invalidRegex body)

theorem text_of_fullMatch? {body : String} {regex : FullMatch}
    (accepted : fullMatch? body false = some regex) : regex.text = "^(?:" ++ body ++ ")$" := by
  rw [fullMatch?] at accepted
  obtain ⟨parsed, -, rfl⟩ := Option.map_eq_some_iff.mp accepted
  rw [if_neg Bool.false_ne_true, String.empty_append]

/-- Behind a path, a filter with an escaped pattern asks for a match with the whole
pattern. -/
theorem endsInMatch_comparing {front : String} {base : Path} (parsed : parse front = .ok base)
    (known : stepsInFilter? inside = some steps) {pattern : String} {plain : List Char}
    (isPlain : plainSlashes? pattern.toList = some plain) {text : String}
    (same : text.toList = front.toList ++ comparing inside .matching
      ('/' :: (escapeSlashesAux false pattern.toList ++ ['/']))) :
    EndsInMatch text base.segments (.current steps false) (String.ofList plain) := by
  obtain ⟨_, read⟩ := parse_append_comparing parsed known (answers_escapeSlashes isPlain)
    (fits_escapeSlashes .matching isPlain) same
  rw [EndsInMatch]
  cases accepted : fullMatch? (String.ofList plain) false with
  | some regex =>
      have answered : wholeMatchOf (String.ofList plain) = .ok (.regex regex) := by
        rw [wholeMatchOf, accepted]
      rw [answered] at read
      exact ⟨text_of_fullMatch? accepted, read⟩
  | none =>
      have answered : wholeMatchOf (String.ofList plain) =
          .error (.invalidRegex (String.ofList plain)) := by
        rw [wholeMatchOf, accepted]
      rw [answered] at read
      exact read

/-- Hops are read inside a filter as they are. -/
theorem stepsInFilter?_hops {hops : List Hop} (readable : ∀ hop ∈ hops, hop.isReadable = true) :
    stepsInFilter? (Hop.textOf hops).toList = some (hops.map Hop.segment) := by
  have long := Hop.length_le_length_textOf hops
  obtain ⟨behind, read⟩ := readSegments_hops readable (stopsAt_nil (fun c => !endsName true c))
    (8 * (Hop.textOf hops).toList.length - 2 * hops.length + 1) 0
  have enough : 8 * (Hop.textOf hops).toList.length - 2 * hops.length + 1 + 2 * hops.length =
      8 * (Hop.textOf hops).toList.length + 1 := by omega
  rw [enough, readSegments_end (stopsAt_nil _), putFront_ok, List.append_nil,
    List.append_nil] at read
  rw [stepsInFilter?, read]

end Path

end BodyContract
