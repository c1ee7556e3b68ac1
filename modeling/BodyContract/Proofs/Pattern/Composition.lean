import BodyContract.Proofs.Pattern.Continuation
import BodyContract.Proofs.Pattern.Literal

/-!
# Expressions made of expressions

Expressions can be put together as texts.  In parentheses an expression keeps its
tree, behind an operator it is repeated, side by side groups form a sequence, and a
bar unites the texts of both sides.  A text in quotes describes itself.
-/

namespace BodyContract

namespace Pattern

/-! ## Whole expressions -/

theorem parse_eq_ok_iff {text : String} {pattern : Pattern} : parse text = .ok pattern ↔
    ∃ branches position, pattern = ofChoice branches ∧
      readChoice (enoughFuel text.toList.length) ⟨0, text.toList⟩ =
        .ok (branches, ⟨position, []⟩) := by
  rw [parse, bind_eq_ok_iff]
  constructor
  · rintro ⟨⟨branches, position, rest⟩, isChoice, ends⟩
    cases rest with
    | nil =>
        cases ends
        exact ⟨branches, position, rfl, isChoice⟩
    | cons c others => cases ends
  · rintro ⟨branches, position, rfl, isChoice⟩
    exact ⟨_, isChoice, rfl⟩

/-- What is read as an expression is read so behind an opening parenthesis and up to
the closing one, and as well where the text ends. -/
theorem readChoice_within {text : String} {branches : List Pattern} {place : Nat}
    (read : readChoice (enoughFuel text.toList.length) ⟨0, text.toList⟩ =
      .ok (branches, ⟨place, []⟩))
    {more : List Char} (ended : more.head?.all endsSequence = true)
    (noBar : more.head? ≠ some '|') {fuel : Nat} (enough : enoughFuel text.toList.length ≤ fuel)
    (position : Nat) : ∃ behind,
      readChoice fuel ⟨position, text.toList ++ more⟩ = .ok (branches, ⟨behind, more⟩) := by
  obtain ⟨spare, rfl⟩ := Nat.exists_eq_add_of_le enough
  exact ((readersBefore ended _ spare).choice _ _ _ read noBar).2 position

/-! ## Atoms -/

/-- Whether a text is read as one atom wherever it stands. -/
structure IsAtom (c : Char) (tail : List Char) (atom : Pattern) : Prop where
  within : endsSequence c = false
  noOperator : isOperator c = false
  reads : ∀ fuel position rest, 5 * tail.length + 7 ≤ fuel → ∃ behind,
    readAtom fuel c ⟨position, c :: (tail ++ rest)⟩ = .ok (atom, ⟨behind, rest⟩)

section Groups

variable {text : String} {pattern : Pattern}

theorem readGroup_closed (parsed : parse text = .ok pattern) {fuel : Nat}
    (enough : enoughFuel text.toList.length < fuel) (start position : Nat) (rest : List Char) :
    ∃ behind, readGroup fuel start ⟨position, text.toList ++ ')' :: rest⟩ =
      .ok (pattern, ⟨behind, rest⟩) := by
  obtain ⟨branches, place, rfl, read⟩ := parse_eq_ok_iff.mp parsed
  cases fuel with
  | zero => cases enough
  | succ fuel =>
      have noBar : (')' :: rest).head? ≠ some '|' := by simp
      obtain ⟨behind, isChoice⟩ :=
        readChoice_within read rfl noBar (Nat.le_of_lt_succ enough) position
      refine ⟨behind + ')'.utf8Size, ?_⟩
      rw [readGroup, isChoice]
      simp only [bind, Except.bind, Path.eat?_self]

/-- An expression does not begin with an operator, so a group of it is not taken for a
marked one. -/
theorem unmarked_of_parse (parsed : parse text = .ok pattern) (rest : List Char) :
    ∀ more, text.toList ++ ')' :: rest ≠ '?' :: more := by
  obtain ⟨branches, place, -, read⟩ := parse_eq_ok_iff.mp parsed
  rw [enoughFuel, readChoice] at read
  obtain ⟨⟨items, behind⟩, isSequence, -⟩ := bind_eq_ok_iff.mp read
  have noOperator := opensOperator_of_readSequence isSequence
  intro more isMarked
  cases begins : text.toList with
  | nil =>
      rw [begins] at isMarked
      cases isMarked
  | cons c others =>
      rw [begins] at isMarked noOperator
      cases isMarked
      cases noOperator

theorem isAtom_group (parsed : parse text = .ok pattern) :
    IsAtom '(' (text.toList ++ [')']) pattern := by
  refine ⟨rfl, rfl, ?_⟩
  intro fuel position rest enough
  rw [List.length_append, List.length_singleton] at enough
  rw [List.append_assoc, List.singleton_append]
  cases fuel with
  | zero => omega
  | succ fuel =>
      rw [readAtom_group (unmarked_of_parse parsed rest)]
      apply readGroup_closed parsed
      rw [enoughFuel]
      omega

theorem isAtom_markedGroup (parsed : parse text = .ok pattern) :
    IsAtom '(' ('?' :: ':' :: (text.toList ++ [')'])) pattern := by
  refine ⟨rfl, rfl, ?_⟩
  intro fuel position rest enough
  rw [List.length_cons, List.length_cons, List.length_append, List.length_singleton] at enough
  rw [List.cons_append, List.cons_append, List.append_assoc, List.singleton_append]
  cases fuel with
  | zero => omega
  | succ fuel =>
      apply readGroup_closed parsed
      rw [enoughFuel]
      omega

end Groups

theorem readQuotedAux_closed {text : List Char} (noQuote : '"' ∉ text) (start position : Nat)
    (rest : List Char) (items : List Pattern) :
    ∃ behind, readQuotedAux start position (text ++ '"' :: rest) items =
      .ok (ofSequence (items.reverse ++ text.map literal), ⟨behind, rest⟩) := by
  induction text generalizing position items with
  | nil =>
      rw [List.nil_append, readQuotedAux, if_pos rfl, List.map_nil, List.append_nil]
      exact ⟨_, rfl⟩
  | cons c others inductionHypothesis =>
      have different : ¬ c = '"' := fun same => noQuote (same ▸ List.mem_cons_self)
      have later : '"' ∉ others := fun member => noQuote (List.mem_cons_of_mem c member)
      obtain ⟨behind, reads⟩ :=
        inductionHypothesis later (position + c.utf8Size) (literal c :: items)
      refine ⟨behind, ?_⟩
      rw [List.cons_append, readQuotedAux, if_neg different, reads, List.reverse_cons,
        List.append_assoc, List.singleton_append, List.map_cons]

theorem isAtom_quoted {text : List Char} (noQuote : '"' ∉ text) :
    IsAtom '"' (text ++ ['"']) (ofSequence (text.map literal)) := by
  refine ⟨rfl, rfl, ?_⟩
  intro fuel position rest enough
  rw [List.append_assoc, List.singleton_append]
  cases fuel with
  | zero => omega
  | succ fuel => exact readQuotedAux_closed noQuote position _ rest []

/-! ## Operators -/

/-- A repetition operator as it is written. -/
inductive Repetition where
  | star
  | plus
  | mark
  | exactly (count : Nat)
  | atLeast (least : Nat)
  | between (least most : Nat)
deriving DecidableEq, Repr

namespace Repetition

/-- The text of an operator. -/
def text : Repetition → String
  | star => "*"
  | plus => "+"
  | mark => "?"
  | exactly count => "\x7b" ++ toString count ++ "\x7d"
  | atLeast least => "\x7b" ++ toString least ++ ",\x7d"
  | between least most => "\x7b" ++ toString least ++ "," ++ toString most ++ "\x7d"

/-- How often an operator repeats at least. -/
def least : Repetition → Nat
  | star => 0
  | plus => 1
  | mark => 0
  | exactly count => count
  | atLeast least => least
  | between least _ => least

/-- How often an operator repeats at most. -/
def most : Repetition → Option Nat
  | star => none
  | plus => none
  | mark => some 1
  | exactly count => some count
  | atLeast _ => none
  | between _ most => some most

end Repetition

theorem readCount_numeral {count : Nat} (small : count ≤ repetitionLimit) {rest : List Char}
    (stops : StopsAt Char.isDigit rest) (position : Nat) :
    ∃ behind, readCount ⟨position, Nat.toDigits 10 count ++ rest⟩ =
      .ok (some count, ⟨behind, rest⟩) := by
  have areDigits : ∀ c ∈ Nat.toDigits 10 count, c.isDigit = true :=
    fun c member => isDigit_of_mem_toDigits member
  have fits : count ≤ countLimit := Nat.le_trans small (by decide)
  obtain ⟨behind, spanned⟩ := Cursor.span_append position areDigits stops
  refine ⟨behind, (readCount_eq_ok_iff spanned).mpr ⟨Or.inr ⟨?_, ?_, ?_⟩, rfl⟩⟩
  · exact Nat.toDigits_ne_nil
  · rw [Numeral.value_toDigits]
    exact fits
  · rw [Numeral.value_toDigits]

/-- Counts in braces: what follows the lower one tells the upper one. -/
theorem readCounts_closed {least : Nat} {most : Option Nat} (areCounts : AreCounts least most)
    {tail rest : List Char} (stops : StopsAt Char.isDigit tail)
    (reads : ∀ position, ∃ behind,
      readMost least ⟨position, tail⟩ = .ok (most, ⟨behind, '\x7d' :: rest⟩)) (position : Nat) :
    ∃ behind, readCounts ⟨position, '\x7b' :: (Nat.toDigits 10 least ++ tail)⟩ =
      .ok ((least, most), ⟨behind, rest⟩) := by
  obtain ⟨behindLeast, isLeast⟩ :=
    readCount_numeral areCounts.1 stops (position + '\x7b'.utf8Size)
  obtain ⟨behindMost, isMost⟩ := reads behindLeast
  refine ⟨behindMost + '\x7d'.utf8Size, ?_⟩
  rw [readCounts_eq, bind_eq_ok_iff]
  refine ⟨_, isLeast, ?_⟩
  dsimp only
  rw [bind_eq_ok_iff]
  refine ⟨_, isMost, ?_⟩
  rw [closeCounts_eq_ok_iff]
  exact ⟨Path.eat?_self _ _ _, rfl, areCounts⟩

theorem readOperator_text {repetition : Repetition}
    (areCounts : AreCounts repetition.least repetition.most) (position : Nat) (rest : List Char) :
    ∃ behind, readOperator ⟨position, repetition.text.toList ++ rest⟩ =
      .ok ((repetition.least, repetition.most), ⟨behind, rest⟩) := by
  have braces : ∀ tail, readOperator ⟨position, '\x7b' :: tail⟩ =
      readCounts ⟨position, '\x7b' :: tail⟩ := fun _ => rfl
  have brace : StopsAt Char.isDigit ('\x7d' :: rest) := stopsAt_cons (by decide) rest
  cases repetition with
  | star => exact ⟨_, rfl⟩
  | plus => exact ⟨_, rfl⟩
  | mark => exact ⟨_, rfl⟩
  | exactly count =>
      have shape : (Repetition.exactly count).text.toList ++ rest =
          '\x7b' :: (Nat.toDigits 10 count ++ '\x7d' :: rest) := by
        simp [Repetition.text]
      rw [shape, braces]
      apply readCounts_closed areCounts brace
      intro place
      exact ⟨place, rfl⟩
  | atLeast least =>
      have shape : (Repetition.atLeast least).text.toList ++ rest =
          '\x7b' :: (Nat.toDigits 10 least ++ ',' :: '\x7d' :: rest) := by
        simp [Repetition.text]
      rw [shape, braces]
      apply readCounts_closed areCounts (stopsAt_cons (by decide) _)
      intro place
      exact ⟨place + ','.utf8Size, rfl⟩
  | between least most =>
      have shape : (Repetition.between least most).text.toList ++ rest =
          '\x7b' :: (Nat.toDigits 10 least ++ ',' :: (Nat.toDigits 10 most ++ '\x7d' :: rest)) := by
        simp [Repetition.text]
      rw [shape, braces]
      apply readCounts_closed areCounts (stopsAt_cons (by decide) _)
      intro place
      rw [readMost, Path.eat?_self]
      exact readCount_numeral (areCounts.2 most rfl).1 brace _

theorem opensOperator_text (repetition : Repetition) (rest : List Char) :
    opensOperator (repetition.text.toList ++ rest) = true := by
  cases repetition <;> simp [Repetition.text, opensOperator, isOperator]

/-! ## Items one behind the other -/

/-- Whether a text is read as one item of a sequence wherever it stands. -/
structure IsItem (text : List Char) (item : Pattern) : Prop where
  begins : ∀ rest, opensOperator (text ++ rest) = false
  reads : ∀ fuel position rest, 5 * text.length + 2 ≤ fuel → opensOperator rest = false →
    ∃ behind, readSequence (fuel + 1) ⟨position, text ++ rest⟩ =
      readSequence fuel ⟨behind, rest⟩ >>= fun result => .ok (item :: result.1, result.2)

section Items

variable {c : Char} {tail : List Char} {atom : Pattern}

/-- An atom is an item of its own, or with what repeats it. -/
theorem IsAtom.isItem_append (isAtom : IsAtom c tail atom) {operators : List Char}
    {item : Pattern} (repeats : ∀ fuel position rest, opensOperator rest = false → ∃ behind,
      readRepetitions (fuel + 1) atom ⟨position, operators ++ rest⟩ = .ok (item, ⟨behind, rest⟩)) :
    IsItem (c :: tail ++ operators) item := by
  constructor
  · intro rest
    exact isAtom.noOperator
  · intro fuel position rest enough noOperator
    rw [List.cons_append, List.length_cons, List.length_append] at enough
    rw [List.cons_append, List.cons_append, List.append_assoc]
    cases fuel with
    | zero => omega
    | succ fuel =>
        obtain ⟨middle, isRead⟩ :=
          isAtom.reads (fuel + 1) position (operators ++ rest) (by omega)
        obtain ⟨behind, isItem⟩ := repeats fuel middle rest noOperator
        refine ⟨behind, ?_⟩
        rw [readSequence_cons isAtom.within, isRead]
        simp only [bind, Except.bind]
        rw [isItem]

theorem IsAtom.isItem (isAtom : IsAtom c tail atom) : IsItem (c :: tail) atom := by
  have once : ∀ fuel position rest, opensOperator rest = false → ∃ behind,
      readRepetitions (fuel + 1) atom ⟨position, [] ++ rest⟩ = .ok (atom, ⟨behind, rest⟩) :=
    fun _ position _ noOperator => ⟨position, readRepetitions_other _ _ _ noOperator⟩
  have alone := isAtom.isItem_append once
  rw [List.append_nil] at alone
  exact alone

theorem IsAtom.isItem_repeated (isAtom : IsAtom c tail atom) {repetition : Repetition}
    (areCounts : AreCounts repetition.least repetition.most) :
    IsItem (c :: tail ++ repetition.text.toList)
      (.repeated atom repetition.least repetition.most) := by
  apply isAtom.isItem_append
  intro fuel position rest noOperator
  obtain ⟨behind, isOperator⟩ := readOperator_text areCounts position rest
  refine ⟨behind, ?_⟩
  rw [readRepetitions_operator (opensOperator_text repetition rest), isOperator]
  exact readRepetitions_other _ _ _ noOperator

end Items

/-- No operator stands in front of an item, so there is a text of it. -/
theorem IsItem.length_pos {text : List Char} {item : Pattern} (isItem : IsItem text item) :
    0 < text.length := by
  cases text with
  | nil => cases isItem.begins ['*']
  | cons c tail => exact Nat.succ_pos _

theorem readSequence_items {texts : List (List Char)} {items : List Pattern}
    (areItems : List.Forall₂ IsItem texts items) {fuel : Nat}
    (enough : 5 * texts.flatten.length + 3 ≤ fuel) (position : Nat) :
    ∃ behind, readSequence fuel ⟨position, texts.flatten⟩ = .ok (items, ⟨behind, []⟩) := by
  induction areItems generalizing fuel position with
  | nil =>
      cases fuel with
      | zero => omega
      | succ fuel => exact ⟨position, readSequence_end rfl _ _⟩
  | @cons text item texts items isItem areItems inductionHypothesis =>
      have noOperator : opensOperator texts.flatten = false := by
        cases areItems with
        | nil => rfl
        | cons isNext _ => exact isNext.begins _
      have filled := isItem.length_pos
      rw [List.flatten_cons, List.length_append] at enough
      cases fuel with
      | zero => omega
      | succ fuel =>
          obtain ⟨middle, isFirst⟩ :=
            isItem.reads fuel position texts.flatten (by omega) noOperator
          have enoughLater : 5 * texts.flatten.length + 3 ≤ fuel := by omega
          obtain ⟨behind, areLater⟩ := inductionHypothesis enoughLater middle
          refine ⟨behind, ?_⟩
          rw [List.flatten_cons, isFirst, areLater]
          rfl

/-- Items one behind the other are read as their sequence. -/
theorem parse_items {text : String} {texts : List (List Char)} {items : List Pattern}
    (areItems : List.Forall₂ IsItem texts items) (isText : text.toList = texts.flatten) :
    parse text = .ok (ofSequence items) := by
  have enough : 5 * texts.flatten.length + 3 ≤ 5 * texts.flatten.length + 9 := by omega
  obtain ⟨behind, areRead⟩ := readSequence_items areItems enough 0
  rw [parse_eq_ok_iff, isText]
  refine ⟨[ofSequence items], behind, rfl, ?_⟩
  rw [enoughFuel, readChoice, areRead]
  rfl

theorem parse_item {text : String} {item : Pattern} (isItem : IsItem text.toList item) :
    parse text = .ok item :=
  parse_items (.cons isItem .nil) (by simp)

/-! ## Both sides of a bar -/

/-- A choice without a node of its own has the same texts. -/
theorem language_ofChoice (branches : List Pattern) :
    (ofChoice branches).language = languageOfChoice branches := by
  match branches with
  | [] => rfl
  | [only] =>
      rw [languageOfChoice, languageOfChoice]
      exact (add_zero _).symm
  | first :: second :: rest => rfl

theorem languageOfChoice_append (branches others : List Pattern) :
    languageOfChoice (branches ++ others) =
      languageOfChoice branches + languageOfChoice others := by
  induction branches with
  | nil => exact (zero_add _).symm
  | cons branch rest inductionHypothesis =>
      rw [List.cons_append, languageOfChoice, languageOfChoice, inductionHypothesis, add_assoc]

/-- Both sides of a bar are branches of one choice. -/
theorem parse_bar {left right : String} {leftPattern rightPattern : Pattern}
    (leftParsed : parse left = .ok leftPattern) (rightParsed : parse right = .ok rightPattern) :
    ∃ branches others, leftPattern = ofChoice branches ∧ rightPattern = ofChoice others ∧
      parse (left ++ "|" ++ right) = .ok (ofChoice (branches ++ others)) := by
  obtain ⟨branches, leftPlace, isLeft, leftRead⟩ := parse_eq_ok_iff.mp leftParsed
  obtain ⟨others, rightPlace, isRight, rightRead⟩ := parse_eq_ok_iff.mp rightParsed
  refine ⟨branches, others, isLeft, isRight, ?_⟩
  have isText : (left ++ "|" ++ right).toList = left.toList ++ '|' :: right.toList := by simp
  have grows : enoughFuel (left.toList ++ '|' :: right.toList).length =
      enoughFuel left.toList.length + 5 * (right.toList.length + 1) := by
    rw [List.length_append, List.length_cons, enoughFuel, enoughFuel]
    omega
  obtain ⟨middle, fuel, enough, goesOn⟩ :=
    readChoice_bar leftRead rfl (5 * (right.toList.length + 1)) right.toList 0
  have enoughLeft : enoughFuel right.toList.length ≤ fuel := by
    simp only [enoughFuel] at enough ⊢
    omega
  have noBar : ([] : List Char).head? ≠ some '|' := by simp
  obtain ⟨behind, isChoice⟩ := readChoice_within rightRead rfl noBar enoughLeft middle
  rw [List.append_nil] at isChoice
  rw [parse_eq_ok_iff, isText]
  refine ⟨branches ++ others, behind, rfl, ?_⟩
  rw [grows, goesOn, isChoice]
  rfl

/-! ## Composed expressions -/

section Composed

variable {left right : String} {leftPattern rightPattern : Pattern}

theorem isItem_group (parsed : parse left = .ok leftPattern) :
    IsItem ('(' :: (left.toList ++ [')'])) leftPattern :=
  (isAtom_group parsed).isItem

/-- Expressions that are read can be grouped, repeated, put side by side and united by a
bar, whatever stands in them; and a text without quotes can be quoted. -/
theorem parse_composed (leftParsed : parse left = .ok leftPattern)
    (rightParsed : parse right = .ok rightPattern) :
    parse ("(" ++ left ++ ")") = .ok leftPattern ∧
      parse ("(?:" ++ left ++ ")") = .ok leftPattern ∧
      (∀ repetition : Repetition, AreCounts repetition.least repetition.most →
        parse ("(" ++ left ++ ")" ++ repetition.text) =
          .ok (.repeated leftPattern repetition.least repetition.most)) ∧
      parse ("(" ++ left ++ ")(" ++ right ++ ")") = .ok (.sequence [leftPattern, rightPattern]) ∧
      (∃ pattern, parse (left ++ "|" ++ right) = .ok pattern ∧
        pattern.language = leftPattern.language + rightPattern.language) ∧
      ∀ text : String, '"' ∉ text.toList →
        ∃ pattern, parse ("\"" ++ text ++ "\"") = .ok pattern ∧
          ∀ word, word ∈ pattern.language ↔ word = text.toList := by
  refine ⟨?_, ?_, ?_, ?_, ?_, ?_⟩
  · apply parse_item
    simpa using isItem_group leftParsed
  · apply parse_item
    simpa using (isAtom_markedGroup leftParsed).isItem
  · intro repetition areCounts
    apply parse_item
    simpa using (isAtom_group leftParsed).isItem_repeated areCounts
  · exact parse_items (.cons (isItem_group leftParsed) (.cons (isItem_group rightParsed) .nil))
      (by simp)
  · obtain ⟨branches, others, rfl, rfl, parsed⟩ := parse_bar leftParsed rightParsed
    refine ⟨_, parsed, ?_⟩
    rw [language_ofChoice, languageOfChoice_append, language_ofChoice, language_ofChoice]
  · intro text noQuote
    refine ⟨ofSequence (text.toList.map literal), ?_, ?_⟩
    · apply parse_item
      simpa using (isAtom_quoted noQuote).isItem
    · intro word
      rw [language_ofSequence, mem_languageOfSequence_literals]

/-- A bar and a parenthesis in quotes, or what is neither a hyphen nor a parenthesis. -/
def barInQuotes : String := "\"|)\"|[^)-]+"

/-- The tree of `barInQuotes`. -/
def barInQuotesPattern : Pattern :=
  .choice [.sequence [literal '|', literal ')'],
    .repeated (.oneOf ((CharSet.empty.union (.single ')')).union (.single '-')).compl) 1 none]

theorem parse_barInQuotes : parse barInQuotes = .ok barInQuotesPattern := by cbv

theorem parse_composed_barInQuotes :
    parse barInQuotes = .ok barInQuotesPattern ∧ parse "x|" = .ok (.choice [literal 'x', .empty]) ∧
      parse ("(" ++ barInQuotes ++ ")") = .ok barInQuotesPattern ∧
      parse ("(?:" ++ barInQuotes ++ ")") = .ok barInQuotesPattern ∧
      AreCounts 2 (some 5) ∧
      parse ("(" ++ barInQuotes ++ ")" ++ (Repetition.between 2 5).text) =
        .ok (.repeated barInQuotesPattern 2 (some 5)) ∧
      parse ("(" ++ barInQuotes ++ ")(" ++ "x|" ++ ")") =
        .ok (.sequence [barInQuotesPattern, .choice [literal 'x', .empty]]) ∧
      (∃ pattern, parse (barInQuotes ++ "|" ++ "x|") = .ok pattern ∧
        pattern.language =
          barInQuotesPattern.language + (Pattern.choice [literal 'x', .empty]).language) ∧
      '"' ∉ "(a|\\".toList ∧
      ∃ pattern, parse ("\"" ++ "(a|\\" ++ "\"") = .ok pattern ∧
        ∀ word, word ∈ pattern.language ↔ word = "(a|\\".toList := by
  have rightParsed : parse "x|" = .ok (.choice [literal 'x', .empty]) := by cbv
  have areCounts : AreCounts 2 (some 5) := by simp [AreCounts, repetitionLimit]
  have noQuote : '"' ∉ "(a|\\".toList := by decide
  obtain ⟨group, marked, repeated, beside, united, quoted⟩ :=
    parse_composed parse_barInQuotes rightParsed
  exact ⟨parse_barInQuotes, rightParsed, group, marked, areCounts,
    repeated (.between 2 5) areCounts, beside, united, noQuote, quoted _ noQuote⟩

end Composed

end Pattern

end BodyContract
