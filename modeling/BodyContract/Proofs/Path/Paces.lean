import BodyContract.Proofs.Path.Hop
import BodyContract.Proofs.Path.Places

/-!
# Paths of single steps

A step into an object or an array can be written in several ways: `.name`,
`['name']`, `.['name']`, `[3]` and `.[3]`.  However they are written, steps are
read as the segments that they stand for, and the path selects the value behind
them.  A text that breaks off inside a quoted name, or behind a dot, cannot be
read.
-/

namespace BodyContract

/-- The segment that leads one step on. -/
def Step.segment : Step → Segment
  | .key name => .child name
  | .index position => .element position

/-- A step as it stands between brackets. -/
def Step.bracketed : Step → List Char
  | .key name => '[' :: '\'' :: (escapedFor '\'' name.toList ++ ['\'', ']'])
  | .index position => '[' :: (Nat.toDigits 10 position ++ [']'])

/-- A step in one of the ways to write it. -/
inductive Pace where
  /-- A name behind a dot. -/
  | bare (name : String)
  /-- A quoted name or a position in brackets, perhaps behind a dot. -/
  | bracketed (isDotted : Bool) (step : Step)
deriving DecidableEq, Repr

namespace Pace

/-- The step that is written. -/
def step : Pace → Step
  | .bare name => .key name
  | .bracketed _ step => step

/-- The dot in front of a step. -/
def dot (isDotted : Bool) : List Char := if isDotted then ['.'] else []

/-- The characters of a step. -/
def chars : Pace → List Char
  | .bare name => '.' :: name.toList
  | .bracketed isDotted step => dot isDotted ++ step.bracketed

/-- The characters of steps one behind the other. -/
def charsOf (paces : List Pace) : List Char := paces.flatMap chars

/-- The path of steps from the root. -/
def textOf (paces : List Pace) : String := String.ofList ('$' :: charsOf paces)

/-- The place that steps lead to. -/
def locationOf (paces : List Pace) : Location := paces.map step

/-- The segments that steps are read as. -/
def segmentsOf (paces : List Pace) : List Segment := paces.map fun pace => pace.step.segment

/-- Whether the characters of a step are read as the step. -/
def isReadable (inFilter : Bool) : Pace → Bool
  | .bare name => !name.toList.isEmpty && name.toList.head? != some '*' &&
      name.toList.all fun c => !Path.endsName inFilter c
  | .bracketed _ (.key name) => Path.keepsBackslashes name.toList
  | .bracketed _ (.index position) => position < twoTo 63

/-- A name of letters can stand behind a dot. -/
theorem isReadable_of_letters {name : String} (filled : name ≠ "")
    (letters : name.toList.all Char.isAlpha = true) (inFilter : Bool) :
    (Pace.bare name).isReadable inFilter = true := by
  rw [List.all_eq_true] at letters
  have noStar : name.toList.head? ≠ some '*' := by
    intro isFirst
    exact absurd (letters '*' (List.mem_of_head? isFirst)) (by decide)
  rw [isReadable, Bool.and_eq_true, Bool.and_eq_true, List.all_eq_true]
  refine ⟨⟨?_, ?_⟩, ?_⟩
  · simpa using filled
  · simpa using noStar
  · intro c isIn
    rw [Path.endsName_of_isAlpha inFilter (letters c isIn)]
    rfl

/-- What is read inside a filter is read outside of one. -/
theorem isReadable_outside {pace : Pace} (readable : pace.isReadable true = true) :
    pace.isReadable false = true := by
  cases pace with
  | bracketed isDotted step => cases step <;> exact readable
  | bare name =>
      rw [isReadable, Bool.and_eq_true, List.all_eq_true] at readable ⊢
      refine ⟨readable.1, ?_⟩
      intro c isIn
      have inside := readable.2 c isIn
      rw [Bool.not_eq_true', Path.endsName, Bool.or_eq_false_iff] at inside ⊢
      exact ⟨inside.1, rfl⟩

variable {paces : List Pace}

@[simp]
theorem charsOf_nil : charsOf [] = [] := rfl

theorem charsOf_cons (pace : Pace) (rest : List Pace) :
    charsOf (pace :: rest) = pace.chars ++ charsOf rest := rfl

theorem charsOf_append (front back : List Pace) :
    charsOf (front ++ back) = charsOf front ++ charsOf back := List.flatMap_append

theorem charsOf_concat (front : List Pace) (last : Pace) :
    charsOf (front ++ [last]) = charsOf front ++ last.chars := by
  rw [charsOf_append, charsOf_cons, charsOf_nil, List.append_nil]

theorem toList_textOf (paces : List Pace) : (textOf paces).toList = '$' :: charsOf paces :=
  String.toList_ofList

theorem textOf_nil : textOf [] = "$" := rfl

theorem bracketed_begins (step : Step) : ∃ more, step.bracketed = '[' :: more := by
  cases step with
  | key name => exact ⟨_, rfl⟩
  | index position => exact ⟨_, rfl⟩

/-- A step begins with a character that ends a name. -/
theorem chars_begins (pace : Pace) : ∃ c more, pace.chars = c :: more ∧ (c = '.' ∨ c = '[') := by
  cases pace with
  | bare name => exact ⟨'.', _, rfl, Or.inl rfl⟩
  | bracketed isDotted step =>
      obtain ⟨more, opens⟩ := bracketed_begins step
      cases isDotted with
      | true => exact ⟨'.', step.bracketed, rfl, Or.inl rfl⟩
      | false => exact ⟨'[', more, opens, Or.inr rfl⟩

theorem length_le_length_charsOf (paces : List Pace) : paces.length ≤ (charsOf paces).length := by
  induction paces with
  | nil => exact Nat.le_refl 0
  | cons pace rest inductionHypothesis =>
      obtain ⟨c, more, same, -⟩ := pace.chars_begins
      rw [charsOf_cons, same, List.length_append, List.length_cons, List.length_cons]
      omega

end Pace

namespace Path

open Pace

variable {inFilter : Bool} {paces : List Pace} {rest : List Char}

/-- What ends a bare name and does not ask for a size. -/
def EndsPace (inFilter : Bool) (rest : List Char) : Prop :=
  EndsName inFilter rest ∧ rest.head? ≠ some '('

theorem endsPace_nil (inFilter : Bool) : EndsPace inFilter [] :=
  ⟨stopsAt_nil _, fun impossible => by cases impossible⟩

theorem endsPace_charsOf (ends : EndsPace inFilter rest) (paces : List Pace) :
    EndsPace inFilter (charsOf paces ++ rest) := by
  cases paces with
  | nil => exact ends
  | cons pace others =>
      obtain ⟨c, more, same, isFirst⟩ := pace.chars_begins
      rw [charsOf_cons, same]
      constructor
      · apply stopsAt_cons
        rcases isFirst with rfl | rfl
        · simp [endsName]
        · simp [endsName]
      · rcases isFirst with rfl | rfl
        · simp
        · simp

/-! ## Reading steps -/

theorem readName_append {name : List Char} (filled : name ≠ [])
    (inside : ∀ c ∈ name, endsName inFilter c = false) (ends : EndsName inFilter rest)
    (position : Nat) : ∃ behind,
      readName inFilter ⟨position, name ++ rest⟩ = .ok (String.ofList name, ⟨behind, rest⟩) := by
  have run : ∀ c ∈ name, (!endsName inFilter c) = true := by
    intro c isIn
    rw [inside c isIn]
    rfl
  obtain ⟨behind, spanned⟩ := Cursor.span_append position run ends
  refine ⟨behind, ?_⟩
  rw [readName, spanned]
  simp only [List.isEmpty_iff, if_neg filled]

/-- Nothing asks for a size where no parenthesis is open. -/
theorem eatWord?_size (closed : rest.head? ≠ some '(') (position : Nat) :
    eatWord? "()" ⟨position, rest⟩ = none := by
  cases rest with
  | nil => rfl
  | cons c more =>
      have different : '(' ≠ c := by
        rintro rfl
        exact closed rfl
      simp [eatWord?, different]

theorem readSegments_bare {name : String} (readable : (Pace.bare name).isReadable inFilter = true)
    (ends : EndsPace inFilter rest) (fuel position : Nat) :
    ∃ behind, readSegments (fuel + 2) inFilter ⟨position, (Pace.bare name).chars ++ rest⟩ =
      putFront [.child name] (readSegments fuel inFilter ⟨behind, rest⟩) := by
  rw [isReadable, Bool.and_eq_true, Bool.and_eq_true, bne_iff_ne, List.all_eq_true] at readable
  obtain ⟨⟨filled, noStar⟩, inside⟩ := readable
  simp only [Bool.not_eq_true'] at filled inside
  have notEmpty : name.toList ≠ [] := by
    rw [List.isEmpty_eq_false_iff] at filled
    exact filled
  obtain ⟨behind, read⟩ := readName_append notEmpty inside ends.1 (position + '.'.utf8Size)
  rw [String.ofList_toList] at read
  refine ⟨behind, ?_⟩
  rw [chars]
  cases same : name.toList with
  | nil => exact absurd same notEmpty
  | cons first more =>
      rw [same] at read noStar inside
      have special := inside first List.mem_cons_self
      rw [endsName, Bool.or_eq_false_iff, Bool.or_eq_false_iff, beq_eq_false_iff_ne,
        beq_eq_false_iff_ne] at special
      have notStar : first ≠ '*' := fun isStar => noStar (congrArg some isStar)
      rw [List.cons_append] at read ⊢
      rw [readSegments, List.cons_append]
      simp only [Cursor.skip, read, bind, Except.bind, eatWord?_size ends.2, ite_self]
      simp [special.1.1, special.1.2, notStar, continueWith_succ]

theorem readBracket_step {isDotted : Bool} {step : Step}
    (readable : (Pace.bracketed isDotted step).isReadable inFilter = true) (fuel position : Nat)
    (rest : List Char) : ∃ behind, readBracket (fuel + 1) ⟨position, step.bracketed ++ rest⟩ =
      .ok (step.segment, ⟨behind, rest⟩) := by
  cases step with
  | key name =>
      obtain ⟨behind, read⟩ := readBracket_name readable fuel position rest
      refine ⟨behind, ?_⟩
      rw [Step.bracketed, List.cons_append, List.cons_append, List.append_assoc]
      exact read
  | index index =>
      obtain ⟨behind, read⟩ := readBracket_position (of_decide_eq_true readable) fuel position rest
      refine ⟨behind, ?_⟩
      rw [Step.bracketed, List.cons_append, List.append_assoc]
      exact read

theorem readSegments_pace {pace : Pace} (readable : pace.isReadable inFilter = true)
    (ends : EndsPace inFilter rest) (fuel position : Nat) :
    ∃ behind, readSegments (fuel + 2) inFilter ⟨position, pace.chars ++ rest⟩ =
      putFront [pace.step.segment] (readSegments fuel inFilter ⟨behind, rest⟩) := by
  cases pace with
  | bare name => exact readSegments_bare readable ends fuel position
  | bracketed isDotted step =>
      obtain ⟨more, opens⟩ := bracketed_begins step
      cases isDotted with
      | true =>
          obtain ⟨behind, read⟩ :=
            readBracket_step readable fuel (position + '.'.utf8Size) rest
          rw [opens] at read
          refine ⟨behind, ?_⟩
          rw [chars, opens]
          exact readSegments_dot_bracket inFilter read
      | false =>
          obtain ⟨behind, read⟩ := readBracket_step readable fuel position rest
          rw [opens] at read
          refine ⟨behind, ?_⟩
          rw [chars, opens]
          exact readSegments_bracket inFilter read

/-- Steps are read as the segments that they stand for. -/
theorem readSegments_paces (readable : ∀ pace ∈ paces, pace.isReadable inFilter = true)
    (ends : EndsPace inFilter rest) (fuel position : Nat) :
    ∃ behind, readSegments (fuel + 2 * paces.length) inFilter
        ⟨position, charsOf paces ++ rest⟩ =
      putFront (segmentsOf paces) (readSegments fuel inFilter ⟨behind, rest⟩) := by
  induction paces generalizing position with
  | nil =>
      refine ⟨position, ?_⟩
      cases read : readSegments fuel inFilter ⟨position, rest⟩ with
      | error problem => simp [putFront, read, bind, Except.bind]
      | ok result => simp [putFront, read, bind, Except.bind, segmentsOf]
  | cons pace others inductionHypothesis =>
      obtain ⟨middle, first⟩ := readSegments_pace (readable pace List.mem_cons_self)
        (endsPace_charsOf ends others) (fuel + 2 * others.length) position
      obtain ⟨behind, later⟩ := inductionHypothesis
        (fun other isIn => readable other (List.mem_cons_of_mem pace isIn)) middle
      refine ⟨behind, ?_⟩
      have enough : fuel + 2 * (pace :: others).length = fuel + 2 * others.length + 2 := by
        rw [List.length_cons]
        omega
      rw [enough, charsOf_cons, List.append_assoc, first, later, putFront_putFront]
      rfl

/-- There is enough fuel for steps and what follows them. -/
theorem exists_enoughFuel (paces : List Pace) (rest : List Char) :
    ∃ fuel, enoughFuel ((charsOf paces ++ rest).length + 1) =
      fuel + 8 * rest.length + 24 + 2 * paces.length := by
  have long := length_le_length_charsOf paces
  refine ⟨8 * (charsOf paces).length - 2 * paces.length, ?_⟩
  rw [enoughFuel, List.length_append]
  omega

theorem parse_textOf (readable : ∀ pace ∈ paces, pace.isReadable false = true) :
    parse (textOf paces) = .ok ⟨textOf paces, segmentsOf paces⟩ := by
  obtain ⟨fuel, enough⟩ := exists_enoughFuel paces []
  obtain ⟨behind, read⟩ := readSegments_paces readable (endsPace_nil false) (fuel + 23 + 1)
    '$'.utf8Size
  rw [readSegments_end (stopsAt_nil _), putFront_ok, List.append_nil, List.append_nil] at read
  rw [List.append_nil] at enough
  apply readSegmentsOf_root (toList_textOf paces)
  rw [enough]
  exact read

/-! ## Texts that break off -/

/-- Whether a text cannot be read. -/
def IsUnreadable (text : String) : Prop := ∃ problem, parse text = .error problem

/-- What cannot be read behind the root cannot be read as a path. -/
theorem parse_of_readSegments_error {text : String} {chars : List Char}
    (same : text.toList = '$' :: chars) {problem : PathProblem}
    (read : readSegments (enoughFuel (chars.length + 1)) false ⟨'$'.utf8Size, chars⟩ =
      .error problem) : parse text = .error (problem.inPath text) := by
  have start : (Cursor.ofString text).eat? '$' = some ⟨'$'.utf8Size, chars⟩ := by
    rw [Cursor.ofString, same]
    simp [Cursor.eat?, Cursor.peek?, Cursor.skip]
  have length : (Cursor.ofString text).rest.length = chars.length + 1 := by
    rw [Cursor.ofString, same, List.length_cons]
  rw [parse, readSegmentsOf]
  simp only [start, length, read, bind, Except.bind]

/-- What follows steps makes a path unreadable if it cannot be read. -/
theorem isUnreadable_of_end (readable : ∀ pace ∈ paces, pace.isReadable false = true)
    (ends : EndsPace false rest)
    (broken : ∀ fuel position, ∃ problem,
      readSegments (fuel + 2) false ⟨position, rest⟩ = .error problem) :
    IsUnreadable (String.ofList ('$' :: (charsOf paces ++ rest))) := by
  obtain ⟨fuel, enough⟩ := exists_enoughFuel paces rest
  obtain ⟨behind, read⟩ := readSegments_paces readable ends (fuel + 8 * rest.length + 24)
    '$'.utf8Size
  obtain ⟨problem, isBroken⟩ := broken (fuel + 8 * rest.length + 22) behind
  rw [isBroken, ← enough] at read
  exact ⟨_, parse_of_readSegments_error String.toList_ofList read⟩

/-- A path does not end with a dot. -/
theorem isUnreadable_of_dot (readable : ∀ pace ∈ paces, pace.isReadable false = true) :
    IsUnreadable (String.ofList ('$' :: (charsOf paces ++ ['.']))) := by
  apply isUnreadable_of_end readable
  · exact ⟨stopsAt_cons (by simp [endsName]) [], by simp⟩
  · intro fuel position
    refine ⟨.malformed (position + '.'.utf8Size) .expectedName, ?_⟩
    rw [readSegments]
    rfl

/-- A quoted text has to be closed. -/
theorem readQuotedAux_unclosed {front back : List Char}
    (readable : keepsBackslashes (front ++ back) = true) (read : List Char) (position : Nat) :
    ∃ problem, readQuotedAux '\'' position read (escapedFor '\'' front) = .error problem := by
  induction front using keepsBackslashes.induct generalizing read position with
  | case1 => exact ⟨_, rfl⟩
  | case2 => exact ⟨_, rfl⟩
  | case3 c name inductionHypothesis =>
      simp only [List.cons_append, keepsBackslashes, Bool.and_eq_true, bne_iff_ne, ne_eq]
        at readable
      obtain ⟨⟨noBackslash, noQuote⟩, readable⟩ := readable
      have first : escapedFor '\'' ('\\' :: c :: name) = '\\' :: c :: escapedFor '\'' name := by
        simp [escapedFor, noQuote]
      rw [first, readQuotedAux_kept _ _ noQuote noBackslash]
      exact inductionHypothesis readable _ _
  | case4 c name noEnd noEscape inductionHypothesis =>
      have noBackslash := ne_backslash noEnd noEscape
      have later : keepsBackslashes (name ++ back) = true := by
        rw [List.cons_append, keepsBackslashes] at readable
        · exact readable
        · intro same
          exact absurd same noBackslash
        · intro other more same
          exact absurd same noBackslash
      by_cases quote : c = '\''
      · have first : escapedFor '\'' (c :: name) = '\\' :: c :: escapedFor '\'' name := by
          simp [escapedFor, quote]
        rw [first, readQuotedAux_escaped _ _ (Or.inl quote)]
        exact inductionHypothesis later _ _
      · have first : escapedFor '\'' (c :: name) = c :: escapedFor '\'' name := by
          simp [escapedFor, quote]
        rw [first, readQuotedAux_plain _ _ quote noBackslash]
        exact inductionHypothesis later _ _

theorem readBracket_unclosed {front back : List Char}
    (readable : keepsBackslashes (front ++ back) = true) (fuel position : Nat) :
    ∃ problem, readBracket (fuel + 1) ⟨position, '[' :: '\'' :: escapedFor '\'' front⟩ =
      .error problem := by
  obtain ⟨problem, broken⟩ := readQuotedAux_unclosed readable []
    (position + '['.utf8Size + '\''.utf8Size)
  refine ⟨problem, ?_⟩
  rw [readBracket, expect_self]
  simp only [bind, Except.bind]
  rw [skipBlanks_visible (by decide)]
  simp [Cursor.peek?, Cursor.skip, readQuoted, broken]

/-- A path does not end inside a quoted name. -/
theorem isUnreadable_of_quote (readable : ∀ pace ∈ paces, pace.isReadable false = true)
    {front back : List Char} (name : keepsBackslashes (front ++ back) = true) (isDotted : Bool) :
    IsUnreadable (String.ofList
      ('$' :: (charsOf paces ++ (dot isDotted ++ '[' :: '\'' :: escapedFor '\'' front)))) := by
  apply isUnreadable_of_end readable
  · cases isDotted with
    | true => exact ⟨stopsAt_cons (by simp [endsName]) _, by simp [dot]⟩
    | false => exact ⟨stopsAt_cons (by simp [endsName]) _, by simp [dot]⟩
  · intro fuel position
    cases isDotted with
    | true =>
        obtain ⟨problem, broken⟩ := readBracket_unclosed name fuel (position + '.'.utf8Size)
        refine ⟨problem, ?_⟩
        rw [dot, if_pos rfl, List.singleton_append, readSegments]
        simp only [Cursor.skip, broken, bind, Except.bind]
    | false =>
        obtain ⟨problem, broken⟩ := readBracket_unclosed name fuel position
        refine ⟨problem, ?_⟩
        rw [dot, if_neg Bool.false_ne_true, List.nil_append, readSegments]
        simp only [broken, bind, Except.bind]

end Path

/-! ## What steps lead to -/

theorem Node.place?_natCast (length position : Nat) :
    Node.place? length (position : Int) = some position := by
  rw [Node.place?, if_pos (Int.natCast_nonneg position), Int.toNat_natCast]

theorem select_step (document : Json) (step : Step) (node : Node) :
    select document step.segment node =
      (node.value.step? step).toList.map fun value => node.behind step value := by
  cases step with
  | key name =>
      rw [Step.segment, select, Node.child, Json.step?]
      cases node.value.member? name <;> rfl
  | index position =>
      rw [Step.segment, select, Node.element, Json.step?]
      cases node.value with
      | array elements =>
          dsimp only
          rw [Node.place?_natCast, Json.element?]
          dsimp only
          cases elements[position]? <;> rfl
      | _ => rfl

open Pace

variable {paces : List Pace}

theorem selectAll_segmentsOf (document : Json) (paces : List Pace) (start : Location)
    (value : Json) : selectAll document (segmentsOf paces) [⟨start, value⟩] =
      (value.valueAt? (locationOf paces)).toList.map fun last =>
        ⟨start ++ locationOf paces, last⟩ := by
  induction paces generalizing start value with
  | nil =>
      rw [locationOf, List.map_nil, List.append_nil]
      rfl
  | cons pace rest inductionHypothesis =>
      have same : segmentsOf (pace :: rest) = pace.step.segment :: segmentsOf rest := rfl
      have further : locationOf (pace :: rest) = pace.step :: locationOf rest := rfl
      rw [same, further, selectAll, List.flatMap_singleton, select_step, Json.valueAt?,
        Option.bind_eq_bind]
      cases value.step? pace.step with
      | none =>
          rw [Option.toList_none, List.map_nil, selectAll_eq_flatMap]
          rfl
      | some next =>
          have follows := inductionHypothesis (start ++ [pace.step]) next
          rw [List.append_assoc, List.singleton_append] at follows
          exact follows

theorem isDefinite_segmentsOf (paces : List Pace) : areDefinite (segmentsOf paces) = true := by
  rw [areDefinite, List.all_eq_true]
  intro segment isIn
  obtain ⟨pace, -, rfl⟩ := List.mem_map.mp isIn
  cases pace.step <;> rfl

variable {document value : Json}

/-- What is read at a path of steps is the value behind them. -/
theorem readElement_textOf_eq_ok_iff (readable : ∀ pace ∈ paces, pace.isReadable false = true) :
    document.readElement (textOf paces) = .ok value ↔
      document.valueAt? (locationOf paces) = some value := by
  rw [Json.readElement, Path.parse_textOf readable]
  simp only [bind, Except.bind, Path.isDefinite, isDefinite_segmentsOf, if_true, Path.evaluate,
    Path.nodes, selectAll_segmentsOf]
  cases document.valueAt? (locationOf paces) <;> simp

/-- A path of steps selects the place behind them if there is one. -/
theorem removed_textOf_eq_true_iff {location : Location} :
    (Path.mk (textOf paces) (segmentsOf paces)).removed document location = true ↔
      location = locationOf paces ∧ (document.valueAt? location).isSome ∧ location ≠ [] := by
  rw [Path.removed_eq_true_iff, Path.locate, Path.nodes, selectAll_segmentsOf]
  constructor
  · rintro ⟨isIn, notRoot⟩
    simp only [List.map_map, List.mem_map, Option.mem_toList, List.nil_append, Function.comp]
      at isIn
    obtain ⟨value, isThere, rfl⟩ := isIn
    refine ⟨rfl, ?_, notRoot⟩
    rw [isThere]
    rfl
  · rintro ⟨rfl, isThere, notRoot⟩
    obtain ⟨value, isValue⟩ := Option.isSome_iff_exists.mp isThere
    refine ⟨?_, notRoot⟩
    rw [isValue]
    exact List.mem_singleton_self _

end BodyContract
