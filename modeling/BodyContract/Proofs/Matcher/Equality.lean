import BodyContract.Proofs.Matcher.Conversion
import BodyContract.Proofs.Matcher.Emptied
import BodyContract.Proofs.Path.Quotes
import BodyContract.Proofs.Placeholder.Generation

/-!
# Equality with the expected body

The filter of a matcher for equality compares with the value of the expected body.  A
number stands in it as it is; anything else stands between single quotes, with nothing
in it escaped.  So the filter selects the very value that it was taken from if that is
a number, or a text that is read from between quotes as it is.  Null and the truth
values are read as texts, which they do not equal; a text loses those of its backslashes
that are read as marks of escapes, and a quote inside ends it.
-/

namespace BodyContract

/-! ## Bodies without markers -/

namespace Placeholder

mutual

/-- Without markers there is nothing to fill in. -/
theorem fill_of_isUnmarked {body : Json} (unmarked : body.isUnmarked = true) :
    fill body = .ok body := by
  cases body with
  | array elements =>
      rw [Json.isUnmarked] at unmarked
      exact fill_array (fillElements_of_areUnmarked unmarked)
  | object members =>
      have noMarker := Json.markedPattern?_eq_none_iff.mpr (Json.isMarker_of_isUnmarked unmarked)
      rw [Json.isUnmarked, Bool.and_eq_true] at unmarked
      exact fill_object noMarker (fillMembers_of_areMembersUnmarked unmarked.2)
  | _ => rfl

theorem fillElements_of_areUnmarked {elements : List Json}
    (unmarked : Json.areUnmarked elements = true) : fillElements elements = .ok elements := by
  match elements with
  | [] => rfl
  | element :: rest =>
      rw [Json.areUnmarked, Bool.and_eq_true] at unmarked
      exact fillElements_cons (fill_of_isUnmarked unmarked.1)
        (fillElements_of_areUnmarked unmarked.2)

theorem fillMembers_of_areMembersUnmarked {members : List (String × Json)}
    (unmarked : Json.areMembersUnmarked members = true) : fillMembers members = .ok members := by
  match members with
  | [] => rfl
  | (name, value) :: rest =>
      rw [Json.areMembersUnmarked, Bool.and_eq_true] at unmarked
      exact fillMembers_cons (fill_of_isUnmarked unmarked.1)
        (fillMembers_of_areMembersUnmarked unmarked.2)

end

end Placeholder

namespace Matcher

open BodyContract.Path

/-! ## What the filter compares with -/

/-- The values that a filter for equality holds or is refused for: no containers, no numbers
that are read as other ones, and no texts behind a quote of which a filter goes on. -/
inductive IsComparable : Json → Prop where
  | null : IsComparable .null
  | bool (flag : Bool) : IsComparable (.bool flag)
  | number {number : Number} (readsBack : number.ReadsBack) : IsComparable (.number number)
  | string {text : String} (shut : IsShut text.toList) : IsComparable (.string text)

/-- Whether a value equals what is read where it is written. -/
def equalsItsText : Json → Bool
  | .number _ => true
  | .string text => !text.toList.contains '\'' && keepsBackslashes text.toList
  | _ => false

variable {value : Json}

theorem answers_comparedText {text : String} (shut : IsShut text.toList) :
    Answers ("'" ++ text ++ "'").toList fun position =>
      (quotedLiteral text.toList position).map .literal := by
  have chars : ("'" ++ text ++ "'").toList = '\'' :: (text.toList ++ ['\'']) := by simp
  rw [chars]
  exact answers_quoted shut

theorem not_equals_quotedLiteral (different : ∀ text, value.equalsInFilter (.string text) = false)
    (text : List Char) (position : Nat) :
    ¬∃ read, quotedLiteral text position = .ok read ∧ value.equalsInFilter read = true := by
  rintro ⟨read, isRead, equal⟩
  obtain ⟨name, -, -, -, -, rfl⟩ := quotedLiteral_eq_ok_iff.mp isRead
  rw [different name] at equal
  cases equal

/-- What a value is written as is read as a literal, or refused.  The value equals the
literal exactly if it is a number, or a text without quotes whose backslashes stay. -/
theorem IsComparable.exists_literal (comparable : IsComparable value) :
    ∃ literal : Nat → Except PathProblem Json,
      Answers (comparedText value).toList (fun position => (literal position).map .literal) ∧
      ∀ position, (∃ read, literal position = .ok read ∧ value.equalsInFilter read = true) ↔
        equalsItsText value = true := by
  cases comparable with
  | null =>
      have shut : IsShut Json.null.render.toList := isShut_of_notMem (by decide)
      refine ⟨_, answers_comparedText shut, ?_⟩
      intro position
      exact iff_of_false (not_equals_quotedLiteral (fun _ => rfl) _ position) Bool.false_ne_true
  | bool flag =>
      have shut : IsShut (Json.bool flag).render.toList :=
        isShut_of_notMem (by cases flag <;> decide)
      refine ⟨_, answers_comparedText shut, ?_⟩
      intro position
      exact iff_of_false (not_equals_quotedLiteral (fun _ => rfl) _ position) Bool.false_ne_true
  | @number number readsBack =>
      obtain ⟨other, read, equal⟩ := readsBack
      have literal := readsAs_literal (LiteralReads.number read)
      refine ⟨fun _ => .ok (.number other), literal.answers, ?_⟩
      intro position
      refine ⟨fun _ => rfl, fun _ => ⟨_, rfl, ?_⟩⟩
      rw [Json.equalsInFilter, equal]
      rfl
  | @string text shut =>
      refine ⟨_, answers_comparedText shut, ?_⟩
      intro position
      have isItself : equalsItsText (.string text) = true ↔
          quotedLiteral text.toList position = .ok (.string text) := by
        have reads := quotedLiteral_iff shut position
        rw [String.ofList_toList] at reads
        rw [reads, equalsItsText]
        simp
      rw [isItself]
      constructor
      · rintro ⟨read, isRead, equal⟩
        obtain ⟨name, -, -, -, -, rfl⟩ := quotedLiteral_eq_ok_iff.mp isRead
        have same : text = name := by
          simpa [Json.equalsInFilter, Json.same] using equal
        rw [isRead, same]
      · intro isRead
        exact ⟨_, isRead, by simp [Json.equalsInFilter, Json.same]⟩

/-! ## Paths of names -/

/-- The path of names behind dots. -/
def namePath (names : List String) : String := Pace.textOf (names.map Pace.bare)

theorem valueAt?_bare (document : Json) (names : List String) :
    document.valueAt? (Pace.locationOf (names.map .bare)) = document.at? names := by
  have location : Pace.locationOf (names.map .bare) = names.map Step.key := by
    simp [Pace.locationOf, Pace.step]
  rw [location, Json.at?_eq_valueAt?]

theorem isReadable_outside_of_names {names : List String}
    (readable : ∀ name ∈ names, (Pace.bare name).isReadable true = true) :
    ∀ pace ∈ names.map Pace.bare, pace.isReadable false = true := by
  intro pace isIn
  obtain ⟨name, isName, rfl⟩ := List.mem_map.mp isIn
  exact Pace.isReadable_outside (readable name isName)

theorem isCut_namePath {front : List String} {last : String}
    (readable : ∀ name ∈ front ++ [last], (Pace.bare name).isReadable true = true) :
    IsCut (namePath (front ++ [last])) ⟨namePath front, Pace.segmentsOf (front.map .bare)⟩
      (Pace.segmentsOf [.bare last]) := by
  have readableLast : (Pace.bare last).isReadable true = true :=
    readable last (List.mem_append_right front (List.mem_singleton_self last))
  have readableFront := isReadable_outside_of_names fun name isIn =>
    readable name (List.mem_append_left [last] isIn)
  have free : ∀ {name : String} {c : Char}, (Pace.bare name).isReadable true = true →
      endsName false c = true → c ∉ name.toList :=
    fun isReadable special => Pace.notMem_of_bare (Pace.isReadable_outside isReadable) special
  have chars : (namePath (front ++ [last])).toList =
      ('$' :: Pace.charsOf (front.map .bare)) ++ '.' :: last.toList := by
    rw [namePath, Pace.toList_textOf, List.map_append, List.map_singleton, Pace.charsOf_concat]
    rfl
  have noBracket : '[' ∉ (namePath (front ++ [last])).toList := by
    rw [namePath, Pace.toList_textOf, List.mem_cons, not_or]
    refine ⟨by decide, ?_⟩
    intro isIn
    obtain ⟨pace, isPace, isInside⟩ := List.mem_flatMap.mp isIn
    obtain ⟨name, isName, rfl⟩ := List.mem_map.mp isPace
    rcases List.mem_cons.mp isInside with impossible | isInName
    · exact absurd impossible (by decide)
    · exact free (readable name isName) (by decide) isInName
  have split : splitLastStep? (namePath (front ++ [last])).toList =
      some ('$' :: Pace.charsOf (front.map .bare), last.toList) := by
    rw [splitLastStep?, splitAtLast?_of_notMem noBracket]
    dsimp only
    rw [chars, splitAtLast?_separator (free readableLast (by decide))]
    rfl
  have known : stepsInFilter? ('.' :: last.toList) = some (Pace.segmentsOf [.bare last]) := by
    have isKnown := @stepsInFilter?_charsOf [.bare last] (by simpa using readableLast)
    rw [Pace.charsOf_cons, Pace.charsOf_nil, List.append_nil] at isKnown
    exact isKnown
  exact .behindDot split (parse_textOf readableFront) known (isDefinite_segmentsOf _)

/-- A path of names is cut in front of its last name, and what stands there is no array
if the name leads on. -/
theorem exists_isCut_namePath {names : List String}
    (readable : ∀ name ∈ names, (Pace.bare name).isReadable true = true) {body : Json}
    (leads : body.at? names = some value)
    (notArray : names = [] → ∀ elements, value ≠ .array elements) :
    ∃ base steps holder, IsCut (namePath names) base steps ∧ base.evaluate body = [holder] ∧
      holder.items = [holder] ∧ Json.behind? steps holder = some value := by
  rcases List.eq_nil_or_concat' names with rfl | ⟨front, last, rfl⟩
  · cases leads
    exact ⟨_, _, value, .root, rfl, Json.items_of_not_array (notArray rfl), rfl⟩
  · rw [Chains.at?_append] at leads
    obtain ⟨holder, isHolder, isMember⟩ := Option.bind_eq_some_iff.mp leads
    have isValue : holder.member? last = some value := by
      rw [Json.at?_cons] at isMember
      obtain ⟨found, isFound, same⟩ := Option.bind_eq_some_iff.mp isMember
      cases same
      exact isFound
    refine ⟨_, _, holder, isCut_namePath readable, ?_, ?_, ?_⟩
    · rw [Path.evaluate, Path.nodes, selectAll_segmentsOf, valueAt?_bare, isHolder]
      rfl
    · apply Json.items_of_not_array
      rintro elements rfl
      cases isValue
    · have steps : Pace.segmentsOf [.bare last] = [.child last] := rfl
      rw [steps, Json.behind?, Segment.next?, isValue]
      rfl

/-! ## Selecting the value again -/

variable {steps : List Segment}

theorem evaluate_equal_ne_nil_iff (definite : areDefinite steps = true) (text : String)
    (base : Path) (literal document : Json) :
    (Path.mk text (base.segments ++ [.filter
        (.compares (.current steps false) .equal (.literal literal))])).evaluate document ≠ [] ↔
      ∃ holder ∈ base.evaluate document, ∃ item ∈ holder.items, ∃ found,
        Json.behind? steps item = some found ∧ found.equalsInFilter literal = true := by
  have held : ∀ item, holds document (.compares (.current steps false) .equal (.literal literal))
      item = true ↔
        ∃ found, Json.behind? steps item = some found ∧ found.equalsInFilter literal = true := by
    intro item
    rw [holds, resolve?_definite definite, resolve?]
    · cases Json.behind? steps item with
      | none => simp
      | some found => simp [Comparison.holds]
    · intro pattern same
      cases same
  rw [evaluate_filter_ne_nil_iff text base.text]
  simp only [held]

variable {matcher : Matcher}

/-- The condition of a matcher for equality compares with the value of the body. -/
theorem condition?_of_equality (isEquality : matcher.rule = .equality) {body : Json}
    (unmarked : body.isUnmarked = true) (isValue : body.readElement matcher.path = .ok value)
    (operand : String) :
    matcher.condition? operand (some body) =
      .ok (some (operand ++ " " ++ Comparison.equal.sign ++ " " ++ comparedText value)) := by
  have written : operand ++ " == " ++ comparedText value =
      operand ++ " " ++ Comparison.equal.sign ++ " " ++ comparedText value := by
    apply String.toList_injective
    simp [Comparison.sign]
  rw [condition?, isEquality, ← written]
  simp [equalityCondition, Placeholder.fill_of_isUnmarked unmarked, isValue, bind, Except.bind]

/-- Where a value is written as something that is read as a literal, or refused, the
filter selects it again exactly if it is read as a literal that the value equals. -/
theorem selects_iff_of_answers (isEquality : matcher.rule = .equality) {names : List String}
    (isPath : matcher.path = namePath names)
    (readable : ∀ name ∈ names, (Pace.bare name).isReadable true = true) {body : Json}
    (unmarked : body.isUnmarked = true) (leads : body.at? names = some value)
    (notArray : ∀ elements, value ≠ .array elements) {literal : Nat → Except PathProblem Json}
    (answers : Answers (comparedText value).toList fun position =>
      (literal position).map .literal) :
    ∃ text start, matcher.conditionPath (some body) = .ok text ∧
      ((∃ path, Path.parse text = .ok path ∧ path.evaluate body ≠ []) ↔
        ∃ read, literal start = .ok read ∧ value.equalsInFilter read = true) := by
  have isValue : body.readElement matcher.path = .ok value := by
    rw [isPath, namePath, readElement_textOf_eq_ok_iff (isReadable_outside_of_names readable),
      valueAt?_bare]
    exact leads
  obtain ⟨base, steps, holder, cut, isHolder, itself, isBehind⟩ :=
    exists_isCut_namePath readable leads fun _ => notArray
  rw [← isPath] at cut
  obtain ⟨text, front, inside, written, isFront, known, same⟩ :=
    cut.exists_conditionPath (condition?_of_equality isEquality unmarked isValue)
  have fits : Fits .equal (comparedText value).toList := by
    intro impossible
    cases impossible
  obtain ⟨start, parsed⟩ := parse_append_comparing isFront known answers fits same
  refine ⟨text, start, written, ?_⟩
  rw [parsed]
  cases literal start with
  | error problem => simp [Except.map, Except.mapError]
  | ok read =>
      have selects := evaluate_equal_ne_nil_iff cut.definite text base read body
      rw [isHolder] at selects
      simp only [List.mem_singleton, exists_eq_left, itself, isBehind, Option.some.injEq,
        exists_eq_left'] at selects
      simp [Except.map, Except.mapError, selects]

/-- A matcher for equality on names that lead to a comparable value is turned into a
path.  This path can be read and selects something in the body that the value was taken
from exactly if the value is a number, or a text without quotes in which no backslash
stands in front of another one or at the end. -/
theorem equality_selects_iff (isEquality : matcher.rule = .equality) {names : List String}
    (isPath : matcher.path = namePath names)
    (readable : ∀ name ∈ names, (Pace.bare name).isReadable true = true) {body : Json}
    (unmarked : body.isUnmarked = true) (leads : body.at? names = some value)
    (comparable : IsComparable value) :
    ∃ text, matcher.conditionPath (some body) = .ok text ∧
      ((∃ path, Path.parse text = .ok path ∧ path.evaluate body ≠ []) ↔
        equalsItsText value = true) := by
  have notArray : ∀ elements, value ≠ .array elements := by
    rintro elements rfl
    cases comparable
  obtain ⟨literal, answers, equals⟩ := comparable.exists_literal
  obtain ⟨text, start, written, selects⟩ :=
    selects_iff_of_answers isEquality isPath readable unmarked leads notArray answers
  exact ⟨text, written, selects.trans (equals start)⟩

/-- A body with a number, a truth value and a text. -/
def mixedBody : Json :=
  .object [("a", .object [("n", .int 5), ("t", .bool true), ("s", .string "x")])]

theorem areLetters_isReadable {names : List String}
    (letters : ∀ name ∈ names, name ≠ "" ∧ name.toList.all Char.isAlpha = true) :
    ∀ name ∈ names, (Pace.bare name).isReadable true = true :=
  fun name isIn => Pace.isReadable_of_letters (letters name isIn).1 (letters name isIn).2 true

theorem nestedNumber_selected : ∃ text,
    (byEquality "$.a.n").conditionPath (some mixedBody) = .ok text ∧
      ∃ path, Path.parse text = .ok path ∧ path.evaluate mixedBody ≠ [] := by
  have whole : (Number.int 5).IsWhole := by
    rw [Number.IsWhole]
    decide
  obtain ⟨text, written, selects⟩ := @equality_selects_iff _ (byEquality "$.a.n") rfl ["a", "n"]
    (by decide) (areLetters_isReadable (by decide)) mixedBody (by decide) rfl
    (.number (Number.readsBack_of_isWhole whole))
  exact ⟨text, written, selects.mpr rfl⟩

/-- The filter for a truth value does not select it. -/
theorem nestedTruth_not_selected :
    mixedBody.isUnmarked = true ∧ mixedBody.at? ["a", "t"] = some (.bool true) ∧
    ∃ text, (byEquality "$.a.t").conditionPath (some mixedBody) = .ok text ∧
      ¬∃ path, Path.parse text = .ok path ∧ path.evaluate mixedBody ≠ [] := by
  have shut : IsShut (Json.bool true).render.toList := isShut_of_notMem (by decide)
  obtain ⟨text, start, written, selects⟩ := @selects_iff_of_answers _ (byEquality "$.a.t") rfl
    ["a", "t"] (by decide) (areLetters_isReadable (by decide)) mixedBody (by decide) rfl
    (fun _ => by simp) _ (answers_comparedText shut)
  refine ⟨by decide, rfl, text, written, ?_⟩
  rw [selects]
  exact not_equals_quotedLiteral (fun _ => rfl) _ start

end Matcher

end BodyContract
