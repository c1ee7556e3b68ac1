import BodyContract.Proofs.Matcher.Equality
import BodyContract.Proofs.Path.Sizes
import BodyContract.Verification

/-!
# Matchers for a type

A matcher for a type asks for the size of the value at its path if it has bounds, and
without bounds only for a value to be there.  It compares no types: a value of another
type than the expected one passes if its size, where it has one, lies within the bounds.
-/

namespace BodyContract

/-- Whether a value has a size within bounds; without bounds any value will do. -/
def Json.isWithin (least most : Option Nat) (value : Json) : Bool :=
  (least.isNone && most.isNone) ||
    value.size?.any fun size => least.all (fun bound => decide (bound ≤ size)) &&
      most.all fun bound => decide (size ≤ bound)

namespace Matcher

open BodyContract.Path

variable {matcher : Matcher}

/-! ## Conditions for sizes -/

/-- Where nothing is asked of the bounds there are none. -/
theorem isNone_of_asked_eq_nil {α : Type} {least most : Option Nat} {atLeast atMost : Nat → α}
    (isEmpty : (least.map atLeast).toList ++ (most.map atMost).toList = []) :
    (least.isNone && most.isNone) = true := by
  rw [List.append_eq_nil_iff, Option.toList_eq_nil_iff, Option.toList_eq_nil_iff,
    Option.map_eq_none_iff, Option.map_eq_none_iff] at isEmpty
  rw [isEmpty.1, isEmpty.2]
  rfl

/-- The comparisons of a size with the bounds of a matcher. -/
def sizeClauses (matcher : Matcher) (inside : List Char) (steps : List Segment) : List Clause :=
  (matcher.leastSize.map (Clause.ofSize inside steps .greaterOrEqual)).toList ++
    (matcher.mostSize.map (Clause.ofSize inside steps .lessOrEqual)).toList

theorem sizeConditions_eq (inside : List Char) (steps : List Segment) :
    matcher.sizeConditions ("@" ++ String.ofList inside) =
      (matcher.sizeClauses inside steps).map Clause.text := by
  rw [sizeConditions, sizeClauses, List.map_append]
  cases matcher.leastSize <;> cases matcher.mostSize <;> rfl

theorem toList_intercalate_both (first : Clause) (rest : List Clause) :
    (String.intercalate " && " ((first :: rest).map Clause.text)).toList =
      first.text.toList ++ bothChars rest := by
  induction rest generalizing first with
  | nil => simp [bothChars]
  | cons next others inductionHypothesis =>
      have joined := inductionHypothesis next
      rw [List.map_cons] at joined
      rw [List.map_cons, List.map_cons, String.intercalate_cons_cons, String.toList_append,
        String.toList_append, joined]
      simp [bothChars]

theorem length_le_bothChars (rest : List Clause) : rest.length ≤ (bothChars rest).length := by
  rw [bothChars, List.length_flatMap]
  induction rest with
  | nil => rfl
  | cons clause others inductionHypothesis =>
      rw [List.map_cons, List.sum_cons]
      simp only [List.length_cons] at inductionHypothesis ⊢
      omega

variable {inside : List Char} {steps : List Segment} {clause : Clause}

/-- The clauses of a matcher compare a size with its bounds. -/
theorem mem_sizeClauses_iff : clause ∈ matcher.sizeClauses inside steps ↔
    (∃ bound, matcher.leastSize = some bound ∧
        Clause.ofSize inside steps .greaterOrEqual bound = clause) ∨
      ∃ bound, matcher.mostSize = some bound ∧
        Clause.ofSize inside steps .lessOrEqual bound = clause := by
  rw [sizeClauses, List.mem_append, Option.mem_toList, Option.mem_toList,
    Option.map_eq_some_iff, Option.map_eq_some_iff]

theorem standsAlone_of_mem_sizeClauses (known : stepsInFilter? inside = some steps)
    (smallLeast : ∀ bound ∈ matcher.leastSize, bound < twoTo 64)
    (smallMost : ∀ bound ∈ matcher.mostSize, bound < twoTo 64)
    (member : clause ∈ matcher.sizeClauses inside steps) :
    clause.StandsAlone (8 * inside.length + 3) := by
  rcases mem_sizeClauses_iff.mp member with ⟨bound, isBound, rfl⟩ | ⟨bound, isBound, rfl⟩
  · exact Clause.standsAlone_ofSize known (by decide) (smallLeast bound isBound)
  · exact Clause.standsAlone_ofSize known (by decide) (smallMost bound isBound)

theorem length_inside_le (member : clause ∈ matcher.sizeClauses inside steps) :
    inside.length + 1 ≤ clause.text.toList.length := by
  rcases mem_sizeClauses_iff.mp member with ⟨bound, -, rfl⟩ | ⟨bound, -, rfl⟩
  · rw [Clause.toList_ofSize, List.length_cons, List.length_append]
    omega
  · rw [Clause.toList_ofSize, List.length_cons, List.length_append]
    omega

/-- All comparisons with the bounds hold exactly if the size lies within them. -/
theorem holds_sizeClauses_iff (definite : areDefinite steps = true) {document value found : Json}
    (leads : Json.behind? steps value = some found)
    (bounded : (matcher.leastSize.isNone && matcher.mostSize.isNone) = false) :
    (∀ clause ∈ matcher.sizeClauses inside steps, holds document clause.condition value = true) ↔
      found.isWithin matcher.leastSize matcher.mostSize = true := by
  have atLeast : ∀ bound, holds document
      (Clause.ofSize inside steps .greaterOrEqual bound).condition value = true ↔
        ∃ size, found.size? = some size ∧ bound ≤ size := by
    intro bound
    rw [holds_ofSize_iff definite (by decide), leads, Option.bind_some]
    simp only [greaterOrEqual_holds_int, Int.ofNat_le]
  have atMost : ∀ bound, holds document
      (Clause.ofSize inside steps .lessOrEqual bound).condition value = true ↔
        ∃ size, found.size? = some size ∧ size ≤ bound := by
    intro bound
    rw [holds_ofSize_iff definite (by decide), leads, Option.bind_some]
    simp only [lessOrEqual_holds_int, Int.ofNat_le]
  rw [Json.isWithin, bounded, Bool.false_or, sizeClauses]
  cases least : matcher.leastSize <;> cases most : matcher.mostSize
  · rw [least, most] at bounded
    cases bounded
  all_goals cases size : found.size? <;> simp [atLeast, atMost, size]

/-! ## Paths for a type -/

variable {base : Path}

/-- Without bounds a matcher for a type asks only for a value at its path. -/
theorem conditionPath_of_unbounded (isType : matcher.rule = .sameType)
    (unbounded : (matcher.leastSize.isNone && matcher.mostSize.isNone) = true)
    (body : Option Json) :
    matcher.conditionPath body = .ok matcher.path := by
  rw [Bool.and_eq_true, Option.isNone_iff_eq_none, Option.isNone_iff_eq_none] at unbounded
  have none : ∀ operand, matcher.condition? operand body = .ok none := by
    intro operand
    rw [condition?, isType, sizeConditions, unbounded.1, unbounded.2]
    rfl
  rw [conditionPath]
  simp only [none]
  rfl

/-- With bounds a matcher for a type is turned into its front with a filter for the size. -/
theorem IsCut.parse_of_bounded (cut : IsCut matcher.path base steps)
    (isType : matcher.rule = .sameType)
    (bounded : (matcher.leastSize.isNone && matcher.mostSize.isNone) = false)
    (smallLeast : ∀ bound ∈ matcher.leastSize, bound < twoTo 64)
    (smallMost : ∀ bound ∈ matcher.mostSize, bound < twoTo 64) (body : Option Json) :
    ∃ text inside first rest, matcher.conditionPath body = .ok text ∧
      matcher.sizeClauses inside steps = first :: rest ∧
      Path.parse text =
        .ok ⟨text, base.segments ++ [.filter (allBoth first.condition rest)]⟩ := by
  have condition : ∀ operand, matcher.condition? operand body =
      .ok (some (String.intercalate " && " (matcher.sizeConditions operand))) := by
    intro operand
    rw [condition?, isType]
    cases same : matcher.sizeConditions operand with
    | nil =>
        rw [isNone_of_asked_eq_nil same] at bounded
        cases bounded
    | cons first rest => rfl
  obtain ⟨front, inside, isPath, known, written⟩ := cut.exists_filterText condition
  cases clauses : matcher.sizeClauses inside steps with
  | nil =>
      rw [isNone_of_asked_eq_nil clauses] at bounded
      cases bounded
  | cons first rest =>
      have alone : ∀ clause ∈ first :: rest, clause.StandsAlone (8 * inside.length + 3) := by
        intro clause member
        rw [← clauses] at member
        exact standsAlone_of_mem_sizeClauses known smallLeast smallMost member
      have long := length_inside_le (clauses ▸ List.mem_cons_self : first ∈ _)
      have longRest := length_le_bothChars rest
      refine ⟨_, inside, first, rest, written, clauses, ?_⟩
      apply parse_append_both isPath (alone first List.mem_cons_self) fun clause member =>
        alone clause (List.mem_cons_of_mem first member)
      · rw [List.length_append]
        omega
      · rw [sizeConditions_eq inside steps, clauses]
        simp only [String.toList_append, toList_intercalate_both]
        simp

end Matcher

namespace Verifier

open Matcher BodyContract.Path

variable {verifier : Verifier} {expected actual : Json}

/-! ## Verification -/

/-- A body is verified with matchers if what they leave of the expected one verifies it, and all
matchers hold. -/
theorem verify_eq_ok_iff {matchers : List Matcher} :
    verifier.verify expected actual matchers = .ok () ↔
      verifier.verify (Matcher.strip matchers expected) actual [] = .ok () ∧
        checkMatchers expected actual matchers = .ok () := by
  have strip : Matcher.strip [] (Matcher.strip matchers expected) =
      Matcher.strip matchers expected := by
    rw [Matcher.strip, Matcher.removeEach]
    simp
  rw [verify, verify, strip]
  cases verifier.chains (Matcher.strip matchers expected) with
  | error problem => simp [bind, Except.bind]
  | ok chains =>
      cases verdict : chains.verify actual with
      | error problem => simp [bind, Except.bind, verdict]
      | ok _ => simp [bind, Except.bind, verdict, checkMatchers]

theorem checkMatchers_singleton (matcher : Matcher) :
    checkMatchers expected actual [matcher] = checkMatcher expected actual matcher := by
  rw [checkMatchers]
  cases checkMatcher expected actual matcher <;> rfl

/-- A matcher for a type holds if the path it is turned into selects something. -/
theorem checkMatcher_eq_ok_iff {matcher : Matcher} (isType : matcher.rule = .sameType)
    {text : String} (written : matcher.conditionPath (some expected) = .ok text) {path : Path}
    (parsed : Path.parse text = .ok path) :
    checkMatcher expected actual matcher = .ok () ↔ path.evaluate actual ≠ [] := by
  have strict : (Asserter.ofDocument actual).isStrict = true := rfl
  have document : (Asserter.ofDocument actual).document = actual := rfl
  rw [checkMatcher, isType]
  simp only [written, bind, Except.bind, Asserter.checkPath, strict, if_true, Asserter.matched,
    parsed, document]
  cases path.evaluate actual with
  | nil => simp
  | cons value rest => simp

/-- A matcher for a type on names that lead to a value holds exactly if the size of the value
lies within its bounds. -/
theorem checkMatcher_byType_iff {names : List String}
    (readable : ∀ name ∈ names, (Pace.bare name).isReadable true = true) (filled : names ≠ [])
    {least most : Option Nat} (smallLeast : ∀ bound ∈ least, bound < twoTo 64)
    (smallMost : ∀ bound ∈ most, bound < twoTo 64) {value : Json}
    (leads : actual.at? names = some value) :
    checkMatcher expected actual (byType (namePath names) least most) = .ok () ↔
      value.isWithin least most = true := by
  obtain ⟨base, steps, holder, cut, isHolder, itself, isBehind⟩ :=
    exists_isCut_namePath readable leads fun isEmpty => absurd isEmpty filled
  have cutToo : IsCut (byType (namePath names) least most).path base steps := cut
  cases bounded : least.isNone && most.isNone with
  | true =>
      have isType : (byType (namePath names) least most).rule = .sameType := rfl
      have written := conditionPath_of_unbounded isType bounded (some expected)
      rw [checkMatcher_eq_ok_iff isType written cutToo.parse, Json.isWithin, bounded, Bool.true_or,
        evaluate_steps _ base.text base.segments cut.definite, isHolder, List.flatMap_singleton,
        isBehind]
      simp
  | false =>
      obtain ⟨text, inside, first, rest, written, clauses, parsed⟩ :=
        cutToo.parse_of_bounded rfl bounded smallLeast smallMost (some expected)
      have holds : (∀ clause ∈ (byType (namePath names) least most).sizeClauses inside steps,
          holds actual clause.condition holder = true) ↔ value.isWithin least most = true :=
        holds_sizeClauses_iff cut.definite isBehind bounded
      rw [clauses, List.forall_mem_cons] at holds
      rw [checkMatcher_eq_ok_iff rfl written parsed, evaluate_filter_ne_nil_iff text base.text,
        isHolder]
      simp only [List.mem_singleton, exists_eq_left, itself, holds_allBoth]
      exact holds

/-- With a matcher for a type on names that lead to a value, a body is verified exactly if what the
matcher leaves of the expected one verifies it and the size of the value lies within the bounds,
whatever the types are. -/
theorem verify_byType_iff {names : List String}
    (readable : ∀ name ∈ names, (Pace.bare name).isReadable true = true) (filled : names ≠ [])
    {least most : Option Nat} (smallLeast : ∀ bound ∈ least, bound < twoTo 64)
    (smallMost : ∀ bound ∈ most, bound < twoTo 64) {value : Json}
    (leads : actual.at? names = some value) :
    verifier.verify expected actual [byType (namePath names) least most] = .ok () ↔
      verifier.verify (Matcher.strip [byType (namePath names) least most] expected) actual [] =
          .ok () ∧
        value.isWithin least most = true := by
  rw [verify_eq_ok_iff, checkMatchers_singleton,
    checkMatcher_byType_iff readable filled smallLeast smallMost leads]

/-- A list of tags inside an object, and another one. -/
def twoTags : Json := .object [("a", .object [("tags", .strings ["x", "y"])])]

def oneTag : Json := .object [("a", .object [("tags", .strings ["z"])])]

theorem ok_of_isOk {result : Except ContractError Unit} (isOk : result.isOk = true) :
    result = .ok () := by
  cases result with
  | error problem => cases isOk
  | ok _ => rfl

theorem oneTag_verify : (∀ name ∈ ["a", "tags"], (Pace.bare name).isReadable true = true) ∧
    oneTag.at? ["a", "tags"] = some (.strings ["z"]) ∧
      Verifier.default.verify twoTags oneTag [byType "$.a.tags" (some 1) (some 3)] = .ok () := by
  have readable : ∀ name ∈ ["a", "tags"], (Pace.bare name).isReadable true = true :=
    areLetters_isReadable (by decide)
  have leads : oneTag.at? ["a", "tags"] = some (.strings ["z"]) := rfl
  have path : namePath ["a", "tags"] = "$.a.tags" := rfl
  have rest : (Verifier.default.verify
      (Matcher.strip [byType (namePath ["a", "tags"]) (some 1) (some 3)] twoTags) oneTag []).isOk =
        true := by decide +kernel
  refine ⟨readable, leads, ?_⟩
  rw [← path, verify_byType_iff readable (by decide) (by decide) (by decide) leads]
  exact ⟨ok_of_isOk rest, rfl⟩

/-- A text passes for a number, and with bounds a text of a fitting length for a list. -/
theorem otherTypes_verify :
    Verifier.default.verify (.object [("a", .int 1)]) (.object [("a", .string "x")])
        [byType "$.a" none none] = .ok () ∧
      Verifier.default.verify (.object [("a", .array [.int 1])]) (.object [("a", .string "xy")])
        [byType "$.a" (some 1) (some 2)] = .ok () := by
  have rest : (Verifier.default.verify (Matcher.strip [byType "$.a" (some 1) (some 2)]
      (.object [("a", .array [.int 1])])) (.object [("a", .string "xy")]) []).isOk = true := by
    decide +kernel
  have path : namePath ["a"] = "$.a" := rfl
  refine ⟨ok_of_isOk (by decide +kernel), ?_⟩
  rw [verify_eq_ok_iff, checkMatchers_singleton, ← path,
    checkMatcher_byType_iff (areLetters_isReadable (by decide)) (by decide) (by decide)
      (by decide) rfl]
  exact ⟨ok_of_isOk rest, rfl⟩

end Verifier

end BodyContract
