import BodyContract.Proofs.Matcher.Slashes

/-!
# Matchers as filters

The path of a matcher with a pattern is cut at its last dot, and the steps behind
the dot become the operand of a filter on what stands in front of it.  Where both
parts can be read on their own, the filter selects something exactly if the path
selects a value whose text matches; but a filter tests the elements of an array
instead of the array, so no array may stand in front of the last steps.
-/

namespace BodyContract

namespace Matcher

open BodyContract.Path

variable {matcher : Matcher} {pattern : String}

/-! ## The text of the filter -/

/-- The condition of a matcher with a pattern compares with the pattern in parentheses. -/
theorem condition?_of_isPatternRule (isPattern : matcher.rule.isPatternRule = true)
    (argument : matcher.argument = some pattern) (operand : String) (body : Option Json) :
    matcher.condition? operand body = .ok (some (operand ++ " " ++ Comparison.matching.sign ++ " " ++
      ("/(" ++ slashed pattern ++ ")/"))) := by
  have written : patternCondition operand pattern =
      operand ++ " " ++ Comparison.matching.sign ++ " " ++ ("/(" ++ slashed pattern ++ ")/") := by
    apply String.toList_injective
    simp [patternCondition_eq, Comparison.sign]
  rw [condition?, argument, ← written]
  cases rule : matcher.rule with
  | equality => rw [rule] at isPattern; cases isPattern
  | sameType => rw [rule] at isPattern; cases isPattern
  | _ => rfl

/-! ## The parts of a path -/

/-- How the path of a matcher is cut into a path and the steps behind it. -/
inductive IsCut : String → Path → List Segment → Prop where
  | root : IsCut "$" ⟨"$", []⟩ []
  /-- Behind the last dot stand steps that are read inside a filter. -/
  | behindDot {path : String} {front last : List Char} {base : Path} {steps : List Segment}
      (split : splitLastStep? path.toList = some (front, last))
      (isPath : Path.parse (String.ofList front) = .ok base)
      (known : stepsInFilter? ('.' :: last) = some steps)
      (definite : areDefinite steps = true) : IsCut path base steps

theorem of_splitAtLast? {separator text front back : List Char}
    (split : splitAtLast? separator text = some (front, back)) :
    text = front ++ back ∧ separator.isPrefixOf back = true := by
  induction text generalizing front with
  | nil => cases split
  | cons c rest inductionHypothesis =>
      rw [splitAtLast?] at split
      cases later : splitAtLast? separator rest with
      | some parts =>
          rw [later] at split
          cases split
          obtain ⟨same, begins⟩ := inductionHypothesis later
          exact ⟨congrArg (c :: ·) same, begins⟩
      | none =>
          rw [later] at split
          dsimp only at split
          split at split
          · rename_i begins
            cases split
            exact ⟨rfl, begins⟩
          · cases split

theorem of_splitAtLast?_dot {text front back : List Char}
    (split : splitAtLast? ['.'] text = some (front, back)) :
    text = front ++ '.' :: back.drop 1 := by
  obtain ⟨same, begins⟩ := of_splitAtLast? split
  obtain ⟨others, rfl⟩ := List.isPrefixOf_iff_prefix.mp begins
  exact same

/-- A path is its front, the dot and what stands behind it. -/
theorem of_splitLastStep? {path front last : List Char}
    (split : splitLastStep? path = some (front, last)) : path = front ++ '.' :: last := by
  rw [splitLastStep?] at split
  cases quoted : splitAtLast? ['[', '\''] path with
  | none =>
      rw [quoted] at split
      obtain ⟨⟨front, back⟩, atDot, same⟩ := Option.map_eq_some_iff.mp split
      cases same
      exact of_splitAtLast?_dot atDot
  | some parts =>
      obtain ⟨before, brackets⟩ := parts
      rw [quoted] at split
      obtain ⟨⟨front, back⟩, atDot, same⟩ := Option.map_eq_some_iff.mp split
      cases same
      rw [(of_splitAtLast? quoted).1, of_splitAtLast?_dot atDot, List.append_assoc,
        List.cons_append]

variable {base : Path} {steps : List Segment} {path : String}

theorem IsCut.definite (cut : IsCut path base steps) : areDefinite steps = true := by
  cases cut with
  | root => rfl
  | behindDot split isPath known definite => exact definite

/-- The steps of a path follow on its front. -/
theorem IsCut.parse (cut : IsCut path base steps) :
    Path.parse path = .ok ⟨path, base.segments ++ steps⟩ := by
  cases cut with
  | root =>
      have noPaces : ∀ pace ∈ ([] : List Pace), pace.isReadable false = true :=
        fun pace isIn => absurd isIn List.not_mem_nil
      exact parse_textOf noPaces
  | @behindDot _ front last _ _ split isPath known definite =>
      have parsed := parse_append_steps isPath (by decide) known
      rw [String.toList_ofList, ← of_splitLastStep? split, String.ofList_toList] at parsed
      exact parsed

/-- The path of a matcher with a condition is turned into its front with a filter. -/
theorem IsCut.exists_filterText (cut : IsCut matcher.path base steps) {body : Option Json}
    {written : String → String}
    (condition : ∀ operand, matcher.condition? operand body = .ok (some (written operand))) :
    ∃ front inside, Path.parse front = .ok base ∧ stepsInFilter? inside = some steps ∧
      matcher.conditionPath body =
        .ok (front ++ "[?(" ++ written ("@" ++ String.ofList inside) ++ ")]") := by
  rw [conditionPath]
  simp only [condition, bind, Except.bind]
  generalize matcher.path = path at cut
  cases cut with
  | root =>
      have uncut : splitLastStep? "$".toList = none := by decide
      have nothing : stepsInFilter? [] = some [] := @stepsInFilter?_hops [] (by simp)
      rw [uncut]
      exact ⟨"$", [], IsCut.root.parse, nothing, rfl⟩
  | @behindDot _ front last _ _ split isPath known definite =>
      have isOperand : operand (some last) = "@" ++ String.ofList ('.' :: last) := by
        apply String.toList_injective
        simp [operand]
      rw [split]
      refine ⟨String.ofList front, '.' :: last, isPath, known, ?_⟩
      rw [← isOperand]
      rfl

/-- The path of a matcher with a comparison is turned into its front with a filter. -/
theorem IsCut.exists_conditionPath (cut : IsCut matcher.path base steps)
    {comparison : Comparison} {right : String} {body : Option Json}
    (condition : ∀ operand, matcher.condition? operand body =
      .ok (some (operand ++ " " ++ comparison.sign ++ " " ++ right))) :
    ∃ text front inside, matcher.conditionPath body = .ok text ∧
      Path.parse front = .ok base ∧ stepsInFilter? inside = some steps ∧
      text.toList = front.toList ++ comparing inside comparison right.toList := by
  obtain ⟨front, inside, isPath, known, written⟩ := cut.exists_filterText condition
  refine ⟨_, front, inside, written, isPath, known, ?_⟩
  simp [comparing]

/-- The path of a matcher with slashes of one kind in its pattern is turned into its front
with a filter for what matches the pattern in parentheses, their slashes plain. -/
theorem IsCut.endsInMatch (cut : IsCut matcher.path base steps)
    (isPattern : matcher.rule.isPatternRule = true) (argument : matcher.argument = some pattern)
    (uniform : HasUniformSlashes pattern) {plain : List Char}
    (isPlain : plainSlashes? ("(" ++ pattern ++ ")").toList = some plain) (body : Option Json) :
    ∃ text, matcher.conditionPath body = .ok text ∧
      EndsInMatch text base.segments (.current steps false) (String.ofList plain) := by
  obtain ⟨text, front, inside, written, isPath, known, same⟩ :=
    cut.exists_conditionPath fun operand => condition?_of_isPatternRule isPattern argument operand body
  rw [toList_slashed uniform] at same
  exact ⟨text, written, endsInMatch_comparing isPath known isPlain same⟩

/-- The path of a matcher with a pattern is turned into its front with a filter. -/
theorem IsCut.parse_conditionPath (cut : IsCut matcher.path base steps)
    (isPattern : matcher.rule.isPatternRule = true) (argument : matcher.argument = some pattern)
    (noSlash : '/' ∉ pattern.toList) {regex : FullMatch}
    (accepted : fullMatch? ("(" ++ pattern ++ ")") false = some regex) (body : Option Json) :
    ∃ text, matcher.conditionPath body = .ok text ∧
      Path.parse text = .ok ⟨text, base.segments ++ [.filter (matchingCondition steps regex)]⟩ := by
  obtain ⟨text, written, ends⟩ := cut.endsInMatch isPattern argument
    (hasUniformSlashes_of_notMem noSlash) (plainSlashes?_grouped_of_notMem noSlash) body
  rw [EndsInMatch, String.ofList_toList, accepted] at ends
  exact ⟨text, written, ends.2⟩

/-! ## What the filter selects -/

/-- The filter of a matcher with a pattern selects something exactly if the last
steps lead from what the front of the path selects, or from an element of an array
there, to a value whose text matches.  Where the front selects no array, these
values are what the path of the matcher selects. -/
theorem conditionPath_selects (isPattern : matcher.rule.isPatternRule = true)
    (argument : matcher.argument = some pattern) (noSlash : '/' ∉ pattern.toList)
    {regex : FullMatch} (accepted : fullMatch? ("(" ++ pattern ++ ")") false = some regex)
    (cut : IsCut matcher.path base steps) (body : Option Json) :
    ∃ path text filter, Path.parse matcher.path = .ok path ∧
      matcher.conditionPath body = .ok text ∧ Path.parse text = .ok filter ∧
      ∀ document : Json,
        (filter.evaluate document ≠ [] ↔
          ∃ value ∈ base.evaluate document, ∃ item ∈ value.items, ∃ found,
            Json.behind? steps item = some found ∧ found.matchesText regex = true) ∧
        ((∀ value ∈ base.evaluate document, value.isArray = false) →
          (filter.evaluate document ≠ [] ↔
            ∃ value ∈ path.evaluate document, value.matchesText regex = true)) := by
  obtain ⟨text, written, isFilter⟩ :=
    cut.parse_conditionPath isPattern argument noSlash accepted body
  refine ⟨_, text, _, cut.parse, written, isFilter, ?_⟩
  intro document
  have selects := evaluate_matching_ne_nil_iff cut.definite text base regex document
  refine ⟨selects, ?_⟩
  intro noArray
  have itself : ∀ value ∈ base.evaluate document, value.items = [value] := by
    intro value isIn
    apply Json.items_of_not_array
    rintro elements rfl
    cases noArray _ isIn
  rw [selects, evaluate_steps matcher.path base.text base.segments cut.definite]
  constructor
  · rintro ⟨value, isIn, item, isItem, found, isFound, fits⟩
    rw [itself value isIn, List.mem_singleton] at isItem
    subst isItem
    exact ⟨found, List.mem_flatMap.mpr ⟨item, isIn, Option.mem_toList.mpr isFound⟩, fits⟩
  · rintro ⟨found, isSelected, fits⟩
    obtain ⟨value, isIn, isFound⟩ := List.mem_flatMap.mp isSelected
    refine ⟨value, isIn, value, ?_, found, Option.mem_toList.mp isFound, fits⟩
    rw [itself value isIn]
    exact List.mem_singleton_self value

/-- A matcher for the text behind a quoted name with a dot inside. -/
def matchesQuoted : Matcher := byPattern "$.a['b.c']" "[0-9]+"

theorem letter_isReadable : (Pace.bare "a").isReadable true = true :=
  Pace.isReadable_of_letters (by decide) (by decide) true

theorem letter_isCut : IsCut "$.a" ⟨"$", []⟩ (Pace.segmentsOf [.bare "a"]) := by
  have readable : ∀ pace ∈ [Pace.bare "a"], pace.isReadable true = true := by
    intro pace isIn
    rw [List.mem_singleton.mp isIn]
    exact letter_isReadable
  have split : splitLastStep? "$.a".toList = some (['$'], ['a']) := by decide
  exact .behindDot split IsCut.root.parse (stepsInFilter?_charsOf readable)
    (isDefinite_segmentsOf _)

theorem matchesQuoted_isCut :
    IsCut matchesQuoted.path ⟨"$", []⟩
      (Pace.segmentsOf [.bare "a", .bracketed false (.key "b.c")]) := by
  have readable : ∀ pace ∈ [Pace.bare "a", .bracketed false (.key "b.c")],
      pace.isReadable true = true := by
    intro pace isIn
    rw [List.mem_cons, List.mem_singleton] at isIn
    rcases isIn with rfl | rfl
    · exact letter_isReadable
    · decide
  have split : splitLastStep? matchesQuoted.path.toList = some (['$'], "a['b.c']".toList) := by
    decide
  exact .behindDot split IsCut.root.parse (stepsInFilter?_charsOf readable)
    (isDefinite_segmentsOf _)

theorem matchesQuoted_selects : ∃ text filter,
    matchesQuoted.conditionPath none = .ok text ∧ Path.parse text = .ok filter ∧
      filter.evaluate (.object [("a", .object [("b.c", .string "12")])]) ≠ [] := by
  have accepted : ((fullMatch? ("(" ++ "[0-9]+" ++ ")") false).any fun regex =>
      (Json.string "12").matchesText regex) = true := by decide +kernel
  cases isRegex : fullMatch? ("(" ++ "[0-9]+" ++ ")") false with
  | none =>
      rw [isRegex] at accepted
      cases accepted
  | some regex =>
      rw [isRegex, Option.any_some] at accepted
      obtain ⟨path, text, filter, -, written, isFilter, selects⟩ :=
        conditionPath_selects rfl rfl (by decide) isRegex matchesQuoted_isCut none
      refine ⟨text, filter, written, isFilter, (selects _).1.mpr ?_⟩
      exact ⟨_, List.mem_singleton_self _, _, List.mem_singleton_self _, .string "12", rfl,
        accepted⟩

/-- The filter for a member selects the elements of an array in front of it, of
which the path of the matcher selects nothing. -/
theorem arrayRoot_selected : (byPattern "$.a" "x").rule.isPatternRule = true ∧
    '/' ∉ "x".toList ∧ ∃ path text filter regex,
      Path.parse "$.a" = .ok path ∧ (byPattern "$.a" "x").conditionPath none = .ok text ∧
      Path.parse text = .ok filter ∧ fullMatch? ("(" ++ "x" ++ ")") false = some regex ∧
      filter.evaluate (.array [.object [("a", .string "x")]]) ≠ [] ∧
      ¬∃ value ∈ path.evaluate (.array [.object [("a", .string "x")]]),
        value.matchesText regex = true := by
  have accepted : ((fullMatch? ("(" ++ "x" ++ ")") false).any fun regex =>
      (Json.string "x").matchesText regex) = true := by decide +kernel
  have cut : IsCut (byPattern "$.a" "x").path ⟨"$", []⟩ (Pace.segmentsOf [.bare "a"]) :=
    letter_isCut
  cases isRegex : fullMatch? ("(" ++ "x" ++ ")") false with
  | none =>
      rw [isRegex] at accepted
      cases accepted
  | some regex =>
      rw [isRegex, Option.any_some] at accepted
      obtain ⟨text, written, isFilter⟩ := cut.parse_conditionPath rfl rfl (by decide) isRegex none
      refine ⟨rfl, by decide, _, text, _, regex, cut.parse, written, isFilter, rfl, ?_, ?_⟩
      · rw [evaluate_matching_ne_nil_iff cut.definite]
        exact ⟨_, List.mem_singleton_self _, _, List.mem_singleton_self _, .string "x", rfl,
          accepted⟩
      · rintro ⟨value, isSelected, -⟩
        exact absurd isSelected List.not_mem_nil

end Matcher

end BodyContract
