import BodyContract.Proofs.Assertion.Matching
import BodyContract.Proofs.Matcher.Conversion

/-!
# Matchers and assertions ask for the same match

The filter of a matcher for a pattern and that of an assertion for the pattern in
parentheses hold the same expression, or are refused for the same one, if the
slashes of the pattern are of one kind.  Otherwise the filter of the matcher
breaks off at the first slash that is not escaped.
-/

namespace BodyContract

namespace Matcher

open BodyContract.Path

/-- With slashes of both kinds, the pattern of a matcher is written as it is, and read up to
its first slash that is not escaped. -/
theorem breaks_off {pattern : String} (mixed : ¬HasUniformSlashes pattern) :
    slashed pattern = pattern ∧ ∃ front back plain, pattern.toList = front ++ '/' :: back ∧
      plainSlashes? front = some plain ∧
      ∀ position rest, ∃ behind,
        readBodyAux position [] ('(' :: (pattern.toList ++ ')' :: '/' :: rest)) =
          .ok (String.ofList ('(' :: plain), ⟨behind, back ++ ')' :: '/' :: rest⟩) := by
  rw [HasUniformSlashes, not_or, Bool.not_eq_false] at mixed
  obtain ⟨isBehind, changed⟩ := mixed
  refine ⟨by rw [slashed, if_pos isBehind], ?_⟩
  have changedChars : escapeSlashesAux false pattern.toList ≠ pattern.toList := by
    intro same
    rw [escapeSlashes, same, String.ofList_toList] at changed
    exact changed rfl
  obtain ⟨front, back, plain, same, isPlain, unchanged⟩ := exists_bare_slash changedChars
  refine ⟨front, back, plain, same, isPlain, ?_⟩
  intro position rest
  have opened : plainSlashes? ('(' :: front) = some ('(' :: plain) := by
    rw [plainSlashes?_plain (by decide), isPlain, Option.map_some]
  obtain ⟨behind, read⟩ := readBodyAux_escapeSlashes opened position [] (back ++ ')' :: '/' :: rest)
  rw [escapeSlashesAux_plain (by decide) (by decide), unchanged, List.cons_append] at read
  refine ⟨behind, ?_⟩
  rw [same, List.append_assoc, List.cons_append]
  exact read

/-- For every pattern there is one expression, the pattern in parentheses with plain slashes,
that the filter of an assertion for the pattern in parentheses asks for wherever it has come
to.  The filter of a matcher for the pattern asks for the same one if the slashes of the
pattern are of one kind, and breaks off at a slash otherwise. -/
theorem regex_filters_agree (pattern : String) :
    ∃ whole, plainSlashes? ("(" ++ pattern ++ ")").toList = some whole ∧
      (∀ (document : Json) (moves : List Move), Trail.root.AllowsAll moves →
        ∀ reached, Move.applyAll moves (Asserter.ofDocument document) = .ok reached →
          ∃ next, reached.lenient.matching ("(" ++ pattern ++ ")") = .ok next ∧
            EndsInMatch next.path (Trail.root.moveAll moves).subject.1
              (Trail.root.moveAll moves).subject.2 (String.ofList whole)) ∧
      (HasUniformSlashes pattern → ∀ (matcher : Matcher) (base : Path) (steps : List Segment),
        matcher.rule.isPatternRule = true → matcher.argument = some pattern →
          IsCut matcher.path base steps → ∀ body : Option Json,
            ∃ text, matcher.conditionPath body = .ok text ∧
              EndsInMatch text base.segments (.current steps false) (String.ofList whole)) ∧
      (¬HasUniformSlashes pattern → ∃ front back plain, pattern.toList = front ++ '/' :: back ∧
        plainSlashes? front = some plain ∧
        ∀ operand, patternCondition operand pattern = operand ++ " =~ /(" ++ pattern ++ ")/" ∧
          ∀ position rest, ∃ behind,
            readBodyAux position [] ('(' :: (pattern.toList ++ ')' :: '/' :: rest)) =
              .ok (String.ofList ('(' :: plain), ⟨behind, back ++ ')' :: '/' :: rest⟩)) := by
  obtain ⟨whole, isPlain⟩ := exists_plainSlashes?_grouped pattern
  refine ⟨whole, isPlain, ?_, ?_, ?_⟩
  · intro document moves allowed reached succeeds
    obtain ⟨next, isNext, ends, -⟩ :=
      Asserter.exists_endsInMatch document allowed isPlain reached succeeds
    exact ⟨next, isNext, ends⟩
  · intro uniform matcher base steps isPattern argument cut body
    exact cut.endsInMatch isPattern argument uniform isPlain body
  · intro mixed
    obtain ⟨written, front, back, plain, same, isPlainFront, breaks⟩ := breaks_off mixed
    refine ⟨front, back, plain, same, isPlainFront, fun operand => ⟨?_, breaks⟩⟩
    rw [patternCondition_eq, written]

/-- A pattern with a slash, for a member and for the elements of an array. -/
theorem slash_filters_agree : HasUniformSlashes "a/b" ∧
    Trail.root.AllowsAll [.withoutChecks, .step .anonymousArray] ∧
    IsCut (byPattern "$.a" "a/b").path ⟨"$", []⟩ (Pace.segmentsOf [.bare "a"]) ∧
    ∃ whole reached next text,
      Move.applyAll [.withoutChecks, .step .anonymousArray] (Asserter.ofDocument .null) =
        .ok reached ∧
      reached.lenient.matching "(a/b)" = .ok next ∧
      EndsInMatch next.path [.wildcard] (.current [] false) whole ∧
      (byPattern "$.a" "a/b").conditionPath none = .ok text ∧
      EndsInMatch text [] (.current [.child "a"] false) whole := by
  have uniform : HasUniformSlashes "a/b" := by decide
  have allowed : Trail.root.AllowsAll [.withoutChecks, .step .anonymousArray] :=
    ⟨trivial, trivial, trivial⟩
  obtain ⟨whole, -, ofAssertion, ofMatcher, -⟩ := regex_filters_agree "a/b"
  obtain ⟨next, isNext, nextEnds⟩ := ofAssertion .null _ allowed _ rfl
  obtain ⟨text, written, textEnds⟩ := ofMatcher uniform (byPattern "$.a" "a/b") _ _ rfl rfl
    letter_isCut none
  exact ⟨uniform, allowed, letter_isCut, _, _, next, text, rfl, isNext, nextEnds, written, textEnds⟩

/-- With an escaped slash behind another one, the filter of a matcher breaks off and is
refused, where an assertion asks for the whole pattern. -/
theorem mixedSlashes_disagree : ∃ text next,
    (byPattern "$.a" "a/b\\/c").conditionPath none = .ok text ∧
      Path.parse text = .error (.invalidRegex "(a") ∧
      (Asserter.ofDocument .null).lenient.matching ("(" ++ "a/b\\/c" ++ ")") = .ok next ∧
      EndsInMatch next.path [] (.current [] false) "(a/b/c)" ∧
      (fullMatch? "(a/b/c)" false).isSome = true := by
  have cut : IsCut (byPattern "$.a" "a/b\\/c").path ⟨"$", []⟩ (Pace.segmentsOf [.bare "a"]) :=
    letter_isCut
  obtain ⟨text, front, inside, written, isPath, known, same⟩ :=
    cut.exists_conditionPath fun operand => condition?_of_isPatternRule rfl rfl operand none
  have refused : fullMatch? "(a" false = none := by
    have isNone : (fullMatch? "(a" false).isNone = true := by decide +kernel
    exact Option.isNone_iff_eq_none.mp isNone
  have chars : ("/(" ++ slashed "a/b\\/c" ++ ")/").toList = "/(a/b\\/c)/".toList := by decide
  have refuses : ∀ fuel position, readOperand (fuel + 1)
      ⟨position, "/(a/b\\/c)/".toList ++ [')', ']']⟩ = .error (.invalidRegex "(a") := by
    intro fuel position
    have opened : "/(a/b\\/c)/".toList ++ [')', ']'] =
        '/' :: '(' :: 'a' :: '/' :: 'b' :: "\\/c)/)]".toList := rfl
    have read : ∀ start others, ∃ behind,
        readBodyAux start [] ('(' :: 'a' :: '/' :: others) = .ok ("(a", ⟨behind, others⟩) :=
      fun _ _ => ⟨_, rfl⟩
    obtain ⟨behind, isRead⟩ := read (position + '/'.utf8Size) ('b' :: "\\/c)/)]".toList)
    have noMark : (Cursor.mk behind ('b' :: "\\/c)/)]".toList)).eat? 'i' = none := by
      simp [Cursor.eat?, Cursor.peek?]
    rw [opened, readOperand]
    simp only [Cursor.peek?, List.head?_cons, Cursor.skip]
    rw [readRegex, isRead]
    simp only [bind, Except.bind, noMark, refused]
  rw [chars] at same
  have breaks : Answers "/(a/b\\/c)/".toList (fun _ => .error (.invalidRegex "(a")) := by
    refine ⟨⟨'/', _, rfl, by decide⟩, ?_⟩
    intro fuel position
    rw [refuses]
    exact .refused _
  have fits : Fits .matching "/(a/b\\/c)/".toList := by
    intro _ fuel position operand last read
    cases (refuses fuel position).symm.trans read
  have allowed : Trail.root.AllowsAll [.withoutChecks] := ⟨trivial, trivial⟩
  have isPlain : plainSlashes? ("(" ++ "a/b\\/c" ++ ")").toList = some "(a/b/c)".toList := by decide
  obtain ⟨next, isNext, ends, -⟩ := Asserter.exists_endsInMatch .null allowed isPlain _ rfl
  refine ⟨text, next, written, ?_, isNext, ends, by decide +kernel⟩
  obtain ⟨_, isRefused⟩ := parse_append_comparing isPath known breaks fits same
  exact isRefused

end Matcher

end BodyContract
