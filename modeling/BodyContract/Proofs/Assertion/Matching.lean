import BodyContract.Proofs.Assertion.Following

/-!
# Patterns in assertions

Wherever an assertion has come to, a check for a pattern builds a path whose last
filter holds the whole pattern, with its slashes plain, and nothing of it stands
outside.  The path is refused exactly if the engine refuses the pattern as a whole
match.
-/

namespace BodyContract

namespace Asserter

open BodyContract.Path

variable {asserter : Asserter} {trail : Trail} {pieces : List Piece}

/-- A check for a pattern builds a path that ends in a match with the whole pattern. -/
theorem Follows.endsInMatch (follows : asserter.Follows trail pieces) {pattern : String}
    {plain : List Char} (isPlain : plainSlashes? pattern.toList = some plain) :
    EndsInMatch (asserter.withCondition Comparison.matching.sign
        ("/" ++ escapeSlashes pattern ++ "/")).path
      trail.subject.1 trail.subject.2 (String.ofList plain) := by
  obtain ⟨front, inside, readable, insideReadable, subject, written⟩ :=
    follows.exists_front Comparison.matching.sign ("/" ++ escapeSlashes pattern ++ "/")
  have alone : ∀ text : String, String.join [text] = text := by
    intro text
    rw [String.join_cons, String.join_nil, String.append_empty]
  rw [subject]
  apply endsInMatch_comparing (parse_textOfPieces readable) (stepsInFilter?_hops insideReadable)
    isPlain
  have joined : (asserter.withCondition Comparison.matching.sign
      ("/" ++ escapeSlashes pattern ++ "/")).path = textOfPieces front ++
        comparisonText inside Comparison.matching.sign ("/" ++ escapeSlashes pattern ++ "/") := by
    rw [written, path, ← List.cons_append, String.join_append, alone, textOfPieces]
  rw [joined, String.toList_append, toList_comparisonText]
  simp [escapeSlashes]

/-- Behind moves with a rule, a check for a pattern builds a path that ends in a match with
the whole pattern, with checks as without. -/
theorem exists_endsInMatch (document : Json) {moves : List Move}
    (allowed : Trail.root.AllowsAll moves) {pattern : String} {plain : List Char}
    (isPlain : plainSlashes? pattern.toList = some plain) (reached : Asserter)
    (succeeds : Move.applyAll moves (ofDocument document) = .ok reached) :
    ∃ next, reached.lenient.matching pattern = .ok next ∧
      EndsInMatch next.path (Trail.root.moveAll moves).subject.1
        (Trail.root.moveAll moves).subject.2 (String.ofList plain) ∧
      ∀ checked, reached.matching pattern = .ok checked → checked.path = next.path := by
  obtain ⟨place, pieces, follows, -, moved⟩ := (follows_root document).moveAll allowed
  obtain ⟨staysStrict, rfl⟩ := moved document true reached succeeds
  have moves := (Call.matching pattern).movesTo_target place
  refine ⟨_, moves.1 document, follows.endsInMatch isPlain, ?_⟩
  intro checked isChecked
  rw [moves.2 document staysStrict checked isChecked]
  rfl

/-- In whatever order moves with a rule are made from the root of a document, and whatever
a pattern holds that does not end inside an escape: the path of a check for the pattern
ends in a match with the pattern, its slashes plain, and is refused exactly if the engine
refuses that.  Without checks the moves always succeed. -/
theorem matching_endsInMatch (document : Json) {moves : List Move}
    (allowed : Trail.root.AllowsAll moves) {pattern : String} {plain : List Char}
    (isPlain : plainSlashes? pattern.toList = some plain) :
    (∃ reached, Move.applyAll (.withoutChecks :: moves) (ofDocument document) = .ok reached) ∧
      ∀ reached, Move.applyAll moves (ofDocument document) = .ok reached →
        ∃ next, reached.lenient.matching pattern = .ok next ∧
          EndsInMatch next.path (Trail.root.moveAll moves).subject.1
            (Trail.root.moveAll moves).subject.2 (String.ofList plain) ∧
          ∀ checked, reached.matching pattern = .ok checked → checked.path = next.path := by
  obtain ⟨place, pieces, -, lenient, -⟩ := (follows_root document).moveAll allowed
  exact ⟨⟨_, lenient document⟩, exists_endsInMatch document allowed isPlain⟩

/-- A member of the elements of an array whose name holds a quote, without checks. -/
def quotedMember : List Move :=
  [.withoutChecks, .step (.array "rows"), .step (.field "it's")]

/-- A pattern with a slash of its own and an escaped one behind it. -/
theorem quotedMember_endsInMatch : Trail.root.AllowsAll quotedMember ∧
    plainSlashes? "a/b\\/c".toList = some "a/b/c".toList ∧
    ∃ reached next, Move.applyAll quotedMember (ofDocument .null) = .ok reached ∧
      reached.lenient.matching "a/b\\/c" = .ok next ∧
      EndsInMatch next.path [.child "rows", .wildcard] (.current [.child "it's"] false)
        "a/b/c" := by
  have rows : keepsBackslashes "rows".toList = true := by decide
  have quoted : keepsBackslashes "it's".toList = true := by decide
  have allowed : Trail.root.AllowsAll quotedMember := ⟨trivial, rows, quoted, trivial⟩
  have isPlain : plainSlashes? "a/b\\/c".toList = some "a/b/c".toList := by decide
  obtain ⟨-, ends⟩ := matching_endsInMatch .null allowed isPlain
  obtain ⟨next, checked, inMatch, -⟩ := ends _ rfl
  exact ⟨allowed, isPlain, _, next, rfl, checked, inMatch⟩

/-- A pattern that ends in a comment is accepted alone, but a check for it builds a path that
cannot be read. -/
theorem comment_not_read : (Regex.parse? "(?x)#").isSome = true ∧
    plainSlashes? "(?x)#".toList = some "(?x)#".toList ∧
    ∃ reached, Move.applyAll [.withoutChecks, .step (.field "a"), .step (.matching "(?x)#")]
      (ofDocument .null) = .ok reached ∧ ∀ path, Path.parse reached.path ≠ .ok path := by
  have isPlain : plainSlashes? "(?x)#".toList = some "(?x)#".toList := rfl
  have letter : keepsBackslashes "a".toList = true := by decide
  have ends := (((follows_root .null).on .null false).field letter).endsInMatch isPlain
  have refused : fullMatch? (String.ofList "(?x)#".toList) false = none :=
    Regex.fullMatch?_comment.2
  rw [EndsInMatch, refused] at ends
  refine ⟨Regex.fullMatch?_comment.1, isPlain, _, rfl, ?_⟩
  intro path parsed
  cases ends.symm.trans parsed

end Asserter

end BodyContract
