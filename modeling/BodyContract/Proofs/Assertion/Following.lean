import BodyContract.Proofs.Assertion.Trail
import BodyContract.Proofs.Path.Comparing
import BodyContract.Proofs.Recording.Navigation
import BodyContract.Proofs.Recording.Replay

/-!
# Assertions follow their trails

The text of the path that an assertion has built is read as exactly the segments
of its trail, in any order of steps and behind checks as well.  A step adds a
piece to the path, takes the wildcard at its end away, or puts a condition in
the place of the member that it is about.
-/

namespace BodyContract

/-! ## Pieces and trails -/

namespace Asserter

open BodyContract.Path

/-- An assertion whose path has been put together from pieces along a trail. -/
structure Follows (asserter : Asserter) (trail : Trail) (pieces : List Piece) : Prop where
  pieces_eq : asserter.pieces = "$" :: pieces.map Piece.text
  segments_eq : trail.segments = pieces.flatMap Piece.segments
  readable : ∀ piece ∈ pieces, piece.IsReadable
  ofMember : ∀ name, trail.member? = some name →
    (∃ front, pieces = front ++ [.steps [.member name]]) ∧ asserter.focus = .field ∧
      asserter.fieldName = some (NameStyle.bracketed.wrap name)
  ofNoMember : trail.member? = none → asserter.focus ≠ .field
  elements_iff : trail.isAmongElements = true ↔ asserter.focus = .arrayValue

variable {asserter : Asserter} {trail : Trail} {pieces : List Piece}

theorem follows_root (document : Json) : (ofDocument document).Follows .root [] where
  pieces_eq := rfl
  segments_eq := rfl
  readable := by simp
  ofMember := by
    intro name impossible
    cases impossible
  ofNoMember := by
    intro _ impossible
    cases impossible
  elements_iff := by
    constructor
    · intro impossible
      cases impossible
    · intro impossible
      cases impossible

/-- Neither the document nor the checks have a part in the place. -/
theorem Follows.on (follows : asserter.Follows trail pieces) (document : Json)
    (isStrict : Bool) : (asserter.on document isStrict).Follows trail pieces :=
  ⟨follows.pieces_eq, follows.segments_eq, follows.readable, follows.ofMember,
    follows.ofNoMember, follows.elements_iff⟩

/-- The text of a path is read as the segments of its trail. -/
theorem Follows.parse_path (follows : asserter.Follows trail pieces) :
    parse asserter.path = .ok ⟨asserter.path, trail.segments⟩ := by
  have same : asserter.path = textOfPieces pieces := by
    rw [path, follows.pieces_eq, textOfPieces]
  rw [same, follows.segments_eq]
  exact parse_textOfPieces follows.readable

/-- A place that is neither a member nor among elements. -/
theorem follows_of_plain {segments : List Segment}
    (pieces_eq : asserter.pieces = "$" :: pieces.map Piece.text)
    (segments_eq : segments = pieces.flatMap Piece.segments)
    (readable : ∀ piece ∈ pieces, piece.IsReadable) (noField : asserter.focus ≠ .field)
    (noElements : asserter.focus ≠ .arrayValue) :
    asserter.Follows ⟨segments, none, false⟩ pieces where
  pieces_eq := pieces_eq
  segments_eq := segments_eq
  readable := readable
  ofMember := by
    intro name impossible
    cases impossible
  ofNoMember := fun _ => noField
  elements_iff := by
    constructor
    · intro impossible
      cases impossible
    · intro among
      exact absurd among noElements

theorem readable_concat (readable : ∀ piece ∈ pieces, piece.IsReadable) {last : Piece}
    (lastReadable : last.IsReadable) : ∀ piece ∈ pieces ++ [last], piece.IsReadable := by
  intro piece member
  rcases List.mem_append.mp member with old | new
  · exact readable piece old
  · rw [List.mem_singleton] at new
    rw [new]
    exact lastReadable

/-! ### Navigation -/

/-- A step that adds a piece. -/
theorem Follows.step (follows : asserter.Follows trail pieces) {piece : Piece}
    (readable : piece.IsReadable) {focus : Focus} (fieldName : Option String)
    (noField : focus ≠ .field) (noElements : focus ≠ .arrayValue) :
    (asserter.step focus fieldName piece.text).Follows (trail.goOn piece.segments)
      (pieces ++ [piece]) := by
  apply follows_of_plain
  · rw [Asserter.step, follows.pieces_eq, List.map_append, List.cons_append, List.map_singleton]
  · rw [follows.segments_eq, List.flatMap_append, List.flatMap_singleton]
  · exact readable_concat follows.readable readable
  · exact noField
  · exact noElements

theorem Follows.field (follows : asserter.Follows trail pieces) {name : String}
    (readable : keepsBackslashes name.toList = true) :
    (asserter.field (NameStyle.bracketed.wrap name)).Follows (trail.toMember name)
      (pieces ++ [.steps [.member name]]) where
  pieces_eq := by
    rw [Asserter.field, Asserter.step, follows.pieces_eq, List.map_append, List.cons_append,
      List.map_singleton, Piece.text, Hop.textOf_singleton, Hop.text]
  segments_eq := by
    rw [Trail.toMember, follows.segments_eq, List.flatMap_append, List.flatMap_singleton]
    rfl
  readable := by
    apply readable_concat follows.readable
    simpa [Piece.IsReadable, Hop.isReadable] using readable
  ofMember := by
    intro other isName
    cases isName
    exact ⟨⟨pieces, rfl⟩, rfl, rfl⟩
  ofNoMember := by
    intro impossible
    cases impossible
  elements_iff := by
    constructor
    · intro impossible
      cases impossible
    · intro impossible
      cases impossible

theorem Follows.array (follows : asserter.Follows trail pieces) {name : String}
    (readable : keepsBackslashes name.toList = true) :
    (asserter.array (NameStyle.bracketed.wrap name)).Follows
      (trail.goOn [.child name, .wildcard]) (pieces ++ [.steps [.member name, .every]]) := by
  have wrapped : "." ++ NameStyle.bracketed.wrap name ++ "[*]" =
      (Piece.steps [.member name, .every]).text := by
    have split : [Hop.member name, .every] = [.member name] ++ [.every] := rfl
    rw [Piece.text, split, Hop.textOf_append, Hop.textOf_singleton, Hop.textOf_singleton,
      Hop.text, Hop.text]
  have isReadable : (Piece.steps [.member name, .every]).IsReadable := by
    simpa [Piece.IsReadable, Hop.isReadable] using readable
  rw [Asserter.array, wrapped]
  exact follows.step isReadable _ (by simp) (by simp)

theorem Follows.anonymousArray (follows : asserter.Follows trail pieces) :
    asserter.anonymousArray.Follows (trail.goOn [.wildcard]) (pieces ++ [.steps [.every]]) := by
  have wildcard : "[*]" = (Piece.steps [.every]).text := by
    rw [Piece.text, Hop.textOf_singleton, Hop.text]
  have isReadable : (Piece.steps [.every]).IsReadable := by
    simp [Piece.IsReadable, Hop.isReadable]
  rw [Asserter.anonymousArray, wildcard]
  exact follows.step isReadable none (by simp) (by simp)

/-- Turning to the elements adds nothing to the path. -/
theorem Follows.arrayField (follows : asserter.Follows trail pieces) :
    asserter.arrayField.Follows ⟨trail.segments, none, true⟩ pieces where
  pieces_eq := follows.pieces_eq
  segments_eq := follows.segments_eq
  readable := follows.readable
  ofMember := by
    intro name impossible
    cases impossible
  ofNoMember := by
    intro _ impossible
    cases impossible
  elements_iff := by
    constructor
    · intro _
      rfl
    · intro _
      rfl

/-! ### Elements by their positions -/

theorem dropWildcard_concat (front : List String) (last : String) :
    dropWildcard (front ++ [last]) = front ++ dropWildcard [last] := by
  rw [dropWildcard, dropWildcard, List.getLast?_concat, List.getLast?_singleton]
  simp only
  split
  · split
    · simp
    · simp
  · rfl

/-- The text of a condition does not end like that of a wildcard. -/
theorem not_endsWith_wildcard (inside : List Hop) (sign right : String) :
    (comparisonText inside sign right).endsWith "[*]" = false := by
  rw [← Bool.not_eq_true]
  intro ends
  have suffix : "[*]".toList <:+ (comparisonText inside sign right).toList := by
    rwa [← String.endsWith_toSlice, String.Slice.endsWith_string_iff,
      String.copy_toSlice] at ends
  rw [← List.reverse_prefix] at suffix
  simp [comparisonText] at suffix

theorem withoutWildcard_concat_ne {front : List Segment} {last : Segment}
    (named : last ≠ .wildcard) : Trail.withoutWildcard (front ++ [last]) = front ++ [last] := by
  rw [Trail.withoutWildcard, List.getLast?_concat]
  cases last with
  | wildcard => exact absurd rfl named
  | _ => rfl

theorem withoutWildcard_concat (front : List Segment) :
    Trail.withoutWildcard (front ++ [.wildcard]) = front := by
  rw [Trail.withoutWildcard, List.getLast?_concat]
  exact List.dropLast_concat

/-- Taking a wildcard away from the pieces takes it away from the segments. -/
theorem Follows.exists_withoutWildcard (follows : asserter.Follows trail pieces) :
    ∃ others : List Piece, dropWildcard asserter.pieces = "$" :: others.map Piece.text ∧
      Trail.withoutWildcard trail.segments = others.flatMap Piece.segments ∧
      ∀ piece ∈ others, piece.IsReadable := by
  have readable := follows.readable
  rw [follows.pieces_eq, follows.segments_eq]
  rcases List.eq_nil_or_concat' pieces with rfl | ⟨front, last, rfl⟩
  · exact ⟨[], by decide, rfl, by simp⟩
  · rw [List.map_append, List.map_singleton, ← List.cons_append, dropWildcard_concat,
      List.flatMap_append, List.flatMap_singleton]
    have lastReadable := readable last (List.mem_append_right _ List.mem_cons_self)
    have frontReadable : ∀ piece ∈ front, piece.IsReadable := fun piece member =>
      readable piece (List.mem_append_left _ member)
    cases last with
    | condition inside comparison text right =>
        refine ⟨front ++ [.condition inside comparison text right], ?_, ?_, readable⟩
        · simp [dropWildcard, Piece.text, not_endsWith_wildcard]
        · rw [Piece.segments, withoutWildcard_concat_ne (by simp), List.flatMap_append,
            List.flatMap_singleton, Piece.segments]
    | steps hops =>
        obtain ⟨filled, hopsReadable⟩ := lastReadable
        rw [Piece.text, Piece.segments]
        rcases List.eq_nil_or_concat' hops with rfl | ⟨init, hop, rfl⟩
        · exact absurd rfl filled
        · rw [List.map_append, List.map_singleton, ← List.append_assoc]
          by_cases isEvery : hop = .every
          · subst isEvery
            rw [Hop.segment, withoutWildcard_concat]
            have ends := (Recorder.endsWith_wildcard_iff (init ++ [Hop.every])).mpr
              (List.getLast?_concat)
            by_cases alone : init = []
            · subst alone
              refine ⟨front, ?_, by simp, frontReadable⟩
              rw [dropWildcard, List.getLast?_singleton]
              simp only [ends, if_true, Recorder.toList_dropLast_wildcard]
              simp
            · have stays : (Hop.textOf init).isEmpty = false := by
                rw [← Bool.not_eq_true, String.isEmpty_iff, Recorder.textOf_eq_empty_iff]
                exact alone
              refine ⟨front ++ [.steps init], ?_, by simp [Piece.segments], ?_⟩
              · rw [dropWildcard, List.getLast?_singleton]
                simp only [ends, if_true, Recorder.toList_dropLast_wildcard, String.ofList_toList,
                  stays]
                simp [Piece.text]
              · exact readable_concat frontReadable ⟨alone, fun other member =>
                  hopsReadable other (List.mem_append_left _ member)⟩
          · have named : hop.segment ≠ .wildcard := by
              cases hop with
              | every => exact absurd rfl isEvery
              | _ => simp [Hop.segment]
            have kept : (Hop.textOf (init ++ [hop])).endsWith "[*]" = false := by
              rw [← Bool.not_eq_true, Recorder.endsWith_wildcard_iff, List.getLast?_concat,
                Option.some.injEq]
              exact isEvery
            refine ⟨front ++ [.steps (init ++ [hop])], ?_, ?_, readable⟩
            · simp [dropWildcard, Piece.text, kept]
            · rw [withoutWildcard_concat_ne named]
              simp [Piece.segments]

theorem Follows.elementWithIndex (follows : asserter.Follows trail pieces) {index : Nat}
    (small : index < twoTo 63) : ∃ others : List Piece,
      (asserter.elementWithIndex index).Follows
        ⟨Trail.withoutWildcard trail.segments ++ [.element index], none, false⟩ others := by
  obtain ⟨others, dropped, segments, readable⟩ := follows.exists_withoutWildcard
  refine ⟨others ++ [.steps [.position index]], ?_⟩
  apply follows_of_plain
  · rw [Asserter.elementWithIndex, dropped, List.map_append, List.cons_append,
      List.map_singleton, Piece.text, Hop.textOf_singleton, Hop.text]
  · rw [segments, List.flatMap_append, List.flatMap_singleton]
    rfl
  · apply readable_concat readable
    simpa [Piece.IsReadable, Hop.isReadable] using small
  · simp [Asserter.elementWithIndex]
  · simp [Asserter.elementWithIndex]

/-! ### Checks -/

theorem comparisonText_nil (sign right : String) :
    comparisonText [] sign right = "[?(@ " ++ sign ++ " " ++ right ++ ")]" := by
  apply String.toList_injective
  simp [comparisonText]

theorem comparisonText_member (name sign right : String) :
    comparisonText [.member name] sign right =
      "[?(@." ++ NameStyle.bracketed.wrap name ++ " " ++ sign ++ " " ++ right ++ ")]" := by
  apply String.toList_injective
  simp [comparisonText, Hop.text]

/-- A condition is written behind the pieces in front of what it is about. -/
theorem Follows.exists_front (follows : asserter.Follows trail pieces) (sign right : String) :
    ∃ (front : List Piece) (inside : List Hop), (∀ piece ∈ front, piece.IsReadable) ∧
      (∀ hop ∈ inside, hop.isReadable = true) ∧
      trail.subject = (front.flatMap Piece.segments, .current (inside.map Hop.segment) false) ∧
      asserter.withCondition sign right = { asserter with
        focus := .checked
        pieces := "$" :: (front.map Piece.text ++ [comparisonText inside sign right]) } := by
  have readable := follows.readable
  rw [Trail.subject]
  cases isMember : trail.member? with
  | none =>
      have noField := follows.ofNoMember isMember
      refine ⟨pieces, [], readable, by simp, by rw [follows.segments_eq]; rfl, ?_⟩
      rw [Asserter.withCondition.eq_def, comparisonText_nil]
      split
      · rename_i isField _
        exact absurd isField noField
      · rw [follows.pieces_eq, List.cons_append]
  | some name =>
      obtain ⟨⟨front, ends⟩, isField, isName⟩ := follows.ofMember name isMember
      have member : (Piece.steps [.member name]).IsReadable :=
        readable _ (by rw [ends]; exact List.mem_append_right _ List.mem_cons_self)
      have shorter : trail.segments.dropLast = front.flatMap Piece.segments := by
        rw [follows.segments_eq, ends, List.flatMap_append, List.flatMap_singleton]
        exact List.dropLast_concat
      refine ⟨front, [.member name], ?_, member.2, by rw [shorter]; rfl, ?_⟩
      · exact fun piece isIn => readable piece (by rw [ends]; exact List.mem_append_left _ isIn)
      · rw [Asserter.withCondition.eq_def, isField, isName, comparisonText_member]
        simp only
        rw [follows.pieces_eq, ends, List.map_append, List.map_singleton, ← List.cons_append,
          List.dropLast_concat, List.cons_append]

/-- A condition takes the place of the member that it is about. -/
theorem Follows.withCondition (follows : asserter.Follows trail pieces) (comparison : Comparison)
    {text : String} {right : Operand} (isRight : ReadsAs text.toList right)
    (fits : comparison = .matching → ∃ regex, right = .regex regex) :
    ∃ others : List Piece, (asserter.withCondition comparison.sign text).Follows
      (trail.filtered comparison right) others := by
  obtain ⟨front, inside, readable, insideReadable, subject, written⟩ :=
    follows.exists_front comparison.sign text
  rw [Trail.filtered_eq, subject, written]
  refine ⟨front ++ [.condition inside comparison text right], ?_⟩
  apply follows_of_plain
  · rw [List.map_append, List.map_singleton, Piece.text]
  · rw [List.flatMap_append, List.flatMap_singleton]
    rfl
  · exact readable_concat readable ⟨insideReadable, isRight, fits⟩
  · simp
  · simp

/-- A check that only looks at what is selected adds nothing to the path. -/
theorem Follows.finished (follows : asserter.Follows trail pieces) :
    asserter.finished.Follows (trail.goOn []) pieces := by
  apply follows_of_plain
  · exact follows.pieces_eq
  · rw [follows.segments_eq, List.append_nil]
  · exact follows.readable
  · simp [Asserter.finished]
  · simp [Asserter.finished]

theorem literalReads_of_isExactLiteral {value : Json} (exact : value.isExactLiteral = true) :
    LiteralReads value value := by
  cases value with
  | null => exact .null
  | bool flag => exact .bool flag
  | string text => exact .string text
  | number number =>
      cases number with
      | int value => exact literalReads_int exact
      | float value => cases exact
  | array elements => cases exact
  | object members => cases exact

/-! ## Steps and moves -/

/-- A step goes where its rule on trails says. -/
theorem Follows.target (follows : asserter.Follows trail pieces) {call : Call}
    (allowed : trail.Allows call) :
    ∃ others : List Piece, (call.wrapped.target asserter).Follows (trail.after call) others := by
  cases call with
  | contains value =>
      obtain ⟨among, exact⟩ := allowed
      have isRight := readsAs_literal (literalReads_of_isExactLiteral exact)
      have readable : (Piece.condition [] .equal value.filterLiteral (.literal value)).IsReadable :=
        ⟨by simp, isRight, by simp⟩
      have same : asserter.contains value = asserter.step .checked none
          (Piece.condition [] .equal value.filterLiteral (.literal value)).text := by
        rw [Asserter.contains, if_pos (follows.elements_iff.mp among), Piece.text,
          comparisonText_nil]
        rfl
      have target : (Call.contains value).wrapped.target asserter = asserter.contains value := rfl
      rw [target, same]
      exact ⟨_, follows.step readable none (by simp) (by simp)⟩
  | field name => exact ⟨_, follows.field allowed⟩
  | array name => exact ⟨_, follows.array allowed⟩
  | anonymousArray => exact ⟨_, follows.anonymousArray⟩
  | arrayField => exact ⟨_, follows.arrayField⟩
  | elementWithIndex index => exact follows.elementWithIndex allowed
  | isEqualTo value =>
      exact follows.withCondition .equal
        (readsAs_literal (literalReads_of_isExactLiteral allowed)) (by simp)
  | isNull =>
      exact follows.withCondition .equal (readsAs_literal .null) (by simp)
  | matching pattern =>
      obtain ⟨regex, isWhole⟩ := Option.isSome_iff_exists.mp allowed
      rw [Trail.after, isWhole]
      exact follows.withCondition .matching (readsAs_regex isWhole)
        (fun _ => ⟨regex, rfl⟩)
  | isEmpty => exact ⟨_, follows.finished⟩
  | isInstanceOf className => exact ⟨_, follows.finished⟩
  | hasSize size => exact ⟨_, follows.finished⟩
  | isPresent => exact ⟨_, follows.finished⟩

theorem Follows.fieldPath (follows : asserter.Follows trail pieces) {names : List String}
    (readable : ∀ name ∈ names, keepsBackslashes name.toList = true) :
    ∃ others : List Piece, (asserter.fieldPath (names.map NameStyle.bracketed.wrap)).Follows
      (names.foldl Trail.toMember trail) others := by
  induction names generalizing asserter trail pieces with
  | nil => exact ⟨pieces, follows⟩
  | cons name rest inductionHypothesis =>
      exact inductionHypothesis (follows.field (readable name List.mem_cons_self))
        fun other member => readable other (List.mem_cons_of_mem name member)

theorem fieldPath_on (asserter : Asserter) (document : Json) (isStrict : Bool)
    (names : List String) : (asserter.on document isStrict).fieldPath names =
      (asserter.fieldPath names).on document isStrict := by
  induction names generalizing asserter with
  | nil => rfl
  | cons name rest inductionHypothesis => exact inductionHypothesis (asserter.field name)

/-- A move goes where its rule on trails says, on every document; without checks it
always succeeds. -/
theorem Follows.move (follows : asserter.Follows trail pieces) {move : Move}
    (allowed : trail.AllowsMove move) :
    ∃ (next : Asserter) (others : List Piece), next.Follows (trail.move move) others ∧
      (∀ document, move.apply (asserter.on document false) = .ok (next.on document false)) ∧
      ∀ document isStrict reached, move.apply (asserter.on document isStrict) = .ok reached →
        ∃ staysStrict, reached = next.on document staysStrict := by
  cases move with
  | step call =>
      obtain ⟨others, goesOn⟩ := follows.target allowed
      obtain ⟨lenient, moved⟩ := call.wrapped.movesTo_target asserter
      exact ⟨_, others, goesOn, lenient, fun document isStrict reached succeeds =>
        ⟨isStrict, moved document isStrict reached succeeds⟩⟩
  | fieldPath names =>
      obtain ⟨others, goesOn⟩ := follows.fieldPath allowed
      refine ⟨_, others, goesOn, ?_, ?_⟩
      · intro document
        rw [Move.apply, fieldPath_on]
      · intro document isStrict reached succeeds
        rw [Move.apply, fieldPath_on] at succeeds
        cases succeeds
        exact ⟨isStrict, rfl⟩
  | withoutChecks =>
      refine ⟨asserter, pieces, follows, fun _ => rfl, ?_⟩
      intro document isStrict reached succeeds
      cases succeeds
      exact ⟨false, rfl⟩

/-- Moves one after another go where their rules say. -/
theorem Follows.moveAll (follows : asserter.Follows trail pieces) {moves : List Move}
    (allowed : trail.AllowsAll moves) :
    ∃ (next : Asserter) (others : List Piece), next.Follows (trail.moveAll moves) others ∧
      (∀ document, Move.applyAll moves (asserter.on document false) =
        .ok (next.on document false)) ∧
      ∀ document isStrict reached,
        Move.applyAll moves (asserter.on document isStrict) = .ok reached →
          ∃ staysStrict, reached = next.on document staysStrict := by
  induction moves generalizing asserter trail pieces with
  | nil =>
      refine ⟨asserter, pieces, follows, fun _ => rfl, ?_⟩
      intro document isStrict reached succeeds
      cases succeeds
      exact ⟨isStrict, rfl⟩
  | cons move rest inductionHypothesis =>
      obtain ⟨middle, middlePieces, goesOn, lenient, moved⟩ := follows.move allowed.1
      obtain ⟨next, others, goesOnToo, restLenient, restMoved⟩ :=
        inductionHypothesis goesOn allowed.2
      refine ⟨next, others, goesOnToo, ?_, ?_⟩
      · intro document
        rw [Move.applyAll, lenient]
        exact restLenient document
      · intro document isStrict reached succeeds
        rw [Move.applyAll, bind_eq_ok_iff] at succeeds
        obtain ⟨between, first, later⟩ := succeeds
        obtain ⟨stillStrict, rfl⟩ := moved document isStrict between first
        exact restMoved document stillStrict reached later

/-- In whatever order moves with a rule are made from the root of a document, the
path that has been built is read as the segments of the trail.  Without checks
the moves always succeed. -/
theorem parse_path_applyAll (document : Json) {moves : List Move}
    (allowed : Trail.root.AllowsAll moves) :
    (∃ reached, Move.applyAll (.withoutChecks :: moves) (ofDocument document) = .ok reached ∧
      parse reached.path = .ok ⟨reached.path, (Trail.root.moveAll moves).segments⟩) ∧
    ∀ reached, Move.applyAll moves (ofDocument document) = .ok reached →
      parse reached.path = .ok ⟨reached.path, (Trail.root.moveAll moves).segments⟩ := by
  obtain ⟨next, others, goesOn, lenient, moved⟩ := (follows_root document).moveAll allowed
  refine ⟨⟨next.on document false, lenient document, (goesOn.on document false).parse_path⟩, ?_⟩
  intro reached succeeds
  obtain ⟨staysStrict, rfl⟩ := moved document true reached succeeds
  exact (goesOn.on document staysStrict).parse_path

/-- An element of an array, then one of its members whose name holds a quote, and a
second check behind the first. -/
def twoChecks : List Move :=
  [.step (.array "rows"), .step (.elementWithIndex 2), .fieldPath ["it's"],
    .step (.matching "a/b"), .step .arrayField, .step (.contains (.number (.int 7)))]

theorem parse_path_twoChecks : Trail.root.AllowsAll twoChecks ∧
    (∃ reached, Move.applyAll (.withoutChecks :: twoChecks) (ofDocument .null) = .ok reached ∧
      parse reached.path = .ok ⟨reached.path, (Trail.root.moveAll twoChecks).segments⟩) := by
  have rows : keepsBackslashes "rows".toList = true := by decide
  have quoted : ∀ name ∈ ["it's"], keepsBackslashes name.toList = true := by decide
  have slash : (wholeMatch? "a/b").isSome = true := by decide +kernel
  have small : 2 < twoTo 63 := by decide
  have fits : Number.fits 7 = true := by decide
  have allowed : Trail.root.AllowsAll twoChecks :=
    ⟨rows, small, quoted, slash, trivial, ⟨rfl, fits⟩, trivial⟩
  exact ⟨allowed, (parse_path_applyAll .null allowed).1⟩

/-! ## Where a path cannot be read -/

/-- A position beyond 64 bits with a sign cannot be read. -/
theorem parse_position_beyond {index : Nat} (beyond : twoTo 63 ≤ index)
    (path : BodyContract.Path) : parse ("$[" ++ toString index ++ "]") ≠ .ok path := by
  have outside : ¬ positionInRange (index : Int) = true := by
    rw [positionInRange, Bool.and_eq_true, decide_eq_true_eq, decide_eq_true_eq]
    omega
  have same : ("$[" ++ toString index ++ "]").toList =
      '$' :: '[' :: (Nat.toDigits 10 index ++ [']']) := by simp
  obtain ⟨behind, read⟩ := readPosition_digits index ('$'.utf8Size + '['.utf8Size) []
  rw [if_neg outside] at read
  intro parsed
  rw [parse_of_readSegments_error same (readSegments_of_readBracket_error
    ((readBracket_digits index _ _ []).trans (by rw [read]; rfl)))] at parsed
  cases parsed

/-- A pattern that the engine refuses as a whole match cannot be read at the root. -/
theorem parse_matching_refused {pattern : String} {body : List Char}
    (isPlain : plainSlashes? pattern.toList = some body)
    (refused : fullMatch? (String.ofList body) false = none) (path : BodyContract.Path) :
    parse ("$" ++ comparisonText [] "=~" ("/" ++ escapeSlashes pattern ++ "/")) ≠ .ok path := by
  have isRoot : parse "$" = .ok ⟨"$", []⟩ := @parse_hops [] (by simp)
  have nothing : stepsInFilter? [] = some [] := @stepsInFilter?_hops [] (by simp)
  have same : ("$" ++ comparisonText [] "=~" ("/" ++ escapeSlashes pattern ++ "/")).toList =
      "$".toList ++ comparing [] .matching
        ('/' :: (escapeSlashesAux false pattern.toList ++ ['/'])) := by
    simp [comparisonText, escapeSlashes, comparing, Comparison.sign]
  have ends := endsInMatch_comparing isRoot nothing isPlain same
  rw [EndsInMatch, refused] at ends
  intro parsed
  rw [ends] at parsed
  cases parsed

end Asserter

namespace Regex

/-- The flags under which blanks and comments do not count. -/
def spaced : RegexFlags := { RegexFlags.initial with extended := true }

theorem skipBlanks_comment {rest : List Char} (oneLine : '\n' ∉ rest) (names : List String) :
    RegexCursor.skipBlanks ⟨'#' :: rest, spaced, names⟩ = ⟨[], spaced, names⟩ := by
  have noBlank : CharSet.whiteSpace.contains '#' = false :=
    whiteSpace_of_isVisible (by decide)
  have dropped : RegexCursor.skipComment rest = [] := by
    rw [RegexCursor.skipComment, List.dropWhile_eq_nil_iff]
    intro c isIn
    rw [bne_iff_ne]
    rintro rfl
    exact oneLine isIn
  have isSpaced : spaced.extended = true := rfl
  have nothing : ∀ fuel, RegexCursor.skipBlanksAux fuel [] = [] := by
    intro fuel
    cases fuel <;> rfl
  rw [RegexCursor.skipBlanks, if_pos isSpaced, List.length_cons, RegexCursor.skipBlanksAux,
    noBlank, if_neg Bool.false_ne_true, if_pos rfl, dropped, nothing]
  rfl

theorem readBranches?_comment {rest : List Char} (oneLine : '\n' ∉ rest) (fuel : Nat) :
    readBranches? (fuel + 1) [] [none] ⟨'#' :: rest, spaced, []⟩ =
      some (ofItems [none], ⟨[], spaced, []⟩) := by
  rw [readBranches?, skipBlanks_comment oneLine]
  rfl

/-- A pattern that ends in a comment is accepted alone, but not in front of the end
of a whole match. -/
theorem fullMatch?_comment :
    (parse? "(?x)#").isSome = true ∧ Path.fullMatch? "(?x)#" false = none := by
  constructor
  · have inside : readBranches? 12 [] [] ⟨"(?x)#".toList, .initial, []⟩ =
        readBranches? 11 [] [none] ⟨['#'], spaced, []⟩ := rfl
    rw [readBranches?_comment (by decide)] at inside
    have length : 2 * "(?x)#".toList.length + 2 = 12 := rfl
    rw [parse?, length, inside]
    rfl
  · -- the comment goes over the parenthesis that would close the group
    have inside : ∃ behindGroup, readBranches? 24 [] [] ⟨"^(?:(?x)#)$".toList, .initial, []⟩ =
        (readBranches? 21 [] [none] ⟨['#', ')', '$'], spaced, []⟩).bind behindGroup ∧
          behindGroup (ofItems [none], ⟨[], spaced, []⟩) = none := ⟨_, rfl, rfl⟩
    obtain ⟨behindGroup, whole, nothing⟩ := inside
    rw [readBranches?_comment (by decide), Option.bind_some, nothing] at whole
    have length : 2 * "^(?:(?x)#)$".toList.length + 2 = 24 := rfl
    have text : "" ++ "^(?:" ++ "(?x)#" ++ ")$" = "^(?:(?x)#)$" := rfl
    rw [Path.fullMatch?, if_neg Bool.false_ne_true, text, parse?, length, whole]
    rfl

end Regex

namespace Asserter

/-- The positions of elements are wider than what can be read of them, and a pattern
that the engine accepts need not be accepted as a whole match. -/
theorem exists_path_not_read :
    (∃ reached, Move.applyAll [.withoutChecks, .step (.elementWithIndex 9223372036854775808)]
        (ofDocument .null) = .ok reached ∧ ∀ path, Path.parse reached.path ≠ .ok path) ∧
      (Regex.parse? "(?x)#").isSome = true ∧
      ∃ reached, Move.applyAll [.withoutChecks, .step (.matching "(?x)#")]
        (ofDocument .null) = .ok reached ∧ ∀ path, Path.parse reached.path ≠ .ok path := by
  refine ⟨⟨_, rfl, ?_⟩, Regex.fullMatch?_comment.1, ⟨_, rfl, ?_⟩⟩
  · exact parse_position_beyond (by decide)
  · exact parse_matching_refused rfl Regex.fullMatch?_comment.2

end Asserter

end BodyContract
