import Mathlib
import BodyContract.Proofs.Chain.Unmarked
import BodyContract.Proofs.Chain.Unordered
import BodyContract.Proofs.Placeholder.Generation
import BodyContract.Proofs.Recording.Matching

/-!
# Generated bodies match their markers

A body with generated values in the place of its markers has the same shape, so
the hops that lead to a marker in one lead to the generated value in the other.
The chain of a marker matches what is generated for it

* if the pattern has one text, and the generated value keeps it, and
* if the route of the chain is sure, as for values that are written out.

All other chains match no pattern.
-/

namespace BodyContract

/-! ## Markers of a body -/

namespace Json

mutual

/-- What the chains for the markers of a value aim at. -/
def markerAimsAt (stance : Stance) : Json → List Aim
  | .object members =>
      if (Json.object members).isMarker then
        [.finds stance.route stance.place stance.name? (.object members)]
      else
        markerAimsOfMembers stance members
  | .array elements =>
      if areSimple elements then
        (elements.filter isMarker).map (.finds stance.hops (stance.there ++ [.every]) none)
      else
        markerAimsOfElements (stance.elements elements) elements
  | _ => []

/-- What the chains for the markers of members aim at. -/
def markerAimsOfMembers (stance : Stance) : List (String × Json) → List Aim
  | [] => []
  | (name, value) :: rest =>
      markerAimsAt (stance.entry name value) value ++ markerAimsOfMembers stance rest

/-- What the chains for the markers of elements aim at. -/
def markerAimsOfElements (stance : Stance) : List Json → List Aim
  | [] => []
  | value :: rest => markerAimsAt (stance.element value) value ++ markerAimsOfElements stance rest

end

theorem mem_markerAimsOfMembers {stance : Stance} {members : List (String × Json)} {aim : Aim} :
    aim ∈ markerAimsOfMembers stance members ↔
      ∃ member ∈ members, aim ∈ markerAimsAt (stance.entry member.1 member.2) member.2 := by
  induction members with
  | nil => simp [markerAimsOfMembers]
  | cons first rest inductionHypothesis =>
      rw [markerAimsOfMembers, List.mem_append, inductionHypothesis, List.exists_mem_cons_iff]

theorem mem_markerAimsOfElements {stance : Stance} {elements : List Json} {aim : Aim} :
    aim ∈ markerAimsOfElements stance elements ↔
      ∃ value ∈ elements, aim ∈ markerAimsAt (stance.element value) value := by
  induction elements with
  | nil => simp [markerAimsOfElements]
  | cons first rest inductionHypothesis =>
      rw [markerAimsOfElements, List.mem_append, inductionHypothesis, List.exists_mem_cons_iff]

/-- Whether the routes of the chains for all markers of a body are right. -/
def reachesMarkers (body : Json) : Bool := (markerAimsAt .root body).all (Aim.isSure body)

/-- Bodies in which every marker has one text and a kind that keeps it, no text
holds a document with markers, and names are kept by paths around markers. -/
inductive IsRecognizable : Json → Prop where
  | unmarked {value : Json} (none : value.IsUnmarked) : IsRecognizable value
  | marker {value : Json} {placeholder : Placeholder} {text : String}
      (isMarker : Placeholder.ofMarker? value = some placeholder)
      (spells : Placeholder.Spells placeholder.pattern text)
      (kept : placeholder.kind.keeps text = true) : IsRecognizable value
  | array {elements : List Json} (each : ∀ element ∈ elements, element.IsRecognizable) :
      IsRecognizable (.array elements)
  | object {members : List (String × Json)} (noMarker : (Json.object members).isMarker = false)
      (distinct : (members.map (·.1)).Nodup)
      (allowed : ∀ member ∈ members, KeepsBackslashes member.1)
      (each : ∀ member ∈ members, member.2.IsRecognizable) : IsRecognizable (.object members)

end Json

/-! ## Chains for markers -/

namespace Recorder

/-- Whether a chain holds on a document if it matches a pattern. -/
def Recognizes (document : Json) (chain : Recorder) : Prop :=
  chain.ChecksPattern → chain.Holds document

theorem IsPatternless.recognizes {chain : Recorder} (patternless : chain.IsPatternless)
    (document : Json) : chain.Recognizes document :=
  fun checks => absurd checks patternless.noPattern

variable {key : Recorder} {pieces : List (List Hop)} {value : Json} {pattern : String}

/-- The check of a marker. -/
theorem Stands.checking_marker (stands : key.Stands pieces)
    (marked : Placeholder.markedPattern? value = some pattern) :
    ∃ chain, key.checking value = .ok chain ∧ chain.Ends key [.matching pattern] := by
  obtain ⟨chain, made, ends⟩ := matching_ends stands.lenient pattern
  refine ⟨chain, ?_, ends⟩
  rw [Recorder.checking, stands.isFinished, marked]
  exact made

/-- The check of a marker holds where a generated value is found. -/
theorem Ends.recognizes {chain : Recorder} (ends : chain.Ends key [.matching pattern])
    (stands : key.Stands pieces) {front inside : List Hop}
    (hops : conditionHops key.delegate.focus pieces = (front, inside)) {regex : FullMatch}
    (isWhole : Path.wholeMatch? pattern = some regex) {document : Json}
    (found : FindsSome front inside (Json.matchesText regex) document) :
    chain.Recognizes document :=
  fun _ => (ends.matching_holds_iff stands hops isWhole document).mpr found

end Recorder

namespace Json

/-- A generated value has a text, so it is no array. -/
theorem ne_array_of_matchesText {regex : FullMatch} {value : Json}
    (matched : value.matchesText regex = true) : ∀ elements, value ≠ .array elements := by
  rintro elements rfl
  cases matched

end Json

namespace Chains

open Recorder

section

variable {key : Recorder} {stance : Stance} {pieces : List (List Hop)} {value other shape actual : Json}
  {placeholder : Placeholder} {text : String} {inText : TextWalk}

/-- The chain of a marker holds if its aim is sure. -/
theorem yields_walk_marker (takes : key.Takes stance pieces)
    (isMarker : Placeholder.ofMarker? value = some placeholder)
    (spells : Placeholder.Spells placeholder.pattern text)
    (kept : placeholder.kind.keeps text = true) (filled : Placeholder.fill value = .ok other)
    (here : IsAt stance.there actual other)
    (sure : ∀ aim ∈ Json.markerAimsAt stance value, aim.isSure shape = true) :
    Yields (Recognizes actual) (walk inText false key value) := by
  have marked := Placeholder.markedPattern?_of_ofMarker? isMarker
  obtain ⟨chain, made, ends⟩ := takes.stands.checking_marker marked
  obtain ⟨regex, isWhole, matched⟩ :=
    Placeholder.matchesText_of_fill isMarker spells kept filled
  cases value with
  | object members =>
      have marks := Json.isMarker_of_markedPattern? marked
      rw [Json.markerAimsAt, if_pos marks] at sure
      rw [walk.eq_def]
      simp only [marks, if_true, made]
      refine yields_singleton (ends.recognizes takes.stands takes.condition isWhole ?_)
      exact findsSome_of_isSure (sure _ (List.mem_singleton_self _)) here
        (Json.ne_array_of_matchesText matched) matched
  | _ => cases marked

/-- A marker among simple values is checked before it is walked. -/
theorem yields_checked_marker (takes : key.Takes stance pieces)
    (isMarker : Placeholder.ofMarker? value = some placeholder)
    (spells : Placeholder.Spells placeholder.pattern text)
    (kept : placeholder.kind.keeps text = true) (filled : Placeholder.fill value = .ok other)
    (here : IsAt (stance.there ++ [.every]) actual other)
    (sure : (Aim.finds stance.hops (stance.there ++ [.every]) none value).isSure shape = true) :
    ∃ checked, key.arrayField.checking value = .ok checked ∧
      Yields (Recognizes actual) (walk inText false checked value) := by
  have marked := Placeholder.markedPattern?_of_ofMarker? isMarker
  obtain ⟨checked, made, ends⟩ := takes.stands.arrayField.checking_marker marked
  obtain ⟨regex, isWhole, matched⟩ :=
    Placeholder.matchesText_of_fill isMarker spells kept filled
  have elementwise : key.arrayField.delegate.focus ≠ .field := Focus.noConfusion
  have hops : conditionHops key.arrayField.delegate.focus pieces = (stance.hops, []) := by
    rw [conditionHops_other elementwise, takes.flatten_eq]
  have there : IsAt (stance.there ++ [.every] ++ []) actual other := by
    rw [List.append_nil]
    exact here
  have recognizes : checked.Recognizes actual :=
    ends.recognizes takes.stands.arrayField hops isWhole
      (findsSome_of_isSure sure there (Json.ne_array_of_matchesText matched) matched)
  refine ⟨checked, made, ?_⟩
  cases value with
  | object members =>
      have marks := Json.isMarker_of_markedPattern? marked
      rw [walk.eq_def]
      simp only [marks, if_true, checking_of_finished ends.finished]
      exact yields_singleton recognizes
  | _ => cases marked

/-- Whether every chain for a value that matches a pattern holds on what has been
generated, wherever the value stands, if all aims at its markers are sure. -/
def IsRecovered (inText : TextWalk) (actual shape value : Json) : Prop :=
  ∀ {key : Recorder} {stance : Stance} {pieces : List (List Hop)} {other : Json},
    key.Takes stance pieces → key.IsPatternless → Placeholder.fill value = .ok other →
      IsAt stance.there actual other → (value.isArray = true → stance.name? = none) →
        (∀ aim ∈ Json.markerAimsAt stance value, aim.isSure shape = true) →
          Yields (Recognizes actual) (walk inText false key value)

variable (avoids : AvoidsPatterns inText)

include avoids

/-- The chains of an unmarked value match no pattern. -/
theorem yields_walk_recognizes_unmarked (unmarked : value.IsUnmarked)
    (patternless : key.IsPatternless) (actual : Json) :
    Yields (Recognizes actual) (walk inText false key value) :=
  (yields_walk_unmarked avoids unmarked patternless).mono
    fun _ chainToo => chainToo.recognizes actual

/-- Markers and other simple values of an array. -/
theorem yields_simple_markers (takes : key.Takes stance pieces) (patternless : key.IsPatternless)
    {elements others : List Json} (each : ∀ element ∈ elements, element.IsRecognizable)
    (simple : elements.all Json.isSimple = true)
    (filled : Placeholder.fillElements elements = .ok others)
    (here : IsAt stance.there actual (.array others))
    (sure : ∀ element ∈ elements, element.isMarker = true → (Aim.finds stance.hops
      (stance.there ++ [.every]) none element).isSure shape = true) :
    Yields (Recognizes actual) (walkSimple inText false key 0 elements) := by
  refine yields_walkSimple fun index value isThere => ?_
  have member := List.mem_of_getElem? isThere
  have isSimple := List.all_eq_true.mp simple value member
  rw [simpleElement, if_neg Bool.false_ne_true]
  cases each value member with
  | unmarked none =>
      obtain ⟨checked, made, checkedToo⟩ :=
        patternless.arrayField.checking value none.markedPattern?_eq_none
      exact ⟨checked, made, yields_walk_recognizes_unmarked avoids none checkedToo actual⟩
  | marker isMarker spells kept =>
      obtain ⟨other, isIn, isFilled⟩ := Placeholder.exists_of_fillElements filled member
      have marks := Json.isMarker_of_markedPattern?
        (Placeholder.markedPattern?_of_ofMarker? isMarker)
      exact yields_checked_marker takes isMarker spells kept isFilled (isAt_element here isIn)
        (sure value member marks)
  | array _ => cases isSimple
  | object noMarker _ _ _ =>
      rw [Json.isSimple, noMarker] at isSimple
      · cases isSimple
      all_goals exact fun _ => Json.noConfusion

/-- An array is recovered if its elements are. -/
theorem isRecovered_array {elements : List Json}
    (each : ∀ element ∈ elements, element.IsRecognizable)
    (recovered : ∀ element ∈ elements, IsRecovered inText actual shape element) :
    IsRecovered inText actual shape (.array elements) := by
  intro key stance pieces other takes patternless filled here unnamed sure
  have noName := unnamed rfl
  obtain ⟨others, isFilled, same⟩ := bind_eq_ok_iff.mp filled
  cases same
  rw [Json.markerAimsAt] at sure
  rw [walk]
  split
  · exact yields_singleton (patternless.recognizes actual)
  · by_cases simple : Json.areSimple elements = true
    · rw [if_pos simple] at sure ⊢
      have all := simple
      rw [Json.areSimple, Bool.and_eq_true] at all
      have noSize : key.sizeCheck false elements.length = .ok [] := rfl
      rw [noSize]
      have sureToo : ∀ element ∈ elements, element.isMarker = true → (Aim.finds stance.hops
          (stance.there ++ [.every]) none element).isSure shape = true :=
        fun element member marks =>
          sure _ (List.mem_map.mpr ⟨element, List.mem_filter.mpr ⟨member, marks⟩, rfl⟩)
      exact yields_nil.append
        (yields_simple_markers avoids takes patternless each all.2 isFilled here sureToo)
    · rw [if_neg simple] at sure ⊢
      rw [if_neg Bool.false_ne_true]
      obtain ⟨_, reached⟩ := takes.elements noName elements
      have stillNoName := Stance.elements_name? noName elements
      refine yields_walkElements fun element member => ?_
      obtain ⟨_, moved⟩ := reached.element element
      obtain ⟨next, isIn, isNext⟩ := Placeholder.exists_of_fillElements isFilled member
      refine recovered element member moved ((patternless.elements elements).element element)
        isNext ?_ ?_ ?_
      · rw [Stance.element_there stillNoName, Stance.elements_there]
        exact isAt_element here isIn
      · exact fun _ => Stance.element_name? stillNoName element
      · exact fun aim isAim =>
          sure aim (Json.mem_markerAimsOfElements.mpr ⟨element, member, isAim⟩)

omit avoids in
/-- An object that is no marker is recovered if its members are. -/
theorem isRecovered_object {members : List (String × Json)}
    (noMarker : (Json.object members).isMarker = false) (distinct : (members.map (·.1)).Nodup)
    (allowed : ∀ member ∈ members, KeepsBackslashes member.1)
    (recovered : ∀ member ∈ members, IsRecovered inText actual shape member.2) :
    IsRecovered inText actual shape (.object members) := by
  intro key stance pieces other takes patternless filled here _ sure
  have unmarked := Json.markedPattern?_eq_none_iff.mpr noMarker
  rw [Placeholder.fill, Placeholder.ofMarker?_eq_none unmarked] at filled
  obtain ⟨others, isFilled, same⟩ := bind_eq_ok_iff.mp filled
  cases same
  rw [Json.markerAimsAt, if_neg (Bool.eq_false_iff.mp noMarker)] at sure
  rw [walk.eq_def]
  simp only [noMarker, if_neg Bool.false_ne_true]
  split
  · obtain ⟨chain, made, chainToo⟩ := patternless.isEmpty
    rw [made]
    exact yields_singleton (chainToo.recognizes actual)
  · refine yields_walkMembers fun member isIn => ?_
    obtain ⟨entry, entered, entryToo⟩ := patternless.entry member.1 member.2
    refine ⟨entry, entered, ?_⟩
    by_cases empty : member.2 = .array []
    · rw [empty, walk]
      exact yields_singleton (entryToo.recognizes actual)
    · obtain ⟨same, _, reached, moved⟩ := takes.entry (allowed member isIn) empty
      rw [entered] at reached
      cases reached
      obtain ⟨next, isThere, isNext⟩ := Placeholder.lookup_of_fillMembers isFilled
        (Json.lookup_of_mem distinct isIn)
      refine recovered member isIn moved entryToo isNext ?_ Stance.entry_name? ?_
      · rw [Stance.entry_there]
        exact isAt_member here isThere
      · exact fun aim isAim => sure aim (Json.mem_markerAimsOfMembers.mpr ⟨member, isIn, isAim⟩)

/-- Recognizable values are recovered. -/
theorem isRecovered_of_isRecognizable (recognizable : value.IsRecognizable) :
    IsRecovered inText actual shape value := by
  induction recognizable with
  | unmarked none =>
      intro key stance pieces other _ patternless _ _ _ _
      exact yields_walk_recognizes_unmarked avoids none patternless actual
  | marker isMarker spells kept =>
      intro key stance pieces other takes _ filled here _ sure
      exact yields_walk_marker takes isMarker spells kept filled here sure
  | array each inductionHypothesis => exact isRecovered_array avoids each inductionHypothesis
  | object noMarker distinct allowed _ inductionHypothesis =>
      exact isRecovered_object noMarker distinct allowed inductionHypothesis

end

/-- The chains of the document that a body is. -/
theorem yields_recorded_recognizes {body actual : Json} (recognizable : body.IsRecognizable)
    (reached : body.reachesMarkers = true) (filled : Placeholder.fill body = .ok actual)
    (checksEmptyBody : Bool) :
    Yields (Recognizes actual) (recorded ⟨false, .bracketed, checksEmptyBody⟩ (documentOf body)) := by
  have avoids := avoidsPatterns_walkText (documentOf body).chars.length
  have patternless := isPatternless_root (documentOf body) .bracketed
  have asBody : documentOf body = body → Yields (Recognizes actual)
      (recorded ⟨false, .bracketed, checksEmptyBody⟩ (documentOf body)) := by
    intro same
    rw [Json.reachesMarkers, List.all_eq_true] at reached
    rw [same] at avoids patternless ⊢
    exact isRecovered_of_isRecognizable avoids recognizable (takes_root body) patternless filled rfl
      (fun _ => rfl) reached
  cases body with
  | string text =>
      cases recognizable with
      | marker isMarker _ _ => cases isMarker
      | unmarked none =>
          cases none with
          | string inside =>
              cases read : Json.parse? text with
              | none => exact asBody (by rw [documentOf, read]; rfl)
              | some document =>
                  refine yields_walk_recognizes_unmarked avoids ?_ patternless actual
                  rw [documentOf, read]
                  exact inside document read
  | _ => exact asBody rfl

theorem isLiteral_fortyTwo : Pattern.IsLiteral "42".toList "42".toList :=
  .plain (by decide) (.plain (by decide) .nil)

theorem isLiteral_dotted : Pattern.IsLiteral "a\\.".toList "a.".toList :=
  .plain (by decide) (.escaped (by decide) (by decide) .nil)

theorem isLiteral_true : Pattern.IsLiteral "true".toList "true".toList :=
  .plain (by decide) (.plain (by decide) (.plain (by decide) (.plain (by decide) .nil)))

/-- No literal, but an expression with one text all the same. -/
theorem ofExpression_sameTwice (source : RandomSource) : Sampler.ofExpression "b|b" source =
    .ok ⟨.ofText ['b'], source, Sampler.defaultLimit⟩ := by
  have expanded : Pattern.expandShorthands "b|b" = "b|b" := by decide +kernel
  have read : Pattern.parse "b|b" = .ok (.choice [.literal 'b', .literal 'b']) := by cbv
  have built : Automaton.ofPattern (.choice [.literal 'b', .literal 'b']) =
      .ok (.ofText ['b']) := by cbv
  rw [Sampler.ofExpression, expanded]
  exact bind_eq_ok_iff.mpr ⟨_, read, bind_eq_ok_iff.mpr ⟨_, built, rfl⟩⟩

theorem spells_sameTwice : Placeholder.Spells "b|b" "b" := by
  have found : (Path.wholeMatch? "b|b").any (·.regex.isMatch (String.ofList ['b'])) = true := by
    decide +kernel
  have matched : ∃ regex, Path.wholeMatch? "b|b" = some regex ∧
      regex.regex.isMatch (String.ofList ['b']) = true := (Option.any_eq_true _ _).mp found
  exact Placeholder.spells_of_forces (Automaton.forces_ofText ['b']) ofExpression_sameTwice matched

section

open Placeholder

theorem generate_fortyTwo : generate ⟨"42", .integer⟩ = .ok (.int 42) := by
  have built : Automaton.ofPattern (.ofSequence ("42".toList.map .literal)) =
      .ok (.ofText "42".toList) := by cbv
  have whole : wholeBetween? (-twoTo 31) (twoTo 31 - 1) (String.ofList "42".toList) = some 42 := by
    decide +kernel
  have read : ValueKind.integer.read? (String.ofList "42".toList) = some (.int 42) :=
    congrArg (Option.map Json.int) whole
  exact generate_literal isLiteral_fortyTwo built (by decide) read

theorem generate_dotted : generate ⟨"a\\.", .text⟩ = .ok (.string "a.") := by
  have built : Automaton.ofPattern (.ofSequence ("a.".toList.map .literal)) =
      .ok (.ofText "a.".toList) := by cbv
  exact generate_literal isLiteral_dotted built (by decide) rfl

theorem generate_sameTwice : generate ⟨"b|b", .text⟩ = .ok (.string "b") := by
  have forces := Automaton.forces_ofText ['b']
  have made : ∀ source, Sampler.ofExpression (Placeholder.mk "b|b" .text).pattern source =
      .ok ⟨.ofText ['b'], source, Sampler.defaultLimit⟩ := ofExpression_sameTwice
  have read : ValueKind.text.read? (String.ofList ['b']) = some (.string "b") := rfl
  refine generate_of_forces forces made (by decide) ?_
  exact read

theorem generate_true : generate ⟨"true", .boolean⟩ = .ok (.bool true) := by
  have built : Automaton.ofPattern (.ofSequence ("true".toList.map .literal)) =
      .ok (.ofText "true".toList) := by cbv
  have read : ValueKind.boolean.read? (String.ofList "true".toList) = some (.bool true) := rfl
  exact generate_literal isLiteral_true built (by decide) read

/-- A ticket of which the number, a code, the kind and a mark are given by patterns. -/
def ticket : Json :=
  .object [("id", marker ⟨"42", .integer⟩),
    ("codes", .array [marker ⟨"a\\.", .text⟩, .string "x"]),
    ("kind", marker ⟨"b|b", .text⟩), ("paid", marker ⟨"true", .boolean⟩)]

/-- The ticket that is generated. -/
def issuedTicket : Json :=
  .object [("id", .int 42), ("codes", .array [.string "a.", .string "x"]), ("kind", .string "b"),
    ("paid", .string "true")]

theorem isRecognizable_ticket : ticket.IsRecognizable := by
  have noDocument : Json.parse? "x" = none := by cbv
  have plain : (Json.string "x").IsUnmarked := .string fun document isDocument => by
    rw [noDocument] at isDocument
    cases isDocument
  have codes : ∀ element ∈ [marker ⟨"a\\.", .text⟩, .string "x"], element.IsRecognizable :=
    List.forall_mem_cons.mpr
      ⟨.marker (ofMarker?_marker _) (.literal isLiteral_dotted) (by decide),
        List.forall_mem_singleton.mpr (.unmarked plain)⟩
  have names : ["id", "codes", "kind", "paid"].all (Path.keepsBackslashes ·.toList) = true := by
    decide
  refine .object rfl (by decide)
    (fun member isIn => List.all_eq_true.mp names _ (List.mem_map_of_mem isIn)) ?_
  simp only [List.forall_mem_cons]
  exact ⟨.marker (ofMarker?_marker _) (.literal isLiteral_fortyTwo) (by decide +kernel),
    .array codes, .marker (ofMarker?_marker _) spells_sameTwice (by decide),
    .marker (ofMarker?_marker _) (.literal isLiteral_true) (by decide), List.forall_mem_nil _⟩

theorem fill_ticket : fill ticket = .ok issuedTicket := by
  have code : fill (marker ⟨"a\\.", .text⟩) = .ok (.string "a.") := fill_text generate_dotted
  have kind : fill (marker ⟨"b|b", .text⟩) = .ok (.string "b") := fill_text generate_sameTwice
  have paid : fill (marker ⟨"true", .boolean⟩) = .ok (.string "true") := by
    rw [fill_marker (ofMarker?_marker _), generateEscaped, generate_true]
    rfl
  have plain : fill (.string "x") = .ok (.string "x") := rfl
  have noElements : fillElements [] = .ok [] := rfl
  have noMembers : fillMembers [] = .ok [] := rfl
  have codes := fill_array (fillElements_cons code (fillElements_cons plain noElements))
  exact fill_object rfl (fillMembers_cons (fill_integer generate_fortyTwo)
    (fillMembers_cons codes (fillMembers_cons kind (fillMembers_cons paid noMembers))))

/-- Whether a chain for a pattern with one text fails on the body that is generated. -/
def Misses (pattern : String) (body : Json) : Prop :=
  (∃ text, Placeholder.Spells pattern text) ∧
    ∃ actual chains, fill body = .ok actual ∧
      ofBody ⟨false, .bracketed, false⟩ body = .ok chains ∧
        ∃ chain ∈ chains.toList, Call.matching pattern ∈ chain.calls ∧ ¬ chain.Holds actual

section

variable {pattern text : String} {regex : FullMatch}
  (isLiteral : Pattern.IsLiteral pattern.toList text.toList)
  (isWhole : Path.wholeMatch? pattern = some regex)

include isLiteral isWhole

/-- A body of which the only chain does not find what is generated. -/
theorem misses_of_recorded {body actual : Json} {key : Recorder} {pieces : List (List Hop)}
    {front inside : List Hop} (filled : fill body = .ok actual)
    (recorded : ofBody ⟨false, .bracketed, false⟩ body =
      (key.matching pattern).bind fun chain => .ok (ofList [chain]))
    (stands : key.Stands pieces) (hops : conditionHops key.delegate.focus pieces = (front, inside))
    (missed : ¬ FindsSome front inside (Json.matchesText regex) actual) : Misses pattern body := by
  obtain ⟨chain, made, ends⟩ := matching_ends stands.lenient pattern
  rw [made] at recorded
  refine ⟨⟨text, .literal isLiteral⟩, actual, _, filled, recorded, chain, List.mem_cons_self, ?_, ?_⟩
  · rw [ends.calls_eq]
    exact List.mem_append_right _ (List.mem_singleton_self _)
  · rw [ends.matching_holds_iff stands hops isWhole]
    exact missed

/-- A body with one member, for which a value is generated that does not match. -/
theorem misses_member {value other : Json} (filled : fill value = .ok other)
    (unmarked : markedPattern? (.object [("a", value)]) = none)
    (recorded : ofBody ⟨false, .bracketed, false⟩ (.object [("a", value)]) =
      (((ofAsserter (Asserter.ofDocument (.object [("a", value)])).lenient
        .bracketed).traverseField "a").matching pattern).bind fun chain => .ok (ofList [chain]))
    (missed : other.matchesText regex = false) : Misses pattern (.object [("a", value)]) := by
  have readable : KeepsBackslashes "a" := (by decide : Path.keepsBackslashes "a".toList = true)
  have stands := (stands_root (.object [("a", value)])).traverseField readable
  have noMembers : fillMembers [] = .ok [] := rfl
  have whole := fill_object unmarked (fillMembers_cons filled noMembers)
  refine misses_of_recorded isLiteral isWhole whole recorded stands rfl ?_
  rintro ⟨document, isThere, item, isItem, found, isFound, matched⟩
  have outer : document = .object [("a", other)] := List.mem_singleton.mp isThere
  subst outer
  have same : item = .object [("a", other)] := List.mem_singleton.mp isItem
  subst same
  have inner : found = other := List.mem_singleton.mp isFound
  rw [inner, missed] at matched
  cases matched

end

/-- A number that is generated without the zeros in front. -/
def leadingZeros : Json := .object [("a", marker ⟨"007", .integer⟩)]

theorem misses_leadingZeros : Misses "007" leadingZeros := by
  have isLiteral : Pattern.IsLiteral "007".toList "007".toList :=
    .plain (by decide) (.plain (by decide) (.plain (by decide) .nil))
  have built : Automaton.ofPattern (.ofSequence ("007".toList.map .literal)) =
      .ok (.ofText "007".toList) := by cbv
  have whole : wholeBetween? (-twoTo 31) (twoTo 31 - 1) (String.ofList "007".toList) = some 7 := by
    decide +kernel
  have read : ValueKind.integer.read? (String.ofList "007".toList) = some (.int 7) :=
    congrArg (Option.map Json.int) whole
  have filled := fill_integer (generate_literal isLiteral built (by decide) read)
  have short : (Path.wholeMatch? "007").any (fun regex => !regex.regex.isMatch "7") = true := by
    decide +kernel
  obtain ⟨regex, isWhole, missed⟩ := (Option.any_eq_true _ _).mp short
  exact misses_member isLiteral isWhole filled rfl rfl ((Bool.not_eq_true' _).mp missed)

/-- A text that is generated with escapes. -/
def accented : Json := .object [("a", marker ⟨"é", .text⟩)]

theorem misses_accented : Misses "é" accented := by
  have isLiteral : Pattern.IsLiteral "é".toList "é".toList := .plain (by decide) .nil
  have built : Automaton.ofPattern (.ofSequence ("é".toList.map .literal)) =
      .ok (.ofText "é".toList) := by cbv
  have filled := fill_text (generate_literal isLiteral built (by decide) rfl)
  have escaped : escapeJava "é" = "\\u00E9" := by decide
  have long : (Path.wholeMatch? "é").any (fun regex => !regex.regex.isMatch "\\u00E9") = true := by
    decide +kernel
  obtain ⟨regex, isWhole, missed⟩ := (Option.any_eq_true _ _).mp long
  rw [← escaped] at missed
  exact misses_member isLiteral isWhole filled rfl rfl ((Bool.not_eq_true' _).mp missed)

/-- A marker of a kind that is not known, which is left as it is. -/
def unknownKind : Json :=
  .object [("a", .object [("$regex", .string "b"), ("$type", .string "c")])]

theorem misses_unknownKind : Misses "b" unknownKind := by
  have isLiteral : Pattern.IsLiteral "b".toList "b".toList := .plain (by decide) .nil
  obtain ⟨regex, isWhole, -⟩ := Path.wholeMatch?_literal isLiteral (by decide)
  have filled : fill (.object [("$regex", .string "b"), ("$type", .string "c")]) =
      .ok (.object [("$regex", .string "b"), ("$type", .string "c")]) := rfl
  exact misses_member isLiteral isWhole filled rfl rfl rfl

/-- A marker in an array in an array in an array. -/
def deepMarker : Json := .array [.array [.array [marker ⟨"a", .text⟩]]]

theorem misses_deepMarker : Misses "a" deepMarker := by
  have isLiteral : Pattern.IsLiteral "a".toList "a".toList := .plain (by decide) .nil
  have built : Automaton.ofPattern (.ofSequence ("a".toList.map .literal)) =
      .ok (.ofText "a".toList) := by cbv
  have filled : fill (marker ⟨"a", .text⟩) = .ok (.string "a") :=
    fill_text (generate_literal isLiteral built (by decide) rfl)
  have noElements : fillElements [] = .ok [] := rfl
  have inmost := fill_array (fillElements_cons filled noElements)
  have inner := fill_array (fillElements_cons inmost noElements)
  have whole := fill_array (fillElements_cons inner noElements)
  obtain ⟨regex, isWhole, -⟩ := Path.wholeMatch?_literal isLiteral (by decide)
  have stands := (stands_root deepMarker).anonymousArray.arrayField
  refine misses_of_recorded isLiteral isWhole whole rfl stands rfl ?_
  -- the route has one wildcard only, so the condition is tested on the inner arrays
  rintro ⟨value, isThere, item, isItem, found, isFound, matched⟩
  have outer : value = .array [.array [.string "a"]] := List.mem_singleton.mp isThere
  subst outer
  have middle : item = .array [.string "a"] := List.mem_singleton.mp isItem
  subst middle
  have same : found = .array [.string "a"] := List.mem_singleton.mp isFound
  subst same
  cases matched

/-- A text that holds a document with a marker. -/
def textWithMarker : String := "\x7b\"a\":\x7b\"$regex\":\"b\"\x7d\x7d"

/-- A member that is such a text, which is left as it is. -/
def markerInText : Json := .object [("t", .string textWithMarker)]

theorem misses_markerInText : Misses "b" markerInText := by
  have isLiteral : Pattern.IsLiteral "b".toList "b".toList := .plain (by decide) .nil
  obtain ⟨regex, isWhole, -⟩ := Path.wholeMatch?_literal isLiteral (by decide)
  have outer : KeepsBackslashes "t" := (by decide : Path.keepsBackslashes "t".toList = true)
  have inner : KeepsBackslashes "a" := (by decide : Path.keepsBackslashes "a".toList = true)
  have stands := ((stands_root markerInText).traverseField outer).traverseField inner
  refine misses_of_recorded isLiteral isWhole rfl ?_ stands rfl ?_
  · have depth : markerInText.chars.length = 33 + 1 := by decide +kernel
    have walked : recorded ⟨false, .bracketed, false⟩ markerInText =
        (walk (walkText false (33 + 1)) false ((ofAsserter (Asserter.ofDocument
          markerInText).lenient .bracketed).traverseField "t") (.string textWithMarker)).bind
            fun chains => .ok (chains ++ []) := by
      rw [recorded, depth]
      rfl
    have members : Json.membersInText? textWithMarker = some [("a", marker ⟨"b", .text⟩)] := by cbv
    have filled : textWithMarker.isEmpty = false := rfl
    rw [walk, filled, if_neg Bool.false_ne_true, members] at walked
    have whole : ofBody ⟨false, .bracketed, false⟩ markerInText =
        (recorded ⟨false, .bracketed, false⟩ markerInText).bind
          fun chains => .ok (ofList chains) := rfl
    rw [whole, walked]
    rfl
  · -- the chain looks for a member of the text, which has none
    rintro ⟨value, isThere, item, isItem, found, isFound, matched⟩
    have text := List.mem_singleton.mp isThere
    subst text
    have same := List.mem_singleton.mp isItem
    subst same
    cases isFound

end

end Chains

end BodyContract
