import BodyContract.Proofs.Chain.Unordered
import BodyContract.Proofs.Json.Extension
import BodyContract.Proofs.Path.Readability
import BodyContract.Verification

/-!
# Unordered chains and wider documents

Without an order every chain asks for something that a document has: a value
behind members and wildcards.  What has it keeps it when more is added and when
elements change their places, so a body that satisfies the chains of another
one does so in every wider form.
-/

namespace BodyContract

namespace Json

mutual

/-- Whether nothing in a document is an empty array or object. -/
def isFilled : Json → Bool
  | .array elements => !elements.isEmpty && areFilled elements
  | .object members => !members.isEmpty && membersAreFilled members
  | _ => true

/-- Whether this holds for all elements. -/
def areFilled : List Json → Bool
  | [] => true
  | element :: rest => element.isFilled && areFilled rest

/-- Whether this holds for the values of all members. -/
def membersAreFilled : List (String × Json) → Bool
  | [] => true
  | (_, value) :: rest => value.isFilled && membersAreFilled rest

end

theorem areFilled_iff (elements : List Json) :
    areFilled elements = true ↔ ∀ element ∈ elements, element.isFilled = true := by
  induction elements with
  | nil => simp [areFilled]
  | cons first rest inductionHypothesis =>
      rw [areFilled, Bool.and_eq_true, inductionHypothesis, List.forall_mem_cons]

theorem membersAreFilled_iff (members : List (String × Json)) :
    membersAreFilled members = true ↔ ∀ member ∈ members, member.2.isFilled = true := by
  induction members with
  | nil => simp [membersAreFilled]
  | cons first rest inductionHypothesis =>
      rw [membersAreFilled, Bool.and_eq_true, inductionHypothesis, List.forall_mem_cons]

end Json

theorem Asserter.exists_parse_of_check {asserter next : Asserter}
    (strict : asserter.isStrict = true) (checked : asserter.check = .ok next) :
    ∃ parsed, Path.parse asserter.path = .ok parsed := by
  rw [check, checkPath, if_pos strict, matched] at checked
  cases read : Path.parse asserter.path with
  | error problem =>
      rw [read] at checked
      cases checked
  | ok parsed => exact ⟨parsed, rfl⟩

namespace Recorder

/-- Whether a chain that holds on a document holds on every wider one. -/
def IsMonotone (chain : Recorder) : Prop :=
  ∀ document wider : Json, document.isExtendedBy wider = true →
    chain.Holds document → chain.Holds wider

section Checks

variable {chain key : Recorder} {pieces : List (List Hop)} {value : Json}

/-- A recorded equality holds where its literal is read and found. -/
theorem Ends.equality_holds_iff_exists (ends : chain.Ends key [equalityCall value])
    (stands : key.Stands pieces) {front inside : List Hop}
    (hops : conditionHops key.delegate.focus pieces = (front, inside))
    (scalar : value.isContainer = false) (document : Json) :
    chain.Holds document ↔
      ∃ read, Path.LiteralReads value read ∧ Finds front inside read document := by
  constructor
  · intro holds
    obtain ⟨whole, -, path⟩ := stands.condition hops
    have readable := stands.flatten_readable
    rw [← whole] at readable
    obtain ⟨next, checked⟩ := (ends.holds_iff stands document).mp holds
    rw [applyAll_singleton, equalityCall_apply] at checked
    have strict : ((key.delegate.strictOn document).withCondition "=="
        value.filterLiteral).isStrict = true := by
      rw [isStrict_withCondition]
      rfl
    obtain ⟨parsed, read⟩ := Asserter.exists_parse_of_check strict checked
    rw [path] at read
    obtain ⟨literal, reads⟩ := Path.literalReads_of_parse
      (fun hop member => readable hop (List.mem_append_left inside member))
      (fun hop member => readable hop (List.mem_append_right front member)) scalar read
    exact ⟨literal, reads, (ends.equality_holds_iff stands hops reads document).mp holds⟩
  · rintro ⟨read, reads, finds⟩
    exact (ends.equality_holds_iff stands hops reads document).mpr finds

/-- A recorded element holds where its literal is read and found. -/
theorem Ends.contains_holds_iff_exists (ends : chain.Ends key [.contains value, .isPresent])
    (stands : key.Stands pieces) (elements : key.delegate.focus = .arrayValue)
    (scalar : value.isContainer = false) (document : Json) :
    chain.Holds document ↔
      ∃ read, Path.LiteralReads value read ∧ Finds pieces.flatten [] read document := by
  constructor
  · intro holds
    obtain ⟨next, checked⟩ := (ends.contains_holds_iff_check stands document).mp holds
    have focus : (key.delegate.strictOn document).focus = .arrayValue := elements
    have strict : ((key.delegate.strictOn document).contains value).finished.isStrict = true := by
      rw [Asserter.contains, if_pos focus]
      rfl
    obtain ⟨parsed, read⟩ := Asserter.exists_parse_of_check strict checked
    rw [stands.contains_path elements] at read
    obtain ⟨literal, reads⟩ := Path.literalReads_of_parse stands.flatten_readable
      (fun hop member => absurd member List.not_mem_nil) scalar read
    exact ⟨literal, reads, (ends.contains_holds_iff stands elements reads document).mp holds⟩
  · rintro ⟨read, reads, finds⟩
    exact (ends.contains_holds_iff stands elements reads document).mpr finds

/-- A chain that stands behind members and wildcards only. -/
structure Roams (key : Recorder) (pieces : List (List Hop)) : Prop where
  stands : key.Stands pieces
  unnumbered : AreUnnumbered pieces.flatten

theorem Ends.equality_isMonotone (ends : chain.Ends key [equalityCall value])
    (roams : key.Roams pieces) (scalar : value.isContainer = false) : chain.IsMonotone := by
  intro document wider extended holds
  cases hops : conditionHops key.delegate.focus pieces with
  | mk front inside =>
      obtain ⟨whole, named, -⟩ := roams.stands.condition hops
      have unnumbered : AreUnnumbered front := by
        intro hop member
        refine roams.unnumbered hop ?_
        rw [← whole]
        exact List.mem_append_left inside member
      rw [ends.equality_holds_iff_exists roams.stands hops scalar] at holds ⊢
      obtain ⟨read, reads, finds⟩ := holds
      exact ⟨read, reads, finds.mono unnumbered named reads extended⟩

theorem Ends.contains_isMonotone (ends : chain.Ends key [.contains value, .isPresent])
    (roams : key.Roams pieces) (elements : key.delegate.focus = .arrayValue)
    (scalar : value.isContainer = false) : chain.IsMonotone := by
  intro document wider extended holds
  rw [ends.contains_holds_iff_exists roams.stands elements scalar] at holds ⊢
  obtain ⟨read, reads, finds⟩ := holds
  have named : AreNames [] := fun _ member => absurd member List.not_mem_nil
  exact ⟨read, reads, finds.mono roams.unnumbered named reads extended⟩

end Checks

section Steps

variable {key : Recorder} {pieces : List (List Hop)} {name : String}

theorem roams_root (document : Json) :
    (ofAsserter (Asserter.ofDocument document).lenient .bracketed).Roams [] :=
  ⟨stands_root document, fun _ member => absurd member List.not_mem_nil⟩

theorem Roams.step (roams : key.Roams pieces) {next : Recorder} {piece : List Hop}
    (stands : next.Stands (pieces ++ [piece])) (unnumbered : AreUnnumbered piece) :
    next.Roams (pieces ++ [piece]) where
  stands := stands
  unnumbered := by
    intro hop member
    rw [List.flatten_append, List.flatten_singleton] at member
    rcases List.mem_append.mp member with before | new
    · exact roams.unnumbered hop before
    · exact unnumbered hop new

theorem Roams.traverseField (roams : key.Roams pieces) (readable : KeepsBackslashes name) :
    (key.traverseField name).Roams (pieces ++ [[.member name]]) :=
  roams.step (roams.stands.traverseField readable) (by simp [AreUnnumbered])

theorem Roams.array (roams : key.Roams pieces) (readable : KeepsBackslashes name) :
    (key.array name).Roams (pieces ++ [[.member name, .every]]) :=
  roams.step (roams.stands.array readable) (by simp [AreUnnumbered])

theorem Roams.arrayFieldNamed (roams : key.Roams pieces) (readable : KeepsBackslashes name) :
    (key.arrayFieldNamed name).Roams (pieces ++ [[.member name]]) :=
  roams.step (roams.stands.arrayFieldNamed readable) (by simp [AreUnnumbered])

theorem Roams.anonymousArray (roams : key.Roams pieces) :
    key.anonymousArray.Roams (pieces ++ [[.every]]) :=
  roams.step roams.stands.anonymousArray (by simp [AreUnnumbered])

theorem Roams.arrayField (roams : key.Roams pieces) : key.arrayField.Roams pieces :=
  ⟨roams.stands.arrayField, roams.unnumbered⟩

theorem Roams.elements (roams : key.Roams pieces) (values : List Json) :
    ∃ others, (key.elements values).Roams others := by
  rw [Recorder.elements]
  repeat' split
  all_goals first
    | exact ⟨_, roams.anonymousArray⟩
    | exact ⟨_, roams⟩

theorem Roams.element (roams : key.Roams pieces) (value : Json) :
    ∃ others, (key.element value).Roams others := by
  rw [Recorder.element]
  split
  · exact ⟨_, roams.anonymousArray⟩
  · exact ⟨_, roams⟩

theorem Roams.hasChecks (roams : key.Roams pieces) {value : Json}
    (scalar : value.isContainer = false) : key.HasChecks value IsMonotone where
  checked := fun _ ends => ends.equality_isMonotone roams scalar
  contained := fun _ _ ends => ends.contains_isMonotone roams.arrayField rfl scalar

end Steps

end Recorder

namespace Chains

open Recorder

theorem yields_walk_of_roams {inText : TextWalk} {key : Recorder} {pieces : List (List Hop)}
    (roams : key.Roams pieces) {value : Json}
    (plain : value.Plain KeepsBackslashes fun _ => True) (scalar : value.isContainer = false) :
    Yields IsMonotone (walk inText false key value) :=
  yields_walk_of_hasChecks roams.stands plain scalar (roams.hasChecks scalar)

theorem yields_walk_isMonotone {inText : TextWalk} {key : Recorder} {pieces : List (List Hop)}
    {value : Json} (plain : value.Plain KeepsBackslashes fun _ => True)
    (filled : value.isFilled = true) (roams : key.Roams pieces) :
    Yields IsMonotone (walk inText false key value) := by
  induction plain generalizing key pieces with
  | null => exact yields_walk_of_roams roams .null rfl
  | bool flag => exact yields_walk_of_roams roams (.bool flag) rfl
  | number allowed => exact yields_walk_of_roams roams (.number allowed) rfl
  | string noObject => exact yields_walk_of_roams roams (.string noObject) rfl
  | @array elements short plain inductionHypothesis =>
      rw [Json.isFilled, Bool.and_eq_true, Bool.not_eq_true', Json.areFilled_iff] at filled
      rw [walk, filled.1, if_neg Bool.false_ne_true]
      by_cases simple : Json.areSimple elements = true
      · rw [if_pos simple]
        have noSize : key.sizeCheck false elements.length = .ok [] := rfl
        rw [noSize]
        refine yields_nil.append (yields_walkSimple fun index value isThere => ?_)
        have member := List.mem_of_getElem? isThere
        rw [Json.areSimple, Bool.and_eq_true] at simple
        have scalar := (plain value member).isContainer_of_isSimple
          (List.all_eq_true.mp simple.2 value member)
        rw [simpleElement, if_neg Bool.false_ne_true]
        exact yields_checked_of_hasChecks roams.arrayField.stands (plain value member) scalar
          (roams.arrayField.hasChecks scalar)
      · rw [if_neg simple, if_neg Bool.false_ne_true]
        obtain ⟨others, reached⟩ := roams.elements elements
        refine yields_walkElements fun value member => ?_
        obtain ⟨further, moved⟩ := reached.element value
        exact inductionHypothesis value member (filled.2 value member) moved
  | @object members noMarker distinct allowed plain inductionHypothesis =>
      rw [Json.isFilled, Bool.and_eq_true, Bool.not_eq_true', Json.membersAreFilled_iff] at filled
      rw [walk.eq_def]
      simp only [noMarker, if_neg Bool.false_ne_true, filled.1]
      refine yields_walkMembers fun member isIn => ?_
      have below : ∀ {next : Recorder} {others : List (List Hop)}, next.Roams others →
          Yields IsMonotone (walk inText false next member.2) :=
        fun moved => inductionHypothesis member isIn (filled.2 member isIn) moved
      have readable := allowed member isIn
      refine yields_entry (fun empty => ?_) (fun _ _ _ => below (roams.arrayFieldNamed readable))
        (fun _ _ _ _ => below (roams.array readable)) (fun _ => below (roams.traverseField readable))
      have isFilled := filled.2 member isIn
      rw [empty] at isFilled
      cases isFilled

/-- All chains of a body without an order are monotone. -/
theorem isMonotone_of_mem_ofBody {options : ChainOptions} (unordered : options.isOrdered = false)
    (bracketed : options.style = .bracketed) {body : Json} (container : body.isContainer = true)
    (plain : body.Plain KeepsBackslashes fun _ => True) (filled : body.isFilled = true) :
    ∃ chains, ofBody options body = .ok chains ∧ ∀ chain ∈ chains.toList, chain.IsMonotone := by
  have walked : Yields IsMonotone (recorded options body) := by
    rw [recorded, unordered, bracketed]
    exact yields_walk_isMonotone plain filled (roams_root body)
  obtain ⟨made, isMade, each⟩ := walked
  have notBlank : body.isBlankBody = false := by
    cases body with
    | array elements =>
        rw [Json.isFilled, Bool.and_eq_true, Bool.not_eq_true'] at filled
        exact filled.1
    | object members =>
        rw [Json.isFilled, Bool.and_eq_true, Bool.not_eq_true'] at filled
        exact filled.1
    | _ => cases container
  refine ⟨ofList made, ?_, fun chain member => each chain (mem_of_mem_ofList member)⟩
  rw [ofBody.eq_def]
  split
  · cases container
  · simp only [documentOf_of_isContainer container, notBlank, Bool.not_false, if_true, isMade]
    rfl

end Chains

namespace Verifier

/-- Without matchers a body is verified by its chains alone. -/
theorem verify_ok_iff_of_ofBody {verifier : Verifier} {expected : Json} {chains : Chains}
    (made : Chains.ofBody verifier.chainOptions expected = .ok chains) (actual : Json) :
    verifier.verify expected actual [] = .ok () ↔ chains.verify actual = .ok () := by
  have strip : Matcher.strip [] expected = expected := by
    rw [Matcher.strip, Matcher.removeEach]
    simp
  rw [verify, strip, Verifier.chains, made]
  cases verdict : chains.verify actual with
  | error failure => simp [bind, Except.bind, verdict]
  | ok _ => simp [bind, Except.bind, verdict, checkMatchers]

/-- Without an order, a body that verifies goes on to do so when more is added
to it and when its elements change their places. -/
theorem verify_of_isExtendedBy {verifier : Verifier} (unordered : verifier.assertsSize = false)
    (bracketed : verifier.usesBrackets = true) {expected actual wider : Json}
    (container : expected.isContainer = true) (filled : expected.isFilled = true)
    (plain : expected.Plain HasNoBackslash fun _ => True)
    (extended : actual.isExtendedBy wider = true)
    (verified : verifier.verify expected actual [] = .ok ()) :
    verifier.verify expected wider [] = .ok () := by
  have style : verifier.chainOptions.style = .bracketed := by
    rw [chainOptions, bracketed]
    rfl
  obtain ⟨chains, made, monotone⟩ := Chains.isMonotone_of_mem_ofBody unordered style container
    (plain.mono (fun _ => keepsBackslashes_of_hasNoBackslash) fun _ => id) filled
  rw [verify_ok_iff_of_ofBody made, Chains.verify, Chains.verifyAll_ok_iff] at verified ⊢
  intro chain member
  exact monotone chain member actual wider extended (verified chain member)

/-- A list of two objects. -/
def twoRows : Json :=
  .object [("rows", .array [.object [("id", .int 1)], .object [("id", .int 2)]])]

/-- The same rows in another order, and more. -/
def moreRows : Json :=
  .object [("count", .int 3), ("rows", .array [.object [("id", .int 2)], .null,
    .object [("id", .int 1), ("tags", .array [])]])]

theorem twoRows_plain {names : String → Prop} (allowed : ∀ name, HasNoBackslash name → names name) :
    twoRows.Plain names Number.ReadsBack := by
  have row : ∀ value, Number.fits value = true →
      (Json.object [("id", .int value)]).Plain names Number.ReadsBack := by
    intro value fits
    refine .object rfl (by simp) (fun member isIn => ?_) fun member isIn => ?_
    · rw [List.mem_singleton.mp isIn]
      exact allowed _ (by decide : '\\' ∉ "id".toList)
    · rw [List.mem_singleton.mp isIn]
      exact .number (Number.readsBack_of_isWhole fits)
  refine .object (by decide) (by decide) (fun member isIn => ?_) fun member isIn => ?_
  · rw [List.mem_singleton.mp isIn]
    exact allowed _ (by decide : '\\' ∉ "rows".toList)
  · rw [List.mem_singleton.mp isIn]
    refine .array (by decide) fun element member => ?_
    simp only [List.mem_cons, List.not_mem_nil, or_false] at member
    rcases member with rfl | rfl
    · exact row 1 (by decide)
    · exact row 2 (by decide)

theorem twoRows_verify : Verifier.default.verify twoRows twoRows [] = .ok () := by
  have plain : twoRows.Plain KeepsBackslashes Number.ReadsBack :=
    twoRows_plain fun _ => keepsBackslashes_of_hasNoBackslash
  have covered : twoRows.isCovered = true := by decide
  rw [Json.isCovered, List.all_eq_true] at covered
  have yields : Chains.Yields (fun chain => chain.Holds twoRows)
      (Chains.recorded Verifier.default.chainOptions twoRows) :=
    Chains.yields_walk_unordered plain (Recorder.takes_root twoRows) rfl (fun _ => rfl) covered
  obtain ⟨chains, made, holds⟩ := Chains.verify_self_of_yields rfl rfl yields
  exact (verify_ok_iff_of_ofBody made twoRows).mpr holds

theorem twoRows_verify_moreRows : Verifier.default.assertsSize = false ∧
    Verifier.default.usesBrackets = true ∧ twoRows.isContainer = true ∧
    twoRows.isFilled = true ∧ (twoRows.Plain HasNoBackslash fun _ => True) ∧
    twoRows.isExtendedBy moreRows = true ∧
    Verifier.default.verify twoRows twoRows [] = .ok () ∧
    Verifier.default.verify twoRows moreRows [] = .ok () := by
  have plain : twoRows.Plain HasNoBackslash fun _ => True :=
    (twoRows_plain fun _ => id).mono (fun _ => id) fun _ _ => trivial
  have extended : twoRows.isExtendedBy moreRows = true := by decide
  have filled : twoRows.isFilled = true := by decide
  exact ⟨rfl, rfl, rfl, filled, plain, extended, twoRows_verify,
    verify_of_isExtendedBy rfl rfl rfl filled plain extended twoRows_verify⟩

end Verifier

end BodyContract
