import Mathlib.Data.List.Forall2
import BodyContract.Proofs.Chain.Branched
import BodyContract.Proofs.Chain.Demands
import BodyContract.Proofs.Chain.Monotone
import BodyContract.Proofs.Chain.Ordered

/-!
# Arrays of simple values in order

In order, an array of simple values under a name is checked by its size and by
the value at every position.  A condition is tested on the elements of an array
and on any other value itself, so a value at a position passes if it equals the
expected one, and also if it is an array with an element that does.
-/

namespace BodyContract

namespace Json

/-- Whether a value passes where another one is expected: the value itself or,
in an array, one of its elements equals it. -/
def Passes (expected value : Json) : Prop :=
  ∃ item ∈ value.items, item.equalsInFilter expected = true

end Json

theorem forall₂_iff_getElem? {α β : Type} {related : α → β → Prop} {left : List α}
    {right : List β} : List.Forall₂ related left right ↔ right.length = left.length ∧
      ∀ (index : Nat) (a : α), left[index]? = some a →
        ∃ b, right[index]? = some b ∧ related a b := by
  rw [List.forall₂_iff_get, eq_comm]
  apply and_congr_right
  intro sameLength
  constructor
  · intro each index a isThere
    obtain ⟨inLeft, rfl⟩ := List.getElem?_eq_some_iff.mp isThere
    have inRight : index < right.length := sameLength ▸ inLeft
    exact ⟨right[index], List.getElem?_eq_getElem inRight, each index inLeft inRight⟩
  · intro each index inLeft inRight
    obtain ⟨b, isThere, isRelated⟩ := each index left[index] (List.getElem?_eq_getElem inLeft)
    obtain ⟨_, rfl⟩ := List.getElem?_eq_some_iff.mp isThere
    exact isRelated

namespace Recorder

theorem notMem_escapedFor {c quote : Char} (notBackslash : c ≠ '\\') {text : List Char}
    (none : c ∉ text) : c ∉ escapedFor quote text := by
  rw [escapedFor, List.mem_flatMap]
  rintro ⟨other, isIn, member⟩
  split at member
  · rcases List.mem_cons.mp member with same | later
    · exact notBackslash same
    · exact none (List.mem_singleton.mp later ▸ isIn)
  · exact none (List.mem_singleton.mp member ▸ isIn)

/-- Wrapping and quoting a name leaves it on one line. -/
theorem notMem_quoteOnly_wrap {name : String} (oneLine : '\n' ∉ name.toList) :
    '\n' ∉ (quoteOnly (NameStyle.bracketed.wrap name)).toList := by
  have escapes : ∀ (quote : Char) {text : List Char}, '\n' ∉ text → '\n' ∉ escapedFor quote text :=
    fun _ _ => notMem_escapedFor (by decide)
  have wrapped : '\n' ∉ (NameStyle.bracketed.wrap name).toList := by
    by_cases whole : isWholeNumber name = true
    · rw [Path.wrap_of_whole whole]
      exact oneLine
    · rw [Path.toList_wrap_of_not_whole (Bool.eq_false_iff.mpr whole)]
      simp [escapes '\'' oneLine]
  rw [toList_quoteOnly]
  simp [escapes '"' wrapped]

/-- Going to an array by a name on one line is seen in the text of the call. -/
theorem assertsConcreteValue_arrayFieldNamed {key : Recorder} (bracketed : key.style = .bracketed)
    {name : String} (oneLine : '\n' ∉ name.toList) :
    (key.arrayFieldNamed name).assertsConcreteValue = true := by
  have written : (key.arrayFieldNamed name).methods =
      key.methods ++ [".array(" ++ quoteOnly (NameStyle.bracketed.wrap name) ++ ")"] := by
    rw [← bracketed]
    rfl
  have noBreak := notMem_quoteOnly_wrap oneLine
  have isCall : isCallWithArgument "array"
      (".array(" ++ quoteOnly (NameStyle.bracketed.wrap name) ++ ")") = true := by
    have opening : ("." ++ "array" ++ "(").toList = ".array(".toList := rfl
    rw [isCallWithArgument, opening]
    simp only [String.toList_append, List.append_assoc, List.drop_left, Bool.and_eq_true,
      List.isPrefixOf_iff_prefix, List.prefix_append, List.length_append]
    rw [toList_quoteOnly] at noBreak ⊢
    have closes : ('"' :: (escapedFor '"' (NameStyle.bracketed.wrap name).toList ++ ['"']) ++
        ")".toList).getLast? = some ')' := List.getLast?_concat
    rw [closes]
    simpa using noBreak
  rw [assertsConcreteValue, written, List.any_append, List.any_cons, isCall]
  simp

end Recorder

namespace Chains

open Recorder

variable {name : String} {elements : List Json}

/-- Whether a value that passes for an expected one is at a position behind
hops. -/
def PassesAt (hops : List Hop) (index : Nat) (expected document : Json) : Prop :=
  ∃ array ∈ follow hops document, ∃ found, array.element? index = some found ∧
    Json.Passes expected found

/-- Whether as many values as there are elements are counted behind hops, and a
value that passes for it is at the position of each element. -/
def MatchesElements (hops : List Hop) (elements : List Json) (document : Json) : Prop :=
  Asserter.countOf (follow hops document) = elements.length ∧
    ∀ (index : Nat) (value : Json), elements[index]? = some value →
      PassesAt hops index value document

/-- What the chain of a value at a position demands. -/
theorem holds_positioned_iff {chain key : Recorder} {pieces : List (List Hop)}
    (stands : key.Stands pieces) {index : Nat} (small : index < twoTo 63) {value : Json}
    (plain : value.Plain HasNoBackslash Number.IsWhole) (scalar : value.isContainer = false)
    (ends : chain.Ends (key.elementWithIndex index) [equalityCall value]) (document : Json) :
    chain.Holds document ↔ PassesAt (withoutWildcard pieces).flatten index value document := by
  rw [ends.equality_holds_iff (stands.elementWithIndex small) (conditionHops_other Focus.noConfusion _)
    (literalReads_self plain scalar), Finds, List.flatten_append, List.flatten_singleton]
  simp only [mem_follow_append, follow_singleton, Hop.next, Option.mem_toList, follow_nil,
    List.mem_singleton, exists_eq_left, PassesAt, Json.Passes]
  constructor
  · rintro ⟨found, ⟨array, isThere, isFound⟩, passes⟩
    exact ⟨array, isThere, found, isFound, passes⟩
  · rintro ⟨array, isThere, found, isFound, passes⟩
    exact ⟨found, ⟨array, isThere, isFound⟩, passes⟩

/-- The chains of an array of simple values where its size is checked. -/
theorem demands_walk_simpleArray {inText : TextWalk} {key : Recorder}
    (stands : key.Stands [[.member name]]) (concrete : key.assertsConcreteValue = true)
    (short : elements.length < twoTo 63) (simple : Json.areSimple elements = true)
    (plain : ∀ element ∈ elements, element.Plain HasNoBackslash Number.IsWhole) :
    Demands (walk inText true key (.array elements))
      (MatchesElements [.member name] elements) := by
  have parts := simple
  rw [Json.areSimple, Bool.and_eq_true, Bool.not_eq_true'] at parts
  obtain ⟨sized, made, sizeEnds⟩ := hasSize_ends stands.lenient elements.length
  have size : key.sizeCheck true elements.length = .ok [sized] := by
    rw [sizeCheck, concrete, Bool.or_true, made]
    rfl
  rw [walk, parts.1, if_neg Bool.false_ne_true, if_pos simple, size]
  apply (demands_singleton (sizeEnds.hasSize_holds_iff stands)).append
  have checks := @demands_walkSimple inText true key elements 0 (PassesAt [.member name])
  simp only [Nat.zero_add] at checks
  apply checks
  intro index value isThere
  have member := List.mem_of_getElem? isThere
  have small := Nat.lt_trans (List.getElem?_eq_some_iff.mp isThere).1 short
  have scalar := (plain value member).isContainer_of_isSimple
    (List.all_eq_true.mp parts.2 value member)
  rw [simpleElement, if_pos rfl]
  apply demands_checked (stands.elementWithIndex small) (plain value member) scalar
  intro chain ends
  exact holds_positioned_iff stands small (plain value member) scalar ends

/-- All chains of an array of simple values under a name. -/
theorem demands_emitted_simpleArray {options : ChainOptions} (ordered : options.isOrdered = true)
    (bracketed : options.style = .bracketed) (named : HasNoBackslash name)
    (oneLine : '\n' ∉ name.toList) (short : elements.length < twoTo 63)
    (simple : Json.areSimple elements = true)
    (plain : ∀ element ∈ elements, element.Plain HasNoBackslash Number.IsWhole) :
    Demands (emitted options (.object [(name, .array elements)]))
      (MatchesElements [.member name] elements) := by
  have notMarker : (Json.object [(name, .array elements)]).isMarker = false := by
    rw [Json.isMarker, Placeholder.markedPattern?, List.lookup_cons]
    cases Placeholder.patternMember == name <;> rfl
  have stands := (stands_root (.object [(name, .array elements)])).arrayFieldNamed
    (keepsBackslashes_of_hasNoBackslash named)
  have walked : Demands (walk (walkText true (Json.object [(name, .array elements)]).chars.length)
      true _ (.array elements)) (MatchesElements [.member name] elements) :=
    demands_walk_simpleArray stands (assertsConcreteValue_arrayFieldNamed rfl oneLine) short simple
      plain
  rw [emitted_members notMarker (List.cons_ne_nil _ _), root, ordered, bracketed]
  have entered : entry (root ⟨true, .bracketed, false⟩ (.object [(name, .array elements)])) name
      (.array elements) =
        .ok ((root ⟨true, .bracketed, false⟩ (.object [(name, .array elements)])).arrayFieldNamed
          name) := by
    cases elements with
    | nil => cases simple
    | cons first rest => simp [entry, simple]
  rw [walkMembers, entered]
  apply (walked.append demands_nil).congr
  intro document
  rw [and_true]

/-- A value under the name matches if it is an array of that size with values
that pass. -/
theorem matchesElements_iff (filled : elements ≠ []) (actual : Json) :
    MatchesElements [.member name] elements (.object [(name, actual)]) ↔
      ∃ others, actual = .array others ∧ List.Forall₂ Json.Passes elements others := by
  have here : follow [.member name] (.object [(name, actual)]) = [actual] := by
    rw [follow_singleton, Hop.next, Json.member?, List.lookup_cons_self]
    rfl
  simp only [MatchesElements, PassesAt, here, List.mem_singleton, exists_eq_left]
  constructor
  · intro both
    obtain ⟨first, rest, rfl⟩ := List.exists_cons_of_ne_nil filled
    obtain ⟨found, isFound, -⟩ := both.2 0 first rfl
    cases actual with
    | array others => exact ⟨others, rfl, forall₂_iff_getElem?.mpr both⟩
    | _ => cases isFound
  · rintro ⟨others, rfl, each⟩
    exact forall₂_iff_getElem?.mp each

/-- What the conversion of an array of simple values under a name accepts under
that name. -/
theorem verify_ofBody_simpleArray {options : ChainOptions} (ordered : options.isOrdered = true)
    (bracketed : options.style = .bracketed) (named : HasNoBackslash name)
    (oneLine : '\n' ∉ name.toList) (simple : Json.areSimple elements = true)
    (plain : (Json.array elements).Plain HasNoBackslash Number.IsWhole) :
    ∃ chains, ofBody options (.object [(name, .array elements)]) = .ok chains ∧
      ∀ actual, chains.verify (.object [(name, actual)]) = .ok () ↔
        ∃ others, actual = .array others ∧ List.Forall₂ Json.Passes elements others := by
  have canonical : (Json.object [(name, .array elements)]).IsCanonical := by
    apply Json.IsCanonical.object
    · simp
    · intro member isIn
      rw [List.mem_singleton.mp isIn]
      exact plain.isCanonical
  have filled : elements ≠ [] := by
    rintro rfl
    cases simple
  cases plain with
  | array short each =>
      have demands := demands_emitted_simpleArray ordered bracketed named oneLine short simple each
      obtain ⟨chains, made, verified⟩ := verify_ordered_iff_of_demands ordered canonical demands
      refine ⟨chains, made, fun actual => ?_⟩
      rw [verified]
      exact matchesElements_iff filled actual

end Chains

namespace Verifier

/-- With the size checked, an array of simple values under a name accepts the
arrays of its size that have a value that passes at every position. -/
theorem verify_simpleArray_iff {verifier : Verifier} (sized : verifier.assertsSize = true)
    (bracketed : verifier.usesBrackets = true) {name : String} (named : HasNoBackslash name)
    (oneLine : '\n' ∉ name.toList) {elements : List Json} (simple : Json.areSimple elements = true)
    (plain : (Json.array elements).Plain HasNoBackslash Number.IsWhole) (actual : Json) :
    verifier.verify (.object [(name, .array elements)]) (.object [(name, actual)]) [] = .ok () ↔
      ∃ others, actual = .array others ∧ List.Forall₂ Json.Passes elements others := by
  have style : verifier.chainOptions.style = .bracketed := by
    rw [chainOptions, bracketed]
    rfl
  obtain ⟨chains, made, verified⟩ :=
    Chains.verify_ofBody_simpleArray sized style named oneLine simple plain
  rw [verify_ok_iff_of_ofBody made]
  exact verified actual

/-- A word and a number. -/
def wordAndNumber : List Json := [.string "x", .int 1]

theorem membersInText?_x : Json.membersInText? "x" = none := by
  have none : (Json.membersInText? "x").isNone = true := by decide +kernel
  exact Option.isNone_iff_eq_none.mp none

theorem wordAndNumber_plain :
    (Json.array wordAndNumber).Plain HasNoBackslash Number.IsWhole := by
  refine .array (by decide) fun element member => ?_
  simp only [wordAndNumber, List.mem_cons, List.not_mem_nil, or_false] at member
  rcases member with rfl | rfl
  · exact .string membersInText?_x
  · exact .number (by decide : Number.fits 1 = true)

theorem wordAndNumber_verify : strict.assertsSize = true ∧ strict.usesBrackets = true ∧
    HasNoBackslash "a" ∧ '\n' ∉ "a".toList ∧ Json.areSimple wordAndNumber = true ∧
    (Json.array wordAndNumber).Plain HasNoBackslash Number.IsWhole ∧
    strict.verify (.object [("a", .array wordAndNumber)]) (.object [("a", .array wordAndNumber)])
      [] = .ok () := by
  have named : HasNoBackslash "a" := (by decide : '\\' ∉ "a".toList)
  refine ⟨rfl, rfl, named, by decide, by decide, wordAndNumber_plain, ?_⟩
  refine (verify_simpleArray_iff rfl rfl named (by decide) (by decide) wordAndNumber_plain _).mpr
    ⟨wordAndNumber, rfl, ?_⟩
  refine .cons ⟨.string "x", List.mem_singleton_self _, by decide⟩ (.cons ?_ .nil)
  exact ⟨.int 1, List.mem_singleton_self _, by decide⟩

/-- An array stands for a value that it has. -/
theorem wrappedValue_verify :
    strict.verify (.object [("a", .array [.string "x"])])
      (.object [("a", .array [.array [.string "x"]])]) [] = .ok () ∧
    (Json.array [.string "x"]).equalsInFilter (.string "x") = false := by
  have plain : (Json.array [.string "x"]).Plain HasNoBackslash Number.IsWhole := by
    refine .array (by decide) fun element member => ?_
    rw [List.mem_singleton.mp member]
    exact .string membersInText?_x
  obtain ⟨chains, made, verified⟩ := Chains.verify_ofBody_simpleArray
    (rfl : strict.chainOptions.isOrdered = true) rfl (by decide : '\\' ∉ "a".toList) (by decide)
    (by decide) plain
  refine ⟨(verify_ok_iff_of_ofBody made _).mpr ((verified _).mpr ⟨_, rfl, .cons ?_ .nil⟩), rfl⟩
  exact ⟨.string "x", List.mem_singleton_self _, by decide⟩

end Verifier

end BodyContract
