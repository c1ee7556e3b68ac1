import BodyContract.Proofs.Chain.Walk

/-!
# Chains without patterns

A recorded chain matches a pattern only if a marker has been met on the way.
Where a body has no marker, not even in the documents that its texts hold, every
recorded chain is without patterns, however far the texts in texts are walked.
-/

namespace BodyContract

/-- Bodies without markers, also in the documents that their texts hold. -/
inductive Json.IsUnmarked : Json → Prop where
  | null : IsUnmarked .null
  | bool (flag : Bool) : IsUnmarked (.bool flag)
  | number (number : Number) : IsUnmarked (.number number)
  | string {text : String}
      (inside : ∀ document, parse? text = some document → document.IsUnmarked) :
      IsUnmarked (.string text)
  | array {elements : List Json} (each : ∀ element ∈ elements, element.IsUnmarked) :
      IsUnmarked (.array elements)
  | object {members : List (String × Json)} (noMarker : (Json.object members).isMarker = false)
      (each : ∀ member ∈ members, member.2.IsUnmarked) : IsUnmarked (.object members)

theorem Json.IsUnmarked.markedPattern?_eq_none {value : Json} (unmarked : value.IsUnmarked) :
    Placeholder.markedPattern? value = none := by
  cases unmarked with
  | object noMarker _ => exact markedPattern?_eq_none_iff.mpr noMarker
  | _ => rfl

namespace Recorder

/-- Whether a chain matches a pattern. -/
def ChecksPattern (chain : Recorder) : Prop := ∃ pattern, Call.matching pattern ∈ chain.calls

/-- A chain of a recorded assertion that matches no pattern. -/
structure IsPatternless (chain : Recorder) : Prop where
  lenient : chain.delegate.isStrict = false
  noPattern : ¬ chain.ChecksPattern

theorem isPatternless_root (document : Json) (style : NameStyle) :
    (ofAsserter (Asserter.ofDocument document).lenient style).IsPatternless where
  lenient := rfl
  noPattern := by
    rintro ⟨pattern, impossible⟩
    exact absurd impossible List.not_mem_nil

section Steps

variable {key : Recorder}

/-- A chain with further calls that match no pattern. -/
theorem IsPatternless.step (patternless : key.IsPatternless) {next : Recorder} {calls : List Call}
    (lenient : next.delegate.isStrict = false) (same : next.calls = key.calls ++ calls)
    (others : ∀ pattern, Call.matching pattern ∉ calls) : next.IsPatternless where
  lenient := lenient
  noPattern := by
    rintro ⟨pattern, member⟩
    rw [same] at member
    rcases List.mem_append.mp member with old | new
    · exact patternless.noPattern ⟨pattern, old⟩
    · exact others pattern new

variable (patternless : key.IsPatternless)

include patternless

/-! ## Navigation -/

theorem IsPatternless.anonymousArray : key.anonymousArray.IsPatternless :=
  patternless.step patternless.lenient rfl (by simp)

theorem IsPatternless.arrayField : key.arrayField.IsPatternless :=
  patternless.step patternless.lenient rfl (by simp)

theorem IsPatternless.array (name : String) : (key.array name).IsPatternless :=
  patternless.step patternless.lenient rfl (by simp)

theorem IsPatternless.elements (values : List Json) : (key.elements values).IsPatternless := by
  rw [Recorder.elements]
  split_ifs <;> first | exact patternless.anonymousArray | exact patternless

theorem IsPatternless.element (value : Json) : (key.element value).IsPatternless := by
  rw [Recorder.element]
  split_ifs <;> first | exact patternless.anonymousArray | exact patternless

/-! ## Checks -/

theorem IsPatternless.isEmpty :
    ∃ chain, key.isEmpty = .ok chain ∧ chain.IsPatternless := by
  rw [Recorder.isEmpty, Asserter.isEmpty, patternless.lenient]
  exact ⟨_, rfl, patternless.step patternless.lenient rfl (by simp)⟩

theorem IsPatternless.isEqualTo (value : Json) :
    ∃ chain, key.isEqualTo value = .ok chain ∧ chain.IsPatternless := by
  have lenient : ∀ right, (key.delegate.withCondition "==" right).isStrict = false := by
    intro right
    rw [isStrict_withCondition]
    exact patternless.lenient
  have made : ∀ right, (key.delegate.withCondition "==" right).check =
      .ok (key.delegate.withCondition "==" right) :=
    fun right => Asserter.check_of_lenient (lenient right)
  have text : ∀ text, ∃ chain, key.isEqualToText text = .ok chain ∧ chain.IsPatternless := by
    intro text
    rw [isEqualToText, Asserter.isEqualTo, made]
    simp only [bind, Except.bind]
    repeat' split
    all_goals exact ⟨_, rfl, patternless.step (lenient _) rfl (by simp)⟩
  cases value with
  | null =>
      rw [Recorder.isEqualTo, isNull, Asserter.isNull, made]
      exact ⟨_, rfl, patternless.step (lenient _) rfl (by simp)⟩
  | bool flag =>
      rw [Recorder.isEqualTo, isEqualToBool, Asserter.isEqualTo, made]
      simp only [bind, Except.bind]
      split <;> exact ⟨_, rfl, patternless.step (lenient _) rfl (by simp)⟩
  | number number =>
      rw [Recorder.isEqualTo, isEqualToNumber, Asserter.isEqualTo, made]
      simp only [bind, Except.bind]
      split <;> split <;> exact ⟨_, rfl, patternless.step (lenient _) rfl (by simp)⟩
  | string string => exact text string
  | array elements => exact text _
  | object members => exact text _

/-- A value that is looked for among elements. -/
theorem IsPatternless.contains (value : Json) :
    ∃ chain, key.arrayField.contains value = .ok chain ∧ chain.IsPatternless := by
  have asserting : key.arrayField.delegate.isAssertingArrayValue = true := rfl
  have selected : (key.arrayField.delegate.contains value).isPresent =
      .ok (key.arrayField.delegate.contains value).finished :=
    Asserter.check_of_lenient patternless.lenient
  rw [Recorder.contains, asserting]
  simp only [if_true, selected, bind, Except.bind]
  exact ⟨_, rfl, patternless.arrayField.step patternless.lenient rfl (by simp)⟩

theorem IsPatternless.checking (value : Json)
    (unmarked : Placeholder.markedPattern? value = none) :
    ∃ chain, key.checking value = .ok chain ∧ chain.IsPatternless := by
  rw [Recorder.checking, unmarked]
  split
  · exact ⟨key, rfl, patternless⟩
  · exact patternless.isEqualTo value

theorem IsPatternless.leaf (value : Json)
    (unmarked : Placeholder.markedPattern? value = none) :
    Chains.Yields IsPatternless (key.leaf value) := by
  obtain ⟨checked, made, checkedToo⟩ := patternless.checking value unmarked
  obtain ⟨contained, asked, containedToo⟩ := patternless.contains value
  have alone : Chains.Yields IsPatternless (.ok [checked]) := Chains.yields_singleton checkedToo
  have both : Chains.Yields IsPatternless (.ok [contained, checked]) :=
    Chains.Yields.append (Chains.yields_singleton containedToo) alone
  rw [Recorder.leaf, made]
  cases value with
  | null => exact alone
  | _ =>
      simp only [bind, Except.bind, asked]
      split_ifs <;> assumption

theorem IsPatternless.entry (name : String) (value : Json) :
    ∃ entry, key.entry name value = .ok entry ∧ entry.IsPatternless := by
  have field : ∀ calls, (∀ pattern, Call.matching pattern ∉ calls) → ∀ next : Recorder,
      next.delegate.isStrict = key.delegate.isStrict → next.calls = key.calls ++ calls →
        next.IsPatternless := fun calls others next strict same =>
    patternless.step (strict.trans patternless.lenient) same others
  cases value with
  | array elements =>
      cases elements with
      | nil => exact (patternless.array name).isEmpty
      | cons first rest =>
          rw [Recorder.entry]
          · split_ifs
            · exact ⟨_, rfl, field [.field (key.style.wrap name), .arrayField] (by simp) _ rfl rfl⟩
            · exact ⟨_, rfl, patternless.array name⟩
          · rintro ⟨⟩
  | _ => exact ⟨_, rfl, field [.field (key.style.wrap name)] (by simp) _ rfl rfl⟩

end Steps

end Recorder

namespace Chains

open Recorder

/-- How the members in texts are walked without meeting a marker. -/
def AvoidsPatterns (inText : TextWalk) : Prop :=
  ∀ key members, key.IsPatternless → (Json.object members).IsUnmarked →
    Yields IsPatternless (inText key members)

section

variable {inText : TextWalk} (avoids : AvoidsPatterns inText)

include avoids

/-- The chains of an unmarked body are without patterns. -/
theorem yields_walk_unmarked {value : Json} (unmarked : value.IsUnmarked) {key : Recorder}
    (patternless : key.IsPatternless) : Yields IsPatternless (walk inText false key value) := by
  induction unmarked generalizing key with
  | null => simpa only [walk] using patternless.leaf _ rfl
  | bool flag => simpa only [walk] using patternless.leaf _ rfl
  | number number => simpa only [walk] using patternless.leaf _ rfl
  | @string text inside _ =>
      rw [walk]
      split
      · exact patternless.leaf _ rfl
      · split
        · rename_i members held
          rw [Json.membersInText?] at held
          split at held
          · rename_i isObject
            cases held
            exact avoids key members patternless (inside _ isObject)
          · cases held
        · obtain ⟨checked, made, checkedToo⟩ := patternless.checking (.string text) rfl
          rw [made]
          exact yields_singleton checkedToo
  | @array elements each inductionHypothesis =>
      rw [walk]
      split
      · exact yields_singleton patternless
      · split
        · have noSize : key.sizeCheck false elements.length = .ok [] := rfl
          rw [noSize]
          refine yields_nil.append (yields_walkSimple fun index value isThere => ?_)
          have member := List.mem_of_getElem? isThere
          rw [simpleElement, if_neg Bool.false_ne_true]
          obtain ⟨checked, made, checkedToo⟩ :=
            patternless.arrayField.checking value (each value member).markedPattern?_eq_none
          exact ⟨checked, made, inductionHypothesis value member checkedToo⟩
        · rw [if_neg Bool.false_ne_true]
          exact yields_walkElements fun value member =>
            inductionHypothesis value member ((patternless.elements elements).element value)
  | @object members noMarker each inductionHypothesis =>
      rw [walk.eq_def]
      simp only [noMarker, if_neg Bool.false_ne_true]
      split
      · obtain ⟨chain, made, chainToo⟩ := patternless.isEmpty
        rw [made]
        exact yields_singleton chainToo
      · refine yields_walkMembers fun member isIn => ?_
        obtain ⟨entry, entered, entryToo⟩ := patternless.entry member.1 member.2
        exact ⟨entry, entered, inductionHypothesis member isIn entryToo⟩

end

/-- Texts in texts are walked to any depth without meeting a marker. -/
theorem avoidsPatterns_walkText (depth : Nat) : AvoidsPatterns (walkText false depth) := by
  induction depth with
  | zero => exact fun _ _ _ _ => yields_nil
  | succ depth inductionHypothesis =>
      intro key members patternless unmarked
      rw [walkText]
      split
      · obtain ⟨chain, made, chainToo⟩ := patternless.isEmpty
        rw [made]
        exact yields_singleton chainToo
      · cases unmarked with
        | object noMarker each =>
            refine yields_walkMembers fun member isIn => ?_
            obtain ⟨entry, entered, entryToo⟩ := patternless.entry member.1 member.2
            exact ⟨entry, entered,
              yields_walk_unmarked inductionHypothesis (each member isIn) entryToo⟩

end Chains

end BodyContract
