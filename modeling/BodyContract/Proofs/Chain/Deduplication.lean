import BodyContract.Proofs.Chain.Branching
import BodyContract.Proofs.Chain.Spelling

/-!
# Chains with the same text

Of chains with the same text only the first is kept.  Nothing is lost by that if
they have made the same calls.  This is so for all chains that are recorded in
order, since no two of them have the same text, and for most that are recorded
without an order: a truth value among elements is not written, so a chain that
looks for one reads like a chain that looks for the other.
-/

namespace BodyContract

/-- Whether calls differ only in the truth value that is looked for among
elements at their ends. -/
def Call.DifferInTruth (left right : List Call) : Prop :=
  ∃ front holds, left = front ++ [.arrayField, .isEqualTo (.bool holds)] ∧
    right = front ++ [.arrayField, .isEqualTo (.bool !holds)]

/-! ## The calls of marks -/

theorem mayFollow_of_arePlaced_concat {previous : Option Mark} {front : List Mark} {mark : Mark}
    (placed : ArePlaced previous (front ++ [mark])) :
    mark.mayFollow (lastOf previous front) = true := by
  induction front generalizing previous with
  | nil => exact placed.1
  | cons first rest inductionHypothesis => exact inductionHypothesis placed.2.2

/-- Where a truth value can be looked for, the last call has turned to elements. -/
theorem calls_of_mayFollow_truth {front : List Mark} {holds : Bool}
    (follows : (Mark.truth holds).mayFollow (lastOf none front) = true) :
    ∃ others, front.flatMap Mark.calls = others ++ [.arrayField] := by
  rcases List.eq_nil_or_concat' front with rfl | ⟨before, last, rfl⟩
  · cases follows
  · rw [lastOf_concat] at follows
    rw [List.flatMap_append, List.flatMap_singleton]
    -- a truth value can stand behind two marks only, and both end with such a call
    cases last with
    | values => exact ⟨_, rfl⟩
    | simple name =>
        refine ⟨before.flatMap Mark.calls ++ [.field name, .arrayField], ?_⟩
        rw [List.append_assoc]
        rfl
    | _ => cases follows

theorem DifferInTruth.calls {left right : List Mark} (differ : DifferInTruth left right)
    (placed : ArePlaced none left) :
    Call.DifferInTruth (left.flatMap Mark.calls) (right.flatMap Mark.calls) := by
  obtain ⟨front, holds, rfl, rfl⟩ := differ
  obtain ⟨others, same⟩ := calls_of_mayFollow_truth (mayFollow_of_arePlaced_concat placed)
  refine ⟨others, holds, ?_, ?_⟩
  · rw [List.flatMap_append, List.flatMap_singleton, same, List.append_assoc]
    rfl
  · rw [List.flatMap_append, List.flatMap_singleton, same, List.append_assoc]
    rfl

namespace Recorder

theorem Holds.of_calls_eq {left right : Recorder} {document : Json} (holds : left.Holds document)
    (same : left.calls = right.calls) : right.Holds document := by
  obtain ⟨asserter, replayed⟩ := holds
  rw [replay, same] at replayed
  exact ⟨asserter, replayed⟩

/-- Spelled chains with the same text have made the same calls, up to a truth value. -/
theorem calls_eq_or_differInTruth {left right : Recorder} (isLeft : left.IsSpelled)
    (isRight : right.IsSpelled) (same : left.method = right.method) :
    left.calls = right.calls ∨ Call.DifferInTruth left.calls right.calls := by
  obtain ⟨marks, spells⟩ := isLeft
  obtain ⟨others, otherSpells⟩ := isRight
  rw [method, method, spells.methods_eq, otherSpells.methods_eq] at same
  rw [spells.calls_eq, otherSpells.calls_eq]
  rcases eq_or_differInTruth spells.placed otherSpells.placed (Word.join_injective same) with
    equal | differ
  · exact Or.inl (by rw [equal])
  · exact Or.inr (differ.calls spells.placed)

end Recorder

namespace Chains

open Recorder

/-! ## Chains that are kept -/

theorem ofList_concat (recorded : List Recorder) (chain : Recorder) :
    ofList (recorded ++ [chain]) = (ofList recorded).add chain := List.foldl_concat _ _ _ _

theorem mem_methods_add {chains : Chains} {chain : Recorder} {text : String} :
    text ∈ (chains.add chain).methods ↔ text ∈ chains.methods ∨ text = chain.method := by
  rw [add]
  split
  · rename_i repeated
    constructor
    · exact Or.inl
    · intro kept
      rcases kept with old | new
      · exact old
      · rw [new]
        exact repeated
  · simp [methods]

theorem mem_methods_ofList {recorded : List Recorder} {text : String} :
    text ∈ (ofList recorded).methods ↔ text ∈ recorded.map method := by
  induction recorded using List.reverseRecOn with
  | nil => exact Iff.rfl
  | append_singleton front chain inductionHypothesis =>
      rw [ofList_concat, mem_methods_add, inductionHypothesis, List.map_append, List.map_singleton,
        List.mem_append, List.mem_singleton]

theorem mem_toList_foldl_add_of_mem {chains : Chains} {chain : Recorder}
    (isThere : chain ∈ chains.toList) (later : List Recorder) :
    chain ∈ (later.foldl add chains).toList := by
  induction later generalizing chains with
  | nil => exact isThere
  | cons next rest inductionHypothesis =>
      apply inductionHypothesis
      rw [add]
      split
      · exact isThere
      · exact List.mem_append_left _ isThere

theorem mem_toList_ofList_of_first {front back : List Recorder} {chain : Recorder}
    (first : chain.method ∉ front.map method) :
    chain ∈ (ofList (front ++ chain :: back)).toList := by
  have added : chain ∈ ((ofList front).add chain).toList := by
    rw [add]
    split
    · rename_i repeated
      exact absurd (mem_methods_ofList.mp repeated) first
    · exact List.mem_append_right _ List.mem_cons_self
  rw [ofList, List.foldl_append]
  exact mem_toList_foldl_add_of_mem added back

theorem exists_first_of_mem_toList_ofList {recorded : List Recorder} {chain : Recorder}
    (kept : chain ∈ (ofList recorded).toList) :
    ∃ front back, recorded = front ++ chain :: back ∧ chain.method ∉ front.map method := by
  induction recorded using List.reverseRecOn with
  | nil => exact absurd kept List.not_mem_nil
  | append_singleton before last inductionHypothesis =>
      have old : chain ∈ (ofList before).toList → ∃ front back,
          before ++ [last] = front ++ chain :: back ∧ chain.method ∉ front.map method := by
        intro isOld
        obtain ⟨front, back, same, first⟩ := inductionHypothesis isOld
        refine ⟨front, back ++ [last], ?_, first⟩
        rw [same, List.append_assoc, List.cons_append]
      rw [ofList_concat, add] at kept
      split at kept
      · exact old kept
      · rename_i new
        rcases List.mem_append.mp kept with isOld | isNew
        · exact old isOld
        · rw [List.mem_singleton.mp isNew]
          exact ⟨before, [], rfl, fun repeated => new (mem_methods_ofList.mpr repeated)⟩

/-- In front of a chain stands the first with its text. -/
theorem exists_first_of_mem {front : List Recorder} {text : String}
    (member : text ∈ front.map method) : ∃ before first after,
      front = before ++ first :: after ∧ first.method = text ∧ text ∉ before.map method := by
  obtain ⟨texts, others, same, isFirst⟩ := List.eq_append_cons_of_mem member
  obtain ⟨before, rest, rfl, rfl, behind⟩ := List.map_eq_append_iff.mp same
  obtain ⟨first, after, rfl, isText, -⟩ := List.map_eq_cons_iff.mp behind
  exact ⟨before, first, after, rfl, isText, isFirst⟩

/-- If chains with the same text make the same calls or differ in a certain way,
then keeping the first ones checks all others but those that differ so from one
in front of them. -/
theorem verify_ofList_iff {recorded : List Recorder} {differ : Recorder → Recorder → Prop}
    (told : ∀ left ∈ recorded, ∀ right ∈ recorded, left.method = right.method →
      left.calls = right.calls ∨ differ left right) (actual : Json) :
    (ofList recorded).verify actual = .ok () ↔
      ∀ front chain back, recorded = front ++ chain :: back → chain.Holds actual ∨
        ∃ other ∈ front, other.method = chain.method ∧ differ other chain := by
  rw [verify, verifyAll_ok_iff]
  constructor
  · intro holds front chain back same
    subst same
    by_cases repeated : chain.method ∈ front.map method
    · -- the first chain with the text is kept in the place of this one
      obtain ⟨before, first, after, rfl, text, isFirst⟩ := exists_first_of_mem repeated
      rw [← text] at isFirst
      have isIn : first ∈ before ++ first :: after := by simp
      have kept : first ∈ (ofList (before ++ first :: after ++ chain :: back)).toList := by
        rw [List.append_assoc]
        exact mem_toList_ofList_of_first isFirst
      rcases told first (List.mem_append_left _ isIn) chain (by simp) text with equal | apart
      · exact Or.inl ((holds first kept).of_calls_eq equal)
      · exact Or.inr ⟨first, isIn, text, apart⟩
    · exact Or.inl (holds chain (mem_toList_ofList_of_first repeated))
  · intro each chain kept
    obtain ⟨front, back, same, isFirst⟩ := exists_first_of_mem_toList_ofList kept
    rcases each front chain back same with holds | masked
    · exact holds
    · obtain ⟨other, member, text, -⟩ := masked
      exact absurd (List.mem_map.mpr ⟨other, member, text⟩) isFirst

/-! ## Chains that are recorded -/

/-- The chain that has not gone anywhere yet. -/
abbrev root (options : ChainOptions) (document : Json) : Recorder :=
  .ofAsserter (Asserter.ofDocument document).lenient options.style

/-- All chains that are recorded for a body, also those with a text that is there
already. -/
def emitted (options : ChainOptions) : Json → Except AssertionError (List Recorder)
  | .null => .ok []
  | body =>
      if !body.isBlankBody then
        recorded options (documentOf body)
      else if options.checksEmptyBody then do
        .ok [← (root options (documentOf body)).isEmpty]
      else
        .ok []

theorem emitted_of_ne_null {options : ChainOptions} {body : Json} (notNull : body ≠ .null) :
    emitted options body =
      if !body.isBlankBody then
        recorded options (documentOf body)
      else if options.checksEmptyBody then do
        .ok [← (root options (documentOf body)).isEmpty]
      else
        .ok [] := by
  rw [emitted.eq_def]
  split
  · exact absurd rfl notNull
  · rfl

theorem ofBody_eq_emitted (options : ChainOptions) (body : Json) :
    ofBody options body = (emitted options body).map ofList := by
  by_cases isNull : body = .null
  · rw [isNull]
    rfl
  · rw [emitted_of_ne_null isNull, ofBody.eq_def]
    split
    · exact absurd rfl isNull
    · by_cases blank : body.isBlankBody = true
      · rw [blank]
        by_cases checked : options.checksEmptyBody = true
        · simp only [checked, Bool.not_true, if_neg Bool.false_ne_true, if_true]
          cases (root options (documentOf body)).isEmpty <;> rfl
        · simp only [checked, Bool.not_true, if_neg Bool.false_ne_true]
          rfl
      · simp only [blank, Bool.not_false, if_true]
        cases recorded options (documentOf body) <;> rfl

theorem isCanonical_documentOf {body : Json} (canonical : body.IsCanonical) :
    (documentOf body).IsCanonical := by
  cases canonical with
  | null => exact .null
  | bool holds => exact .bool holds
  | number canonical => exact .number canonical
  | string content =>
      rw [documentOf]
      cases read : Json.parse? content with
      | none => exact .string content
      | some document => exact Json.isCanonical_of_parse? read
  | array each => exact .array each
  | object distinct each => exact .object distinct each

/-- Whether chains differ in a truth value that is not written. -/
def DifferUnwritten (options : ChainOptions) (left right : Recorder) : Prop :=
  options.isOrdered = false ∧ Call.DifferInTruth left.calls right.calls

theorem goesOn_root (options : ChainOptions) (document : Json) :
    (root options document).GoesOn [] where
  spells := ⟨rfl, rfl, trivial⟩
  lenient := rfl
  isOpen := by
    intro holds same
    cases same
  away := fun _ => rfl

theorem told_of_recorded (options : ChainOptions) {document : Json}
    (canonical : document.IsCanonical) : ∃ chains, recorded options document = .ok chains ∧
      ∀ left ∈ chains, ∀ right ∈ chains, left.method = right.method →
        left.calls = right.calls ∨ DifferUnwritten options left right := by
  cases ordered : options.isOrdered with
  | true =>
      obtain ⟨chains, made, distinct, written⟩ := walkBranches_of_isCanonical
        (textBranches_walkText document.chars.length) canonical (root options document) rfl
        fun _ => ⟨rfl, fun _ => rfl⟩
      refine ⟨chains, ?_, ?_⟩
      · rw [recorded, ordered]
        exact made
      · intro left isLeft right isRight same
        obtain ⟨leftWords, -, leftMethods⟩ := written left isLeft
        obtain ⟨rightWords, -, rightMethods⟩ := written right isRight
        have texts : left.methods = right.methods := by
          rw [method, method, leftMethods, rightMethods] at same
          rw [leftMethods, rightMethods, Word.join_injective same]
        exact Or.inl (congrArg Recorder.calls
          (List.inj_on_of_nodup_map distinct isLeft isRight texts))
  | false =>
      obtain ⟨chains, made, spelled⟩ := walkSpells_of_isCanonical
        (textSpells_walkText document.chars.length) canonical _ [] (goesOn_root options document)
        fun _ => rfl
      refine ⟨chains, ?_, ?_⟩
      · rw [recorded, ordered]
        exact made
      · intro left isLeft right isRight same
        rcases calls_eq_or_differInTruth (spelled left isLeft) (spelled right isRight) same with
          equal | differ
        · exact Or.inl equal
        · exact Or.inr ⟨ordered, differ⟩

theorem told_of_emitted (options : ChainOptions) {body : Json} (canonical : body.IsCanonical) :
    ∃ chains, emitted options body = .ok chains ∧
      ∀ left ∈ chains, ∀ right ∈ chains, left.method = right.method →
        left.calls = right.calls ∨ DifferUnwritten options left right := by
  by_cases isNull : body = .null
  · rw [isNull]
    exact ⟨[], rfl, fun _ member => absurd member List.not_mem_nil⟩
  · rw [emitted_of_ne_null isNull]
    split
    · exact told_of_recorded options (isCanonical_documentOf canonical)
    · split
      · obtain ⟨chain, made, -⟩ := isEmpty_adds (goesOn_root options (documentOf body)).lenient
        rw [made]
        refine ⟨[chain], rfl, ?_⟩
        intro left isLeft right isRight _
        rw [List.mem_singleton.mp isLeft, List.mem_singleton.mp isRight]
        exact Or.inl rfl
      · exact ⟨[], rfl, fun _ member => absurd member List.not_mem_nil⟩

/-- Of all chains that are recorded for a body, those with the same text make the
same calls, unless they are recorded without an order and look for different
truth values among elements at their ends.  A body therefore satisfies the
chains that are kept if and only if it satisfies all that are recorded, but for
those that differ so from one in front of them. -/
theorem verify_ofBody_iff_emitted (options : ChainOptions) {body : Json}
    (canonical : body.IsCanonical) :
    ∃ chains, emitted options body = .ok chains ∧ ofBody options body = .ok (ofList chains) ∧
      (∀ left ∈ chains, ∀ right ∈ chains, left.method = right.method →
        left.calls = right.calls ∨ DifferUnwritten options left right) ∧
      ∀ actual, (ofList chains).verify actual = .ok () ↔
        ∀ front chain back, chains = front ++ chain :: back → chain.Holds actual ∨
          ∃ other ∈ front, other.method = chain.method ∧ DifferUnwritten options other chain := by
  obtain ⟨chains, made, told⟩ := told_of_emitted options canonical
  refine ⟨chains, made, ?_, told, ?_⟩
  · rw [ofBody_eq_emitted, made]
    rfl
  · exact verify_ofList_iff told

/-- An array of both truth values. -/
def bothTruths : Json := .array [.bool true, .bool false]

theorem bothTruths_isCanonical : bothTruths.IsCanonical := by
  apply Json.IsCanonical.array
  intro element member
  rcases List.mem_cons.mp member with rfl | later
  · exact .bool true
  · rw [List.mem_singleton.mp later]
    exact .bool false

/-- Without an order, nothing is lost for such an array but the check of its
second value. -/
theorem bothTruths_verify_iff_emitted : bothTruths.IsCanonical ∧
    ∃ chains, emitted ⟨false, .bracketed, false⟩ bothTruths = .ok chains ∧
      ofBody ⟨false, .bracketed, false⟩ bothTruths = .ok (ofList chains) ∧
      (∀ left ∈ chains, ∀ right ∈ chains, left.method = right.method →
        left.calls = right.calls ∨ DifferUnwritten ⟨false, .bracketed, false⟩ left right) ∧
      ∀ actual, (ofList chains).verify actual = .ok () ↔
        ∀ front chain back, chains = front ++ chain :: back → chain.Holds actual ∨
          ∃ other ∈ front, other.method = chain.method ∧
            DifferUnwritten ⟨false, .bracketed, false⟩ other chain :=
  ⟨bothTruths_isCanonical, verify_ofBody_iff_emitted _ bothTruths_isCanonical⟩

/-- The chains for both truth values read the same. -/
theorem emitted_bothTruths : ∃ first second,
    emitted ⟨false, .bracketed, false⟩ bothTruths = .ok [first, second] ∧
      second.method = first.method ∧
      first.Ends (root ⟨false, .bracketed, false⟩ bothTruths).arrayField
        [equalityCall (.bool true)] ∧
      second.Ends (root ⟨false, .bracketed, false⟩ bothTruths).arrayField
        [equalityCall (.bool false)] :=
  ⟨_, _, rfl, rfl, ⟨rfl, rfl, rfl⟩, ⟨rfl, rfl, rfl⟩⟩

/-- An array that has only one of the values passes, though a recorded chain does
not hold for it. -/
theorem bothTruths_lose_check :
    ∃ chains, emitted ⟨false, .bracketed, false⟩ bothTruths = .ok chains ∧
      ofBody ⟨false, .bracketed, false⟩ bothTruths = .ok (ofList chains) ∧
      (∃ left ∈ chains, ∃ right ∈ chains, left.method = right.method ∧ left.calls ≠ right.calls) ∧
      (ofList chains).verify (.array [.bool true]) = .ok () ∧
      ¬ ∀ chain ∈ chains, chain.Holds (.array [.bool true]) := by
  obtain ⟨first, second, made, text, isFirst, isSecond⟩ := emitted_bothTruths
  have stands := (stands_root bothTruths).arrayField
  have firstHolds : first.Holds (.array [.bool true]) := by
    rw [isFirst.equality_holds_iff stands rfl (.bool true)]
    exact ⟨_, List.mem_singleton_self _, .bool true, List.mem_singleton_self _, .bool true,
      List.mem_singleton_self _, rfl⟩
  refine ⟨[first, second], made, ?_, ?_, ?_, ?_⟩
  · rw [ofBody_eq_emitted, made]
    rfl
  · refine ⟨first, by simp, second, by simp, text.symm, ?_⟩
    rw [isFirst.calls_eq, isSecond.calls_eq]
    intro same
    cases List.append_cancel_left same
  · rw [verify, verifyAll_ok_iff]
    intro chain kept
    obtain ⟨front, back, same, isNew⟩ := exists_first_of_mem_toList_ofList kept
    rcases front with - | ⟨other, rest⟩
    · injection same with equal _
      rw [← equal]
      exact firstHolds
    · -- the second chain is not the first with its text
      injection same with isOther later
      rcases rest with - | ⟨another, others⟩
      · injection later with equal _
        rw [← equal, ← isOther, text] at isNew
        exact absurd (List.mem_singleton_self _) isNew
      · injection later with _ impossible
        cases others <;> cases impossible
  · intro each
    have found := each second (by simp)
    rw [isSecond.equality_holds_iff stands rfl (.bool false)] at found
    obtain ⟨value, isThere, item, isItem, found, isFound, equal⟩ := found
    rw [List.mem_singleton.mp isThere] at isItem
    rw [List.mem_singleton.mp isItem] at isFound
    rw [List.mem_singleton.mp isFound] at equal
    cases equal

end Chains

end BodyContract
