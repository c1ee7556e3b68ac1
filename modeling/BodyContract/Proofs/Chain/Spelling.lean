import BodyContract.Proofs.Chain.Steps

/-!
# Chains without an order are spelled by marks

Every chain that is recorded without an order writes the words of marks and
makes their calls.  So two chains with the same text have made the same calls,
unless they end with different truth values among elements.
-/

namespace BodyContract

namespace Recorder

/-- A chain that has taken the steps of some marks. -/
structure Spells (chain : Recorder) (marks : List Mark) : Prop where
  methods_eq : chain.methods = (wordsOf marks).map Word.text
  calls_eq : chain.calls = marks.flatMap Mark.calls
  placed : ArePlaced none marks

/-- Whether the text of a chain is the words of marks, and its calls are theirs. -/
def IsSpelled (chain : Recorder) : Prop := ∃ marks, chain.Spells marks

theorem Spells.add {key next : Recorder} {marks : List Mark} {mark : Mark}
    (spells : key.Spells marks) (adds : next.Adds key mark.words mark.calls)
    (follows : mark.mayFollow (lastOf none marks) = true) (canonical : mark.IsCanonical) :
    next.Spells (marks ++ [mark]) where
  methods_eq := by
    rw [adds.methods_eq, spells.methods_eq, wordsOf, wordsOf, List.flatMap_append,
      List.flatMap_singleton, List.map_append]
  calls_eq := by
    rw [adds.calls_eq, spells.calls_eq, List.flatMap_append, List.flatMap_singleton]
  placed := arePlaced_concat spells.placed follows canonical

/-! ## Places in a body -/

/-- A chain that goes on from a value.  Only a chain that has checked something
may stand among the elements of an array of simple values. -/
structure GoesOn (key : Recorder) (marks : List Mark) : Prop where
  spells : key.Spells marks
  lenient : key.delegate.isStrict = false
  isOpen : Mark.IsOpen (lastOf none marks)
  away : key.isFinished = false → key.delegate.isAssertingArrayValue = false

/-- A chain among the elements of an array of simple values. -/
structure Lists (key : Recorder) (marks : List Mark) : Prop where
  spells : key.Spells marks
  lenient : key.delegate.isStrict = false
  listed : ∀ holds, (Mark.truth holds).mayFollow (lastOf none marks) = true
  asserting : key.delegate.isAssertingArrayValue = true
  last : key.lastRecord? = some ".arrayField()"

section Steps

variable {key : Recorder} {marks : List Mark}

/-- Any step but two can be taken from a value. -/
theorem GoesOn.spells_add (goesOn : key.GoesOn marks) {next : Recorder} {mark : Mark}
    (adds : next.Adds key mark.words mark.calls) (canonical : mark.IsCanonical)
    (notValues : mark ≠ .values) (notTruth : ∀ holds, mark ≠ .truth holds) :
    next.Spells (marks ++ [mark]) :=
  goesOn.spells.add adds (Mark.mayFollow_of_isOpen goesOn.isOpen notValues notTruth) canonical

theorem isOpen_concat {mark : Mark} (notTruth : ∀ holds, mark ≠ .truth holds) :
    Mark.IsOpen (lastOf none (marks ++ [mark])) := by
  intro holds same
  rw [lastOf_concat] at same
  injection same with isTruth
  exact notTruth holds isTruth

theorem GoesOn.traverseField (goesOn : key.GoesOn marks) (name : String) :
    (key.traverseField name).GoesOn (marks ++ [.member (key.style.wrap name)]) where
  spells := goesOn.spells_add (adds_traverseField key name) trivial Mark.noConfusion
    fun _ => Mark.noConfusion
  lenient := goesOn.lenient
  isOpen := isOpen_concat fun _ => Mark.noConfusion
  away := fun _ => rfl

theorem GoesOn.array (goesOn : key.GoesOn marks) (name : String) :
    (key.array name).GoesOn (marks ++ [.array (key.style.wrap name)]) where
  spells := goesOn.spells_add (adds_array key name) trivial Mark.noConfusion
    fun _ => Mark.noConfusion
  lenient := goesOn.lenient
  isOpen := isOpen_concat fun _ => Mark.noConfusion
  away := fun _ => rfl

theorem GoesOn.anonymousArray (goesOn : key.GoesOn marks) :
    key.anonymousArray.GoesOn (marks ++ [.every]) where
  spells := goesOn.spells_add (adds_anonymousArray key) trivial Mark.noConfusion
    fun _ => Mark.noConfusion
  lenient := goesOn.lenient
  isOpen := isOpen_concat fun _ => Mark.noConfusion
  away := fun _ => rfl

theorem lastRecord?_arrayField (key : Recorder) :
    key.arrayField.lastRecord? = some ".arrayField()" := by
  have methods : key.arrayField.methods = key.methods ++ [".arrayField()"] := rfl
  rw [lastRecord?, methods, List.getLast?_concat]

theorem GoesOn.arrayFieldNamed (goesOn : key.GoesOn marks) (name : String) :
    (key.arrayFieldNamed name).arrayField.Lists (marks ++ [.simple (key.style.wrap name)]) where
  spells := goesOn.spells_add
    ((adds_arrayField (key.arrayFieldNamed name)).trans (adds_arrayFieldNamed key name)) trivial
    Mark.noConfusion fun _ => Mark.noConfusion
  lenient := goesOn.lenient
  listed := by
    intro holds
    rw [lastOf_concat]
    rfl
  asserting := rfl
  last := lastRecord?_arrayField _

/-- Turning to the elements of an array of simple values: of the body, or of
one among other elements. -/
theorem GoesOn.arrayField (goesOn : key.GoesOn marks)
    (follows : Mark.values.mayFollow (lastOf none marks) = true) :
    key.arrayField.Lists (marks ++ [.values]) where
  spells := goesOn.spells.add (adds_arrayField key) follows trivial
  lenient := goesOn.lenient
  listed := by
    intro holds
    rw [lastOf_concat]
    rfl
  asserting := rfl
  last := lastRecord?_arrayField _

theorem GoesOn.checking (goesOn : key.GoesOn marks) {value : Json} (canonical : value.IsCanonical) :
    ∃ chain, key.checking value = .ok chain ∧ chain.IsSpelled := by
  cases finished : key.isFinished with
  | true =>
      exact ⟨key, checking_of_finished finished value, marks, goesOn.spells⟩
  | false =>
      obtain ⟨chain, made, checks⟩ := checking_checks goesOn.lenient (goesOn.away finished)
        (fun impossible => absurd impossible Bool.false_ne_true) finished value
      exact ⟨chain, made, _, goesOn.spells_add checks.adds (isCanonical_checkMark false canonical)
        (checkMark_ne_values false value) (checkMark_ne_truth value)⟩

theorem GoesOn.isEmpty (goesOn : key.GoesOn marks) :
    ∃ chain, key.isEmpty = .ok chain ∧ chain.IsSpelled := by
  obtain ⟨chain, made, adds⟩ := isEmpty_adds goesOn.lenient
  have spells : chain.Spells (marks ++ [.isEmpty]) :=
    goesOn.spells_add adds trivial Mark.noConfusion fun _ => Mark.noConfusion
  exact ⟨chain, made, _, spells⟩

theorem GoesOn.contains (goesOn : key.GoesOn marks) {value : Scalar}
    (canonical : value.IsCanonical) :
    ∃ chain, key.arrayField.contains value.toJson = .ok chain ∧ chain.IsSpelled := by
  obtain ⟨chain, made, adds⟩ := contains_adds goesOn.lenient value
  have spells : chain.Spells (marks ++ [.contains value]) :=
    goesOn.spells_add adds canonical Mark.noConfusion fun _ => Mark.noConfusion
  exact ⟨chain, made, _, spells⟩

theorem Lists.isOpen (lists : key.Lists marks) : Mark.IsOpen (lastOf none marks) := by
  intro holds same
  have impossible := lists.listed holds
  rw [same] at impossible
  cases impossible

/-- Among elements a truth value can be checked as well. -/
theorem Lists.spells_add (lists : key.Lists marks) {next : Recorder} {mark : Mark}
    (adds : next.Adds key mark.words mark.calls) (canonical : mark.IsCanonical)
    (notValues : mark ≠ .values) : next.Spells (marks ++ [mark]) := by
  apply lists.spells.add adds _ canonical
  by_cases isTruth : ∃ holds, mark = .truth holds
  · obtain ⟨holds, rfl⟩ := isTruth
    exact lists.listed holds
  · apply Mark.mayFollow_of_isOpen lists.isOpen notValues
    intro holds same
    exact isTruth ⟨holds, same⟩

end Steps

end Recorder

namespace Chains

open Recorder

/-- Whether the members of an object in a text yield spelled chains. -/
def TextSpells (inText : TextWalk) : Prop :=
  ∀ key marks members, key.GoesOn marks → (Json.object members).IsCanonical →
    Yields IsSpelled (inText key members)

section Walk

variable {inText : TextWalk} {key : Recorder} {marks : List Mark} {value : Json}

theorem yields_of_spelled {made : Except AssertionError Recorder}
    (spelled : ∃ chain, made = .ok chain ∧ chain.IsSpelled) :
    Yields IsSpelled (do .ok [← made]) := by
  obtain ⟨chain, rfl, isSpelled⟩ := spelled
  exact yields_singleton isSpelled

theorem yields_leaf_isSpelled (goesOn : key.GoesOn marks) (scalar : Scalar)
    (canonical : scalar.IsCanonical) (isCanonical : scalar.toJson.IsCanonical) :
    Yields IsSpelled (key.leaf scalar.toJson) := by
  obtain ⟨checked, made, checkedSpelled⟩ := goesOn.checking isCanonical
  obtain ⟨contained, asked, containedSpelled⟩ := goesOn.contains canonical
  rcases leaf_eq made with alone | both
  · rw [alone]
    exact yields_singleton checkedSpelled
  · rw [both contained asked]
    exact Yields.append (yields_singleton containedSpelled) (yields_singleton checkedSpelled)

theorem yields_leaf_null (goesOn : key.GoesOn marks) : Yields IsSpelled (key.leaf .null) :=
  yields_of_spelled (goesOn.checking .null)

/-- The chains for a value that is no array and no object with members. -/
theorem yields_walk_simple (textSpells : TextSpells inText) (goesOn : key.GoesOn marks)
    (canonical : value.IsCanonical) (simple : value.isSimple = true) :
    Yields IsSpelled (walk inText false key value) := by
  cases canonical with
  | null =>
      simp only [walk]
      exact yields_leaf_null goesOn
  | bool holds =>
      simp only [walk]
      exact yields_leaf_isSpelled goesOn (.flag holds) trivial (.bool holds)
  | @number amount amountCanonical =>
      simp only [walk]
      exact yields_leaf_isSpelled goesOn (.number amount) amountCanonical (.number amountCanonical)
  | string content =>
      rw [walk]
      split
      · exact yields_leaf_isSpelled goesOn (.text content) trivial (.string content)
      · split
        · rename_i members isObject
          exact textSpells key marks members goesOn (Json.isCanonical_of_membersInText? isObject)
        · exact yields_of_spelled (goesOn.checking (.string content))
  | array each => cases simple
  | object distinct each =>
      simp only [Json.isSimple] at simple
      rw [walk, if_pos simple]
      exact yields_of_spelled (goesOn.checking (.object distinct each))

/-- Checking an element of an array of simple values and going on from there. -/
theorem yields_listed (textSpells : TextSpells inText) (lists : key.Lists marks)
    (canonical : value.IsCanonical) (simple : value.isSimple = true) :
    ∃ checked, key.checking value = .ok checked ∧
      Yields IsSpelled (walk inText false checked value) := by
  by_cases finished : key.isFinished = true
  · have goesOn : key.GoesOn marks := by
      refine ⟨lists.spells, lists.lenient, lists.isOpen, ?_⟩
      intro unfinished
      rw [finished] at unfinished
      cases unfinished
    exact ⟨key, checking_of_finished finished value,
      yields_walk_simple textSpells goesOn canonical simple⟩
  · obtain ⟨chain, made, checks⟩ := checking_checks lists.lenient lists.asserting
      (fun _ => lists.last) (Bool.eq_false_of_not_eq_true finished) value
    have spells := lists.spells_add checks.adds (isCanonical_checkMark true canonical)
      (checkMark_ne_values true value)
    refine ⟨chain, made, ?_⟩
    by_cases isTruth : ∃ holds, value = .bool holds
    · -- the value is not looked into, so nothing is written behind it
      obtain ⟨holds, rfl⟩ := isTruth
      have alone := leaf_of_checked checks.finished checks.focus (.bool holds)
      simp only [walk, alone]
      exact yields_singleton ⟨_, spells⟩
    · have goesOn : chain.GoesOn (marks ++ [checkMark true value]) := by
        refine ⟨spells, checks.adds.isStrict_eq.trans lists.lenient, ?_, ?_⟩
        · apply isOpen_concat
          apply checkMark_ne_truth_of_ne_bool
          intro holds same
          exact isTruth ⟨holds, same⟩
        · intro unfinished
          rw [checks.finished] at unfinished
          cases unfinished
      exact yields_walk_simple textSpells goesOn canonical simple

theorem yields_walk_areSimple (textSpells : TextSpells inText) {elements : List Json}
    (each : ∀ element ∈ elements, element.IsCanonical) (simple : Json.areSimple elements = true)
    (lists : key.arrayField.Lists marks) :
    Yields IsSpelled (walk inText false key (.array elements)) := by
  have parts := simple
  rw [Json.areSimple, Bool.and_eq_true, Bool.not_eq_true'] at parts
  have noSize : key.sizeCheck false elements.length = .ok [] := rfl
  rw [walk, parts.1, if_neg Bool.false_ne_true, if_pos simple, noSize]
  apply yields_nil.append
  apply yields_walkSimple
  intro index value isThere
  have member := List.mem_of_getElem? isThere
  rw [simpleElement, if_neg Bool.false_ne_true]
  exact yields_listed textSpells lists (each value member)
    (List.all_eq_true.mp parts.2 value member)

/-- Whether the chains for a value are spelled, wherever it is walked. -/
def WalkSpells (inText : TextWalk) (value : Json) : Prop :=
  ∀ key marks, key.GoesOn marks →
    (value.isSimpleArray = true → Mark.values.mayFollow (lastOf none marks) = true) →
      Yields IsSpelled (walk inText false key value)

theorem yields_members (textSpells : TextSpells inText) {members : List (String × Json)}
    (each : ∀ member ∈ members, member.2.IsCanonical)
    (walks : ∀ member ∈ members, WalkSpells inText member.2) (goesOn : key.GoesOn marks) :
    Yields IsSpelled (walkMembers inText false key members) := by
  apply yields_walkMembers
  intro member isIn
  apply yields_entry
  · intro _
    exact (goesOn.array member.1).isEmpty
  · intro elements same simple
    have canonical := each member isIn
    rw [same] at canonical ⊢
    cases canonical with
    | array each =>
        -- going to the member and turning to its elements are one mark
        exact yields_walk_areSimple textSpells each simple (goesOn.arrayFieldNamed member.1)
  · intro elements same notSimple _
    apply walks member isIn _ _ (goesOn.array member.1)
    intro simple
    rw [same, Json.isSimpleArray, notSimple] at simple
    cases simple
  · intro notArray
    apply walks member isIn _ _ (goesOn.traverseField member.1)
    intro simple
    cases value : member.2 with
    | array elements =>
        rw [value] at notArray
        cases notArray
    | _ =>
        rw [value] at simple
        cases simple

theorem goesOn_elements (goesOn : key.GoesOn marks) (values : List Json) :
    ∃ others, (key.elements values).GoesOn others := by
  rw [Recorder.elements]
  repeat' split
  all_goals first
    | exact ⟨_, goesOn.anonymousArray⟩
    | exact ⟨_, goesOn⟩

/-- All chains that are recorded without an order are spelled. -/
theorem walkSpells_of_isCanonical (textSpells : TextSpells inText) (canonical : value.IsCanonical) :
    WalkSpells inText value := by
  induction canonical with
  | null =>
      intro key marks goesOn _
      simp only [walk]
      exact yields_leaf_null goesOn
  | bool holds =>
      intro key marks goesOn _
      exact yields_walk_simple textSpells goesOn (.bool holds) rfl
  | number canonical =>
      intro key marks goesOn _
      exact yields_walk_simple textSpells goesOn (.number canonical) rfl
  | string content =>
      intro key marks goesOn _
      exact yields_walk_simple textSpells goesOn (.string content) rfl
  | @array elements each inductionHypothesis =>
      intro key marks goesOn listed
      by_cases simple : Json.areSimple elements = true
      · exact yields_walk_areSimple textSpells each simple (goesOn.arrayField (listed simple))
      · rw [walk]
        split
        · exact yields_singleton ⟨marks, goesOn.spells⟩
        · rw [if_neg Bool.false_ne_true]
          obtain ⟨others, reached⟩ := goesOn_elements goesOn elements
          apply yields_walkElements
          intro value member
          rw [element]
          split
          · -- only behind this step an array of simple values is turned to without a name
            apply inductionHypothesis value member _ _ reached.anonymousArray
            intro _
            rw [lastOf_concat]
            rfl
          · rename_i notSimple
            apply inductionHypothesis value member _ _ reached
            intro isSimple
            exact absurd isSimple notSimple
  | @object members distinct each inductionHypothesis =>
      intro key marks goesOn _
      rw [walk]
      split
      · exact yields_of_spelled (goesOn.checking (.object distinct each))
      · split
        · exact yields_of_spelled goesOn.isEmpty
        · exact yields_members textSpells each inductionHypothesis goesOn

theorem textSpells_walkText (depth : Nat) : TextSpells (walkText false depth) := by
  induction depth with
  | zero =>
      intro key marks members _ _
      rw [walkText]
      exact yields_nil
  | succ depth inductionHypothesis =>
      intro key marks members goesOn canonical
      rw [walkText]
      split
      · exact yields_of_spelled goesOn.isEmpty
      · cases canonical with
        | object _ each =>
            apply yields_members inductionHypothesis each _ goesOn
            intro member isIn
            exact walkSpells_of_isCanonical inductionHypothesis (each member isIn)

end Walk

end Chains

end BodyContract
