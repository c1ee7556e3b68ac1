import BodyContract.Proofs.Chain.Steps

/-!
# Chains in order go apart

In order the chains for different members go to different names, those for the
elements of an array go to different positions, and a value that is both looked
for and checked is looked for among elements first.  So no two chains that are
recorded for a body have the same words.
-/

namespace BodyContract

namespace Chains

open Recorder

/-- Whether chains are recorded that go on from a chain by certain words, no two
by the same. -/
def Branches (key : Recorder) (begins : List Word → Prop)
    (recorded : Except AssertionError (List Recorder)) : Prop :=
  ∃ chains, recorded = .ok chains ∧ (chains.map Recorder.methods).Nodup ∧
    ∀ chain ∈ chains, ∃ words, begins words ∧ chain.methods = key.methods ++ words.map Word.text

section Branches

variable {key next : Recorder} {begins others : List Word → Prop}
  {recorded : Except AssertionError (List Recorder)}

theorem Branches.mono (branches : Branches key begins recorded)
    (weaker : ∀ words, begins words → others words) : Branches key others recorded := by
  obtain ⟨chains, made, distinct, written⟩ := branches
  refine ⟨chains, made, distinct, ?_⟩
  intro chain member
  obtain ⟨words, isBegun, same⟩ := written chain member
  exact ⟨words, weaker words isBegun, same⟩

theorem branches_nil : Branches key begins (.ok []) :=
  ⟨[], rfl, List.nodup_nil, fun _ member => absurd member List.not_mem_nil⟩

theorem branches_singleton {chain : Recorder} {words : List Word} {calls : List Call}
    (adds : chain.Adds key words calls) (isBegun : begins words) :
    Branches key begins (.ok [chain]) := by
  refine ⟨[chain], rfl, List.nodup_singleton _, ?_⟩
  intro other member
  rw [List.mem_singleton.mp member]
  exact ⟨words, isBegun, adds.methods_eq⟩

/-- Chains that go on by different words stand side by side. -/
theorem Branches.append {first second : Except AssertionError (List Recorder)}
    (left : Branches key begins first) (right : Branches key others second)
    (apart : ∀ words, begins words → ¬ others words) :
    Branches key (fun words => begins words ∨ others words) (do
      let front ← first
      let back ← second
      .ok (front ++ back)) := by
  obtain ⟨front, rfl, frontDistinct, frontWritten⟩ := left
  obtain ⟨back, rfl, backDistinct, backWritten⟩ := right
  refine ⟨front ++ back, rfl, ?_, ?_⟩
  · rw [List.map_append, List.nodup_append]
    refine ⟨frontDistinct, backDistinct, ?_⟩
    intro text isFront other isBack same
    obtain ⟨chain, member, rfl⟩ := List.mem_map.mp isFront
    obtain ⟨twin, twinMember, rfl⟩ := List.mem_map.mp isBack
    obtain ⟨words, isBegun, written⟩ := frontWritten chain member
    obtain ⟨twinWords, twinBegun, twinWritten⟩ := backWritten twin twinMember
    -- behind the same chain, equal texts are equal words
    rw [written, twinWritten] at same
    have equal := List.map_injective_iff.mpr Word.text_injective (List.append_cancel_left same)
    rw [equal] at isBegun
    exact apart twinWords isBegun twinBegun
  · intro chain member
    rcases List.mem_append.mp member with isFront | isBack
    · obtain ⟨words, isBegun, written⟩ := frontWritten chain isFront
      exact ⟨words, Or.inl isBegun, written⟩
    · obtain ⟨words, isBegun, written⟩ := backWritten chain isBack
      exact ⟨words, Or.inr isBegun, written⟩

/-- What branches behind a step branches in front of it. -/
theorem Branches.behind {front : List Word} {calls : List Call}
    (branches : Branches next begins recorded) (adds : next.Adds key front calls)
    (isBegun : ∀ words, begins words → others (front ++ words)) : Branches key others recorded := by
  obtain ⟨chains, made, distinct, written⟩ := branches
  refine ⟨chains, made, distinct, ?_⟩
  intro chain member
  obtain ⟨words, begun, same⟩ := written chain member
  refine ⟨front ++ words, isBegun words begun, ?_⟩
  rw [same, adds.methods_eq, List.map_append, List.append_assoc]

theorem branches_self : Branches key (fun _ => True) (.ok [key]) := by
  refine ⟨[key], rfl, List.nodup_singleton _, ?_⟩
  intro other member
  rw [List.mem_singleton.mp member]
  exact ⟨[], trivial, (List.append_nil _).symm⟩

end Branches

/-! ## Checks -/

/-- A chain that can check the value that it leads to. -/
structure CanCheck (key : Recorder) : Prop where
  lenient : key.delegate.isStrict = false
  away : key.isFinished = false → key.delegate.isAssertingArrayValue = false

section Checks

variable {key : Recorder}

theorem canCheck_of_finished (lenient : key.delegate.isStrict = false)
    (finished : key.isFinished = true) : CanCheck key := by
  refine ⟨lenient, ?_⟩
  intro unfinished
  rw [finished] at unfinished
  cases unfinished

theorem checkMark_first_ne_arrayField (isElement : Bool) (value : Json) :
    (checkMark isElement value).first ≠ .arrayField := by
  intro same
  have name := congrArg Word.name same
  rw [checkMark] at name
  cases marked : Placeholder.markedPattern? value with
  | some pattern =>
      rw [marked] at name
      exact absurd name (by simp [Mark.first])
  | none =>
      rw [marked] at name
      cases value with
      | bool holds => cases isElement <;> exact absurd name (by simp [equalityMark, Mark.first])
      | _ => exact absurd name (by simp [equalityMark, Mark.first])

/-- A check goes on by no words or by those of the value, and never by those for
elements. -/
theorem checking_written (canCheck : CanCheck key) (value : Json) :
    ∃ chain words calls, key.checking value = .ok chain ∧ chain.Adds key words calls ∧
      CanCheck chain ∧ ∀ more, words ≠ .arrayField :: more := by
  by_cases finished : key.isFinished = true
  · refine ⟨key, [], [], checking_of_finished finished value, ?_, canCheck, ?_⟩
    · exact ⟨(List.append_nil _).symm, (List.append_nil _).symm, rfl, rfl⟩
    · intro more same
      cases same
  · have unfinished := Bool.eq_false_of_not_eq_true finished
    obtain ⟨chain, made, checks⟩ := checking_checks canCheck.lenient (canCheck.away unfinished)
      (fun impossible => absurd impossible Bool.false_ne_true) unfinished value
    have lenient := checks.adds.isStrict_eq.trans canCheck.lenient
    refine ⟨chain, _, _, made, checks.adds, canCheck_of_finished lenient checks.finished, ?_⟩
    intro more same
    injection same with first _
    exact checkMark_first_ne_arrayField false value first

theorem branches_checking (canCheck : CanCheck key) (value : Json) :
    Branches key (fun _ => True) (do .ok [← key.checking value]) := by
  obtain ⟨chain, words, calls, made, adds, -, -⟩ := checking_written canCheck value
  rw [made]
  exact branches_singleton adds trivial

theorem branches_isEmpty (lenient : key.delegate.isStrict = false) :
    Branches key (fun _ => True) (do .ok [← key.isEmpty]) := by
  obtain ⟨chain, made, adds⟩ := isEmpty_adds lenient
  rw [made]
  exact branches_singleton adds trivial

theorem branches_leaf_null (canCheck : CanCheck key) :
    Branches key (fun _ => True) (key.leaf .null) := branches_checking canCheck .null

/-- Looking for a value and checking it are told apart by their first words. -/
theorem branches_leaf (canCheck : CanCheck key) (value : Scalar) :
    Branches key (fun _ => True) (key.leaf value.toJson) := by
  obtain ⟨checked, words, calls, made, adds, -, notElements⟩ :=
    checking_written canCheck value.toJson
  obtain ⟨contained, asked, containedAdds⟩ := contains_adds canCheck.lenient value
  rcases leaf_eq made with alone | both
  · rw [alone]
    exact branches_singleton adds trivial
  · rw [both contained asked]
    have looked : Branches key (fun words => ∃ more, words = .arrayField :: more)
        (.ok [contained]) := branches_singleton containedAdds ⟨_, rfl⟩
    have tested : Branches key (fun words => ∀ more, words ≠ .arrayField :: more)
        (.ok [checked]) := branches_singleton adds notElements
    have apart := looked.append tested fun words ⟨more, same⟩ others => others more same
    exact apart.mono fun _ _ => trivial

end Checks

/-! ## Members and elements -/

/-- Whether the members of an object in a text yield chains that go apart. -/
def TextBranches (inText : TextWalk) : Prop :=
  ∀ key members, CanCheck key → (Json.object members).IsCanonical →
    Branches key (fun _ => True) (inText key members)

/-- Whether the chains for a value go apart, wherever it is walked. -/
def WalkBranches (inText : TextWalk) (value : Json) : Prop :=
  ∀ key : Recorder, key.delegate.isStrict = false → (value.isSimpleArray = false → CanCheck key) →
    Branches key (fun _ => True) (walk inText true key value)

section Walk

variable {inText : TextWalk} {key : Recorder}

/-- Whether words go to the member of a name. -/
def GoTo (style : NameStyle) (name : String) (words : List Word) : Prop :=
  ∃ word more, words = word :: more ∧ word.argument = quoteOnly (style.wrap name)

theorem GoTo.eq_name {style : NameStyle} {left right : String} {words : List Word}
    (toLeft : GoTo style left words) (toRight : GoTo style right words) : left = right := by
  obtain ⟨word, more, rfl, isLeft⟩ := toLeft
  obtain ⟨other, others, same, isRight⟩ := toRight
  injection same with equal _
  rw [equal, isRight] at isLeft
  exact (wrap_injective style (quoteOnly_injective isLeft)).symm

theorem branches_entry (lenient : key.delegate.isStrict = false) {name : String} {value : Json}
    (walks : WalkBranches inText value) : ∃ entry, key.entry name value = .ok entry ∧
      Branches key (GoTo key.style name) (walk inText true entry value) := by
  cases value with
  | array elements =>
      cases elements with
      | nil =>
          have reached : (key.array name).delegate.isStrict = false := lenient
          obtain ⟨chain, made, adds⟩ := isEmpty_adds reached
          refine ⟨chain, made, ?_⟩
          rw [walk]
          exact branches_self.behind (adds.trans (adds_array key name)) fun _ _ => ⟨_, _, rfl, rfl⟩
      | cons first rest =>
          by_cases simple : Json.areSimple (first :: rest) = true
          · refine ⟨key.arrayFieldNamed name, by simp [entry, simple], ?_⟩
            have chains := walks (key.arrayFieldNamed name) lenient fun notSimple =>
              absurd (simple.symm.trans notSimple) Bool.noConfusion
            exact chains.behind (adds_arrayFieldNamed key name) fun _ _ => ⟨_, _, rfl, rfl⟩
          · refine ⟨key.array name, by simp [entry, simple], ?_⟩
            have chains := walks (key.array name) lenient fun _ => ⟨lenient, fun _ => rfl⟩
            exact chains.behind (adds_array key name) fun _ _ => ⟨_, _, rfl, rfl⟩
  | _ =>
      refine ⟨key.traverseField name, rfl, ?_⟩
      have chains := walks (key.traverseField name) lenient fun _ => ⟨lenient, fun _ => rfl⟩
      exact chains.behind (adds_traverseField key name) fun _ _ => ⟨_, _, rfl, rfl⟩

theorem branches_walkMembers (lenient : key.delegate.isStrict = false)
    {members : List (String × Json)} (distinct : (members.map (·.1)).Nodup)
    (walks : ∀ member ∈ members, WalkBranches inText member.2) :
    Branches key (fun words => ∃ name ∈ members.map (·.1), GoTo key.style name words)
      (walkMembers inText true key members) := by
  induction members with
  | nil =>
      rw [walkMembers]
      exact branches_nil
  | cons first rest inductionHypothesis =>
      obtain ⟨name, value⟩ := first
      rw [List.map_cons, List.nodup_cons] at distinct
      obtain ⟨entry, entered, chains⟩ :=
        branches_entry lenient (walks (name, value) List.mem_cons_self)
      have others := inductionHypothesis distinct.2 fun member isIn =>
        walks member (List.mem_cons_of_mem _ isIn)
      -- the names are distinct, so no later member is gone to by the same word
      have apart := chains.append others (by
        intro words toName toOther
        obtain ⟨other, isOther, goes⟩ := toOther
        have same : name = other := toName.eq_name goes
        rw [← same] at isOther
        exact distinct.1 isOther)
      rw [walkMembers, entered]
      apply apart.mono
      intro words goes
      rcases goes with toName | toOther
      · exact ⟨name, List.mem_cons_self, toName⟩
      · obtain ⟨other, isOther, goes⟩ := toOther
        exact ⟨other, List.mem_cons_of_mem _ isOther, goes⟩

/-- Whether words go to an element from a position on. -/
def GoFrom (position : Nat) (words : List Word) : Prop :=
  ∃ index more, words = .elementWithIndex index :: more ∧ position ≤ index

/-- Chains for the element at a position stand beside those for later ones. -/
theorem Branches.append_later {position : Nat}
    {first second : Except AssertionError (List Recorder)}
    (left : Branches key (fun words => ∃ more, words = .elementWithIndex position :: more) first)
    (right : Branches key (GoFrom (position + 1)) second) :
    Branches key (GoFrom position) (do
      let front ← first
      let back ← second
      .ok (front ++ back)) := by
  have apart := left.append right (by
    intro words isHere isLater
    obtain ⟨more, rfl⟩ := isHere
    obtain ⟨index, others, same, later⟩ := isLater
    injection same with equal _
    rw [Word.elementWithIndex_injective equal] at later
    exact absurd later (Nat.not_succ_le_self index))
  apply apart.mono
  intro words goes
  rcases goes with isHere | isLater
  · obtain ⟨more, same⟩ := isHere
    exact ⟨position, more, same, Nat.le_refl position⟩
  · obtain ⟨index, more, same, later⟩ := isLater
    exact ⟨index, more, same, Nat.le_of_succ_le later⟩

theorem canCheck_elementWithIndex (lenient : key.delegate.isStrict = false) (position : Nat) :
    CanCheck (key.elementWithIndex position) := ⟨lenient, fun _ => rfl⟩

theorem branches_walkPositions (lenient : key.delegate.isStrict = false) {elements : List Json}
    (walks : ∀ element ∈ elements, WalkBranches inText element) (position : Nat) :
    Branches key (GoFrom position) (walkPositions inText true key position elements) := by
  induction elements generalizing position with
  | nil =>
      rw [walkPositions]
      exact branches_nil
  | cons value rest inductionHypothesis =>
      have others := inductionHypothesis (fun element member =>
        walks element (List.mem_cons_of_mem _ member)) (position + 1)
      rw [walkPositions]
      apply Branches.append_later _ others
      have indexed := adds_elementWithIndex key position
      rw [element]
      split
      · have chains := walks value List.mem_cons_self (key.elementWithIndex position).anonymousArray
          lenient fun _ => ⟨lenient, fun _ => rfl⟩
        exact chains.behind ((adds_anonymousArray _).trans indexed) fun words _ => ⟨_, rfl⟩
      · have chains := walks value List.mem_cons_self (key.elementWithIndex position) lenient
          fun _ => canCheck_elementWithIndex lenient position
        exact chains.behind indexed fun words _ => ⟨_, rfl⟩

theorem branches_walk_simple (textBranches : TextBranches inText) (canCheck : CanCheck key)
    {value : Json} (canonical : value.IsCanonical) (simple : value.isSimple = true) :
    Branches key (fun _ => True) (walk inText true key value) := by
  cases canonical with
  | null =>
      simp only [walk]
      exact branches_leaf_null canCheck
  | bool holds =>
      simp only [walk]
      exact branches_leaf canCheck (.flag holds)
  | @number amount _ =>
      simp only [walk]
      exact branches_leaf canCheck (.number amount)
  | string content =>
      rw [walk]
      split
      · exact branches_leaf canCheck (.text content)
      · split
        · rename_i members isObject
          exact textBranches key members canCheck (Json.isCanonical_of_membersInText? isObject)
        · exact branches_checking canCheck (.string content)
  | array each => cases simple
  | object distinct each =>
      simp only [Json.isSimple] at simple
      rw [walk, if_pos simple]
      exact branches_checking canCheck (.object _)

theorem branches_walkSimple (textBranches : TextBranches inText)
    (lenient : key.delegate.isStrict = false) {elements : List Json}
    (each : ∀ element ∈ elements, element.IsCanonical)
    (simple : ∀ element ∈ elements, element.isSimple = true) (position : Nat) :
    Branches key (GoFrom position) (walkSimple inText true key position elements) := by
  induction elements generalizing position with
  | nil =>
      rw [walkSimple]
      exact branches_nil
  | cons value rest inductionHypothesis =>
      have others := inductionHypothesis
        (fun element member => each element (List.mem_cons_of_mem _ member))
        (fun element member => simple element (List.mem_cons_of_mem _ member)) (position + 1)
      obtain ⟨checked, words, calls, made, adds, canCheck, -⟩ :=
        checking_written (canCheck_elementWithIndex lenient position) value
      have chains := branches_walk_simple textBranches canCheck (each value List.mem_cons_self)
        (simple value List.mem_cons_self)
      -- what the check and the walk write stands behind the position
      rw [walkSimple, simpleElement, if_pos rfl, made]
      apply Branches.append_later _ others
      apply chains.behind (adds.trans (adds_elementWithIndex key position))
      exact fun words _ => ⟨_, rfl⟩

/-- The check of a size begins with a word of its own. -/
theorem branches_sizeCheck (lenient : key.delegate.isStrict = false) (size : Nat) :
    Branches key (fun words => ∃ number, words = [.hasSize number]) (key.sizeCheck true size) := by
  rw [sizeCheck]
  split
  · obtain ⟨chain, made, adds⟩ := hasSize_adds lenient size
    rw [made]
    exact branches_singleton adds ⟨size, rfl⟩
  · exact branches_nil

theorem branches_walk_areSimple (textBranches : TextBranches inText)
    (lenient : key.delegate.isStrict = false) {elements : List Json}
    (each : ∀ element ∈ elements, element.IsCanonical) (simple : Json.areSimple elements = true) :
    Branches key (fun _ => True) (walk inText true key (.array elements)) := by
  have parts := simple
  rw [Json.areSimple, Bool.and_eq_true, Bool.not_eq_true', List.all_eq_true] at parts
  have checks := branches_walkSimple textBranches lenient each parts.2 0
  have apart := (branches_sizeCheck lenient elements.length).append checks (by
    intro words isSize goes
    obtain ⟨number, rfl⟩ := isSize
    obtain ⟨index, more, same, -⟩ := goes
    injection same with equal _
    exact absurd (congrArg Word.name equal) (by simp))
  rw [walk, parts.1, if_neg Bool.false_ne_true, if_pos simple]
  exact apart.mono fun _ _ => trivial

/-- The chains that are recorded in order go apart. -/
theorem walkBranches_of_isCanonical (textBranches : TextBranches inText) {value : Json}
    (canonical : value.IsCanonical) : WalkBranches inText value := by
  induction canonical with
  | null =>
      intro key _ canCheck
      simp only [walk]
      exact branches_leaf_null (canCheck rfl)
  | bool holds =>
      intro key _ canCheck
      exact branches_walk_simple textBranches (canCheck rfl) (.bool holds) rfl
  | number canonical =>
      intro key _ canCheck
      exact branches_walk_simple textBranches (canCheck rfl) (.number canonical) rfl
  | string content =>
      intro key _ canCheck
      exact branches_walk_simple textBranches (canCheck rfl) (.string content) rfl
  | @array elements each inductionHypothesis =>
      intro key lenient _
      by_cases simple : Json.areSimple elements = true
      · exact branches_walk_areSimple textBranches lenient each simple
      · rw [walk]
        split
        · exact branches_self
        · rw [if_pos rfl]
          exact (branches_walkPositions lenient inductionHypothesis 0).mono fun _ _ => trivial
  | @object members distinct each inductionHypothesis =>
      intro key lenient canCheck
      rw [walk]
      split
      · exact branches_checking (canCheck rfl) (.object members)
      · split
        · exact branches_isEmpty lenient
        · exact (branches_walkMembers lenient distinct inductionHypothesis).mono fun _ _ => trivial

theorem textBranches_walkText (depth : Nat) : TextBranches (walkText true depth) := by
  induction depth with
  | zero =>
      intro key members _ _
      rw [walkText]
      exact branches_nil
  | succ depth inductionHypothesis =>
      intro key members canCheck canonical
      rw [walkText]
      split
      · exact branches_isEmpty canCheck.lenient
      · cases canonical with
        | object distinct each =>
            have walks : ∀ member ∈ members, WalkBranches (walkText true depth) member.2 :=
              fun member isIn => walkBranches_of_isCanonical inductionHypothesis (each member isIn)
            exact (branches_walkMembers canCheck.lenient distinct walks).mono fun _ _ => trivial

end Walk

end Chains

end BodyContract
