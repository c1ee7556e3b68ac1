import BodyContract.Proofs.Chain.Plain
import BodyContract.Proofs.Outcome
import BodyContract.Proofs.Recording.Checks

/-!
# Walking a body

The chains of a body hold if each of them does, and none is kept that has not
been recorded.  A property of all recorded chains can therefore be followed
through the walk: it holds for the chains of an object or an array if it holds
for those of every member or element.
-/

namespace BodyContract

namespace Recorder

variable {key : Recorder}

theorem checking_of_finished (finished : key.isFinished = true) (value : Json) :
    key.checking value = .ok key := by
  rw [checking, if_pos finished]

/-- A chain with a check stays as it is. -/
theorem leaf_of_checked (finished : key.isFinished = true) (focus : key.delegate.focus = .checked)
    (value : Json) : key.leaf value = .ok [key] := by
  have notIterating : key.delegate.isIterating = false := by
    rw [Asserter.isIterating, focus]
  rw [leaf, checking_of_finished finished value]
  cases value <;> simp [notIterating, bind, Except.bind]

end Recorder

namespace Chains

open Recorder

/-- Chains hold one by one. -/
theorem verifyAll_ok_iff (body : Json) (chains : List Recorder) :
    verifyAll body chains = .ok () ↔ ∀ chain ∈ chains, chain.Holds body := by
  induction chains with
  | nil => simp [verifyAll]
  | cons chain rest inductionHypothesis =>
      rw [verifyAll, bind_eq_ok_iff, List.forall_mem_cons, inductionHypothesis]
      constructor
      · rintro ⟨asserter, replayed, others⟩
        exact ⟨⟨asserter, replayed⟩, others⟩
      · rintro ⟨⟨asserter, replayed⟩, others⟩
        exact ⟨asserter, replayed, others⟩

theorem mem_toList_add {chains : Chains} {chain other : Recorder}
    (member : other ∈ (chains.add chain).toList) : other ∈ chains.toList ∨ other = chain := by
  rw [add] at member
  split at member
  · exact Or.inl member
  · rcases List.mem_append.mp member with old | new
    · exact Or.inl old
    · exact Or.inr (List.mem_singleton.mp new)

theorem mem_toList_foldl_add {recorded : List Recorder} {chains : Chains} {chain : Recorder}
    (member : chain ∈ (recorded.foldl add chains).toList) :
    chain ∈ chains.toList ∨ chain ∈ recorded := by
  induction recorded generalizing chains with
  | nil => exact Or.inl member
  | cons first rest inductionHypothesis =>
      rcases inductionHypothesis member with started | later
      · rcases mem_toList_add started with old | rfl
        · exact Or.inl old
        · exact Or.inr List.mem_cons_self
      · exact Or.inr (List.mem_cons_of_mem first later)

/-- A chain that is kept has been recorded. -/
theorem mem_of_mem_ofList {recorded : List Recorder} {chain : Recorder}
    (member : chain ∈ (ofList recorded).toList) : chain ∈ recorded := by
  rcases mem_toList_foldl_add member with impossible | isRecorded
  · exact absurd impossible List.not_mem_nil
  · exact isRecorded

theorem verify_ofList {recorded : List Recorder} {body : Json}
    (holds : ∀ chain ∈ recorded, chain.Holds body) : (ofList recorded).verify body = .ok () :=
  (verifyAll_ok_iff body _).mpr fun chain member => holds chain (mem_of_mem_ofList member)

/-! ## Properties of all recorded chains -/

/-- Whether chains are recorded that all have a property. -/
def Yields (property : Recorder → Prop) (recorded : Except AssertionError (List Recorder)) : Prop :=
  ∃ chains, recorded = .ok chains ∧ ∀ chain ∈ chains, property chain

section Yields

variable {property : Recorder → Prop}

theorem yields_nil : Yields property (.ok []) :=
  ⟨[], rfl, fun _ member => absurd member List.not_mem_nil⟩

theorem yields_singleton {chain : Recorder} (has : property chain) :
    Yields property (.ok [chain]) := by
  refine ⟨[chain], rfl, ?_⟩
  intro other member
  rw [List.mem_singleton] at member
  rw [member]
  exact has

theorem Yields.append {first second : Except AssertionError (List Recorder)}
    (left : Yields property first) (right : Yields property second) :
    Yields property (do
      let front ← first
      let back ← second
      .ok (front ++ back)) := by
  obtain ⟨front, rfl, frontHas⟩ := left
  obtain ⟨back, rfl, backHas⟩ := right
  refine ⟨front ++ back, rfl, ?_⟩
  intro chain member
  rcases List.mem_append.mp member with isFront | isBack
  · exact frontHas chain isFront
  · exact backHas chain isBack

theorem Yields.mono {weaker : Recorder → Prop} {recorded : Except AssertionError (List Recorder)}
    (yields : Yields property recorded) (implies : ∀ chain, property chain → weaker chain) :
    Yields weaker recorded := by
  obtain ⟨chains, made, has⟩ := yields
  exact ⟨chains, made, fun chain member => implies chain (has chain member)⟩

variable {inText : TextWalk} {isOrdered : Bool} {key : Recorder}

theorem yields_walkMembers {members : List (String × Json)}
    (each : ∀ member ∈ members, ∃ entry, key.entry member.1 member.2 = .ok entry ∧
      Yields property (walk inText isOrdered entry member.2)) :
    Yields property (walkMembers inText isOrdered key members) := by
  induction members with
  | nil =>
      rw [walkMembers]
      exact yields_nil
  | cons first rest inductionHypothesis =>
      obtain ⟨name, value⟩ := first
      obtain ⟨entry, entered, chains⟩ := each (name, value) List.mem_cons_self
      have others := inductionHypothesis fun member isIn =>
        each member (List.mem_cons_of_mem _ isIn)
      rw [walkMembers, entered]
      exact chains.append others

/-- Going to a member: an empty array is checked where it is, and the chain for
any other value depends on its kind. -/
theorem yields_entry {name : String} {value : Json}
    (empty : value = .array [] → ∃ chain, (key.array name).isEmpty = .ok chain ∧ property chain)
    (simple : ∀ elements, value = .array elements → Json.areSimple elements = true →
      Yields property (walk inText isOrdered (key.arrayFieldNamed name) value))
    (array : ∀ elements, value = .array elements → Json.areSimple elements = false →
      elements ≠ [] → Yields property (walk inText isOrdered (key.array name) value))
    (other : value.isArray = false →
      Yields property (walk inText isOrdered (key.traverseField name) value)) :
    ∃ entry, key.entry name value = .ok entry ∧
      Yields property (walk inText isOrdered entry value) := by
  cases value with
  | array elements =>
      cases elements with
      | nil =>
          obtain ⟨chain, made, has⟩ := empty rfl
          refine ⟨chain, made, ?_⟩
          rw [walk]
          exact yields_singleton has
      | cons first rest =>
          cases kind : Json.areSimple (first :: rest) with
          | true =>
              exact ⟨_, by simp [entry, kind], simple _ rfl kind⟩
          | false =>
              exact ⟨_, by simp [entry, kind], array _ rfl kind (List.cons_ne_nil _ _)⟩
  | null => exact ⟨_, rfl, other rfl⟩
  | bool flag => exact ⟨_, rfl, other rfl⟩
  | number number => exact ⟨_, rfl, other rfl⟩
  | string text => exact ⟨_, rfl, other rfl⟩
  | object members => exact ⟨_, rfl, other rfl⟩

theorem yields_walkElements {elements : List Json}
    (each : ∀ value ∈ elements, Yields property (walk inText isOrdered (key.element value) value)) :
    Yields property (walkElements inText isOrdered key elements) := by
  induction elements with
  | nil =>
      rw [walkElements]
      exact yields_nil
  | cons value rest inductionHypothesis =>
      have others := inductionHypothesis fun other isIn => each other (List.mem_cons_of_mem _ isIn)
      rw [walkElements]
      exact (each value List.mem_cons_self).append others

theorem yields_walkPositions {elements : List Json} {position : Nat}
    (each : ∀ index value, elements[index]? = some value → Yields property
      (walk inText isOrdered ((key.elementWithIndex (position + index)).element value) value)) :
    Yields property (walkPositions inText isOrdered key position elements) := by
  induction elements generalizing position with
  | nil =>
      rw [walkPositions]
      exact yields_nil
  | cons value rest inductionHypothesis =>
      have others : Yields property (walkPositions inText isOrdered key (position + 1) rest) := by
        refine inductionHypothesis fun index other isThere => ?_
        have later := each (index + 1) other (by rw [List.getElem?_cons_succ]; exact isThere)
        rw [← Nat.add_assoc, Nat.add_right_comm] at later
        exact later
      rw [walkPositions]
      exact (each 0 value rfl).append others

theorem yields_walkSimple {elements : List Json} {position : Nat}
    (each : ∀ index value, elements[index]? = some value → ∃ checked,
      (key.simpleElement isOrdered (position + index)).checking value = .ok checked ∧
        Yields property (walk inText isOrdered checked value)) :
    Yields property (walkSimple inText isOrdered key position elements) := by
  induction elements generalizing position with
  | nil =>
      rw [walkSimple]
      exact yields_nil
  | cons value rest inductionHypothesis =>
      have others : Yields property (walkSimple inText isOrdered key (position + 1) rest) := by
        refine inductionHypothesis fun index other isThere => ?_
        have later := each (index + 1) other (by rw [List.getElem?_cons_succ]; exact isThere)
        rw [← Nat.add_assoc, Nat.add_right_comm] at later
        exact later
      obtain ⟨checked, made, chains⟩ := each 0 value rfl
      rw [Nat.add_zero] at made
      rw [walkSimple, made]
      exact chains.append others

end Yields

theorem documentOf_of_isContainer {body : Json} (container : body.isContainer = true) :
    documentOf body = body := by
  cases body <;> first | rfl | cases container

theorem isEmptyValue_of_isBlankBody {body : Json} (container : body.isContainer = true)
    (blank : body.isBlankBody = true) : Asserter.isEmptyValue body = true := by
  cases body <;> first | exact blank | cases container

/-- A body satisfies its chains if all chains that are recorded for it hold.  A
body with nothing inside has none, or is empty. -/
theorem verify_self_of_yields {options : ChainOptions} (bracketed : options.style = .bracketed)
    {body : Json} (container : body.isContainer = true)
    (yields : Yields (fun chain => chain.Holds body) (recorded options body)) :
    ∃ chains, ofBody options body = .ok chains ∧ chains.verify body = .ok () := by
  have notNull : body ≠ .null := by
    rintro rfl
    cases container
  rw [ofBody.eq_def]
  split
  · exact absurd rfl notNull
  · rw [documentOf_of_isContainer container]
    by_cases blank : body.isBlankBody = true
    · simp only [blank, Bool.not_true, if_neg Bool.false_ne_true]
      split
      · obtain ⟨chain, made, ends⟩ := isEmpty_ends (stands_root body).lenient
        rw [bracketed, made]
        refine ⟨_, rfl, verify_ofList ?_⟩
        intro other member
        rw [List.mem_singleton] at member
        rw [member, ends.isEmpty_holds_iff (stands_root body)]
        intro value isThere
        rw [List.flatten_nil, follow_nil, List.mem_singleton] at isThere
        rw [isThere]
        exact isEmptyValue_of_isBlankBody container blank
      · exact ⟨empty, rfl, rfl⟩
    · obtain ⟨recorded, made, holds⟩ := yields
      simp only [blank, Bool.not_false, if_true, made]
      exact ⟨_, rfl, verify_ofList holds⟩

end Chains

end BodyContract
