import BodyContract.Proofs.Chain.Deduplication
import BodyContract.Proofs.Chain.Scalars

/-!
# What recorded chains demand

Chains that are recorded one behind another hold together in exactly those
documents in which both parts do.  What all chains of a body demand can
therefore be put together along the walk, and since no two chains that are
recorded in order have the same text, a document satisfies the chains that are
kept exactly if it meets what all recorded ones demand.
-/

namespace BodyContract

namespace Json

theorem Plain.isCanonical {names : String → Prop} {value : Json}
    (plain : value.Plain names Number.IsWhole) : value.IsCanonical := by
  induction plain with
  | null => exact .null
  | bool flag => exact .bool flag
  | @number number whole =>
      cases number with
      | int value => exact .number trivial
      | float value => exact absurd whole id
  | string _ => exact .string _
  | array _ _ inductionHypothesis => exact .array inductionHypothesis
  | object _ distinct _ _ inductionHypothesis => exact .object distinct inductionHypothesis

end Json

namespace Chains

open Recorder

/-- Whether chains are recorded that all hold in exactly the documents that meet
a condition. -/
def Demands (recorded : Except AssertionError (List Recorder)) (condition : Json → Prop) : Prop :=
  ∃ chains, recorded = .ok chains ∧
    ∀ document, (∀ chain ∈ chains, chain.Holds document) ↔ condition document

theorem demands_nil : Demands (.ok []) fun _ => True :=
  ⟨[], rfl, fun _ => by simp⟩

theorem demands_singleton {chain : Recorder} {condition : Json → Prop}
    (holds : ∀ document, chain.Holds document ↔ condition document) :
    Demands (.ok [chain]) condition := by
  refine ⟨[chain], rfl, fun document => ?_⟩
  rw [← holds document]
  simp

theorem Demands.congr {recorded : Except AssertionError (List Recorder)}
    {condition other : Json → Prop} (demands : Demands recorded condition)
    (same : ∀ document, condition document ↔ other document) : Demands recorded other := by
  obtain ⟨chains, made, holds⟩ := demands
  exact ⟨chains, made, fun document => (holds document).trans (same document)⟩

theorem Demands.append {first second : Except AssertionError (List Recorder)}
    {left right : Json → Prop} (front : Demands first left) (back : Demands second right) :
    Demands (do
      let chains ← first
      let others ← second
      .ok (chains ++ others)) fun document => left document ∧ right document := by
  obtain ⟨chains, rfl, holds⟩ := front
  obtain ⟨others, rfl, othersHold⟩ := back
  refine ⟨chains ++ others, rfl, fun document => ?_⟩
  rw [List.forall_mem_append, holds document, othersHold document]

variable {inText : TextWalk} {isOrdered : Bool} {key : Recorder}

theorem walk_members {members : List (String × Json)}
    (notMarker : (Json.object members).isMarker = false) (filled : members ≠ []) :
    walk inText isOrdered key (.object members) = walkMembers inText isOrdered key members := by
  rw [walk, notMarker, if_neg Bool.false_ne_true, if_neg]
  rw [List.isEmpty_iff]
  exact filled

/-- A filled object is walked from the root. -/
theorem emitted_members {options : ChainOptions} {members : List (String × Json)}
    (notMarker : (Json.object members).isMarker = false) (filled : members ≠ []) :
    emitted options (.object members) =
      walkMembers (walkText options.isOrdered (Json.object members).chars.length)
        options.isOrdered (root options (.object members)) members := by
  have notBlank : (Json.object members).isBlankBody = false :=
    List.isEmpty_eq_false_iff.mpr filled
  rw [emitted_of_ne_null Json.noConfusion, notBlank]
  exact walk_members notMarker filled

/-- What the chains of simple elements demand from a position on. -/
theorem demands_walkSimple {elements : List Json} {position : Nat}
    {condition : Nat → Json → Json → Prop}
    (each : ∀ index value, elements[index]? = some value → ∃ checked,
      (key.simpleElement isOrdered (position + index)).checking value = .ok checked ∧
        Demands (walk inText isOrdered checked value) (condition (position + index) value)) :
    Demands (walkSimple inText isOrdered key position elements) fun document =>
      ∀ index value, elements[index]? = some value → condition (position + index) value document := by
  induction elements generalizing position with
  | nil =>
      rw [walkSimple]
      apply demands_nil.congr
      intro document
      simp
  | cons value rest inductionHypothesis =>
      obtain ⟨checked, made, front⟩ := each 0 value rfl
      have back : Demands (walkSimple inText isOrdered key (position + 1) rest) fun document =>
          ∀ index value, rest[index]? = some value →
            condition (position + 1 + index) value document := by
        apply inductionHypothesis
        intro index other isThere
        have later := each (index + 1) other (by rw [List.getElem?_cons_succ]; exact isThere)
        rw [← Nat.add_assoc, Nat.add_right_comm] at later
        exact later
      rw [Nat.add_zero] at made front
      rw [walkSimple, made]
      apply (front.append back).congr
      intro document
      constructor
      · intro both index other isThere
        cases index with
        | zero =>
            rw [List.getElem?_cons_zero, Option.some_inj] at isThere
            rw [← isThere]
            exact both.1
        | succ index =>
            rw [List.getElem?_cons_succ] at isThere
            rw [← Nat.add_assoc, Nat.add_right_comm]
            exact both.2 index other isThere
      · intro all
        refine ⟨all 0 value rfl, fun index other isThere => ?_⟩
        have later := all (index + 1) other (by rw [List.getElem?_cons_succ]; exact isThere)
        rw [← Nat.add_assoc, Nat.add_right_comm] at later
        exact later

/-- The chains of an element that is checked before it is walked demand what its
check does. -/
theorem demands_checked {pieces : List (List Hop)} {value : Json} {names : String → Prop}
    {numbers : Number → Prop} (stands : key.Stands pieces) (plain : value.Plain names numbers)
    (scalar : value.isContainer = false) {condition : Json → Prop}
    (holds : ∀ chain : Recorder, chain.Ends key [equalityCall value] →
      ∀ document, chain.Holds document ↔ condition document) :
    ∃ checked, key.checking value = .ok checked ∧
      Demands (walk inText isOrdered checked value) condition := by
  obtain ⟨checked, made, ends⟩ := stands.checking plain scalar
  refine ⟨checked, made, ?_⟩
  rw [walk_finished ends.finished ends.focus plain scalar]
  exact demands_singleton (holds checked ends)

/-- In order, a document satisfies the chains of a body exactly if it meets what
all recorded chains demand. -/
theorem verify_ordered_iff_of_demands {options : ChainOptions} (ordered : options.isOrdered = true)
    {body : Json} (canonical : body.IsCanonical) {condition : Json → Prop}
    (demands : Demands (emitted options body) condition) :
    ∃ chains, ofBody options body = .ok chains ∧
      ∀ actual, chains.verify actual = .ok () ↔ condition actual := by
  obtain ⟨recorded, made, told⟩ := told_of_emitted options canonical
  obtain ⟨chains, demanded, holds⟩ := demands
  have same : recorded = chains := Except.ok.inj (made.symm.trans demanded)
  subst same
  refine ⟨ofList recorded, ?_, fun actual => ?_⟩
  · rw [ofBody_eq_emitted, made]
    rfl
  rw [verify_ofList_iff told actual, ← holds actual]
  constructor
  · intro each chain member
    obtain ⟨front, back, split⟩ := List.append_of_mem member
    rcases each front chain back split with kept | ⟨_, _, _, unordered, _⟩
    · exact kept
    · rw [ordered] at unordered
      cases unordered
  · intro all front chain back split
    apply Or.inl
    apply all
    rw [split]
    exact List.mem_append_right front List.mem_cons_self

end Chains

end BodyContract
