import BodyContract.Proofs.Number.Values
import BodyContract.Proofs.Path.Literals
import BodyContract.Proofs.Path.Selection

/-!
# Documents with more in them

A document extends another one if it has all that the other one has: equal
values that are no containers, every member under its name, and every element
somewhere.  What hops and a condition find in a document they find in every
document that extends it, as long as no hop counts elements.
-/

namespace BodyContract

namespace Json

mutual

/-- Whether a document has all that this one has. -/
def isExtendedBy : Json → Json → Bool
  | .array elements, .array others => areExtendedBy elements others
  | .object members, .object others => membersAreExtendedBy members others
  | value, other => value.same other

/-- Whether every element is extended by one of the others. -/
def areExtendedBy : List Json → List Json → Bool
  | [], _ => true
  | element :: rest, others =>
      others.any (fun other => element.isExtendedBy other) && areExtendedBy rest others

/-- Whether every member is extended by the one of the same name among the others. -/
def membersAreExtendedBy : List (String × Json) → List (String × Json) → Bool
  | [], _ => true
  | (name, value) :: rest, others =>
      (match others.lookup name with
        | none => false
        | some other => value.isExtendedBy other) && membersAreExtendedBy rest others

end

theorem areExtendedBy_iff (elements others : List Json) :
    areExtendedBy elements others = true ↔
      ∀ element ∈ elements, ∃ other ∈ others, element.isExtendedBy other = true := by
  induction elements with
  | nil => simp [areExtendedBy]
  | cons first rest inductionHypothesis =>
      rw [areExtendedBy, Bool.and_eq_true, List.any_eq_true, inductionHypothesis,
        List.forall_mem_cons]

theorem membersAreExtendedBy_iff (members others : List (String × Json)) :
    membersAreExtendedBy members others = true ↔
      ∀ member ∈ members, ∃ other, others.lookup member.1 = some other ∧
        member.2.isExtendedBy other = true := by
  induction members with
  | nil => simp [membersAreExtendedBy]
  | cons first rest inductionHypothesis =>
      obtain ⟨name, value⟩ := first
      rw [membersAreExtendedBy, Bool.and_eq_true, inductionHypothesis, List.forall_mem_cons]
      refine and_congr_left fun _ => ?_
      cases others.lookup name with
      | none => simp
      | some other => simp

variable {value wider : Json}

theorem exists_array_of_isExtendedBy {elements : List Json}
    (extended : (Json.array elements).isExtendedBy wider = true) :
    ∃ others, wider = .array others ∧
      ∀ element ∈ elements, ∃ other ∈ others, element.isExtendedBy other = true := by
  cases wider with
  | array others =>
      rw [isExtendedBy] at extended
      exact ⟨others, rfl, (areExtendedBy_iff elements others).mp extended⟩
  | _ => cases extended

theorem exists_object_of_isExtendedBy {members : List (String × Json)}
    (extended : (Json.object members).isExtendedBy wider = true) :
    ∃ others, wider = .object others ∧
      ∀ member ∈ members, ∃ other, others.lookup member.1 = some other ∧
        member.2.isExtendedBy other = true := by
  cases wider with
  | object others =>
      rw [isExtendedBy] at extended
      exact ⟨others, rfl, (membersAreExtendedBy_iff members others).mp extended⟩
  | _ => cases extended

theorem same_of_isExtendedBy (scalar : value.isContainer = false)
    (extended : value.isExtendedBy wider = true) : value.same wider = true := by
  cases value with
  | array elements => cases scalar
  | object members => cases scalar
  | _ => exact extended

theorem mem_of_lookup {members : List (String × Json)} {name : String}
    (isThere : members.lookup name = some value) : (name, value) ∈ members := by
  induction members with
  | nil => cases isThere
  | cons first rest inductionHypothesis =>
      obtain ⟨other, found⟩ := first
      rw [List.lookup_cons] at isThere
      split at isThere
      · rename_i same
        rw [beq_iff_eq] at same
        cases isThere
        rw [same]
        exact List.mem_cons_self
      · exact List.mem_cons_of_mem _ (inductionHypothesis isThere)

theorem exists_member_of_isExtendedBy {document : Json}
    (extended : document.isExtendedBy wider = true) {name : String}
    (isThere : document.member? name = some value) :
    ∃ other, wider.member? name = some other ∧ value.isExtendedBy other = true := by
  cases document with
  | object members =>
      obtain ⟨others, rfl, each⟩ := exists_object_of_isExtendedBy extended
      exact each (name, value) (mem_of_lookup isThere)
  | _ => cases isThere

/-- What stands in a document is extended by something in a wider one. -/
theorem exists_part_of_isExtendedBy {document : Json}
    (extended : document.isExtendedBy wider = true) (member : value ∈ document.parts) :
    ∃ other ∈ wider.parts, value.isExtendedBy other = true := by
  cases document with
  | array elements =>
      obtain ⟨others, rfl, each⟩ := exists_array_of_isExtendedBy extended
      exact each value member
  | object members =>
      obtain ⟨others, rfl, each⟩ := exists_object_of_isExtendedBy extended
      obtain ⟨⟨name, found⟩, isIn, rfl⟩ := List.mem_map.mp member
      obtain ⟨other, isThere, wider⟩ := each (name, found) isIn
      exact ⟨other, List.mem_map.mpr ⟨(name, other), mem_of_lookup isThere, rfl⟩, wider⟩
  | _ => exact absurd member List.not_mem_nil

/-- What a filter tests in a document is extended by something that it tests in
a wider one. -/
theorem exists_item_of_isExtendedBy {document : Json}
    (extended : document.isExtendedBy wider = true) (member : value ∈ document.items) :
    ∃ other ∈ wider.items, value.isExtendedBy other = true := by
  cases document with
  | array elements =>
      obtain ⟨others, rfl, each⟩ := exists_array_of_isExtendedBy extended
      exact each value member
  | object members =>
      rw [List.mem_singleton.mp member]
      obtain ⟨others, rfl, -⟩ := exists_object_of_isExtendedBy extended
      exact ⟨_, List.mem_singleton_self _, extended⟩
  | _ =>
      rw [List.mem_singleton.mp member]
      have same := same_of_isExtendedBy rfl extended
      cases wider with
      | array others => cases same
      | _ => exact ⟨_, List.mem_singleton_self _, extended⟩

/-- A literal that equals a value equals what extends the value. -/
theorem equalsInFilter_of_isExtendedBy {literal read : Json}
    (reads : Path.LiteralReads literal read) (extended : value.isExtendedBy wider = true)
    (equal : value.equalsInFilter read = true) : wider.equalsInFilter read = true := by
  cases value with
  | array elements =>
      cases reads <;> cases equal
  | object members =>
      cases reads <;> cases equal
  | number number =>
      have same := same_of_isExtendedBy rfl extended
      cases wider with
      | number other =>
          cases reads with
          | number known =>
              rw [equalsInFilter, beq_iff_eq] at equal ⊢
              exact Number.compare_eq_of_same same equal
          | _ => cases equal
      | _ => cases same
  | null =>
      have same := same_of_isExtendedBy rfl extended
      cases wider with
      | null => exact equal
      | _ => cases same
  | bool flag =>
      have same := same_of_isExtendedBy rfl extended
      cases wider with
      | bool other =>
          rw [Json.same, beq_iff_eq] at same
          rw [← same]
          exact equal
      | _ => cases same
  | string text =>
      have same := same_of_isExtendedBy rfl extended
      cases wider with
      | string other =>
          rw [Json.same, beq_iff_eq] at same
          rw [← same]
          exact equal
      | _ => cases same

end Json

/-! ## Hops and conditions -/

/-- Whether no hop goes to an element by its position. -/
def AreUnnumbered (hops : List Hop) : Prop := ∀ hop ∈ hops, ∀ index, hop ≠ .position index

theorem AreNames.areUnnumbered {hops : List Hop} (named : AreNames hops) : AreUnnumbered hops := by
  intro hop member index
  obtain ⟨name, rfl⟩ := named hop member
  exact Hop.noConfusion

/-- What hops lead to is extended by something that they lead to in a wider
document. -/
theorem exists_follow_of_isExtendedBy {hops : List Hop} (unnumbered : AreUnnumbered hops)
    {document wider value : Json} (extended : document.isExtendedBy wider = true)
    (found : value ∈ follow hops document) :
    ∃ other ∈ follow hops wider, value.isExtendedBy other = true := by
  induction hops generalizing document wider with
  | nil =>
      rw [follow_nil, List.mem_singleton] at found
      rw [found]
      exact ⟨wider, List.mem_singleton_self _, extended⟩
  | cons hop rest inductionHypothesis =>
      have others : AreUnnumbered rest := fun other member =>
        unnumbered other (List.mem_cons_of_mem hop member)
      obtain ⟨next, isNext, later⟩ := List.mem_flatMap.mp found
      have step : ∃ widerNext ∈ hop.next wider, next.isExtendedBy widerNext = true := by
        cases hop with
        | member name =>
            rw [Hop.next, Option.mem_toList] at isNext
            obtain ⟨other, isThere, extends_⟩ :=
              Json.exists_member_of_isExtendedBy extended isNext
            exact ⟨other, Option.mem_toList.mpr isThere, extends_⟩
        | every => exact Json.exists_part_of_isExtendedBy extended isNext
        | position index => exact absurd rfl (unnumbered _ List.mem_cons_self index)
      obtain ⟨widerNext, isThere, extends_⟩ := step
      obtain ⟨other, reached, wide⟩ := inductionHypothesis others extends_ later
      exact ⟨other, List.mem_flatMap.mpr ⟨widerNext, isThere, reached⟩, wide⟩

/-- What a condition finds in a document it finds in every wider one. -/
theorem Finds.mono {hops inside : List Hop} (unnumbered : AreUnnumbered hops)
    (named : AreNames inside) {literal read document wider : Json}
    (reads : Path.LiteralReads literal read) (extended : document.isExtendedBy wider = true)
    (finds : Finds hops inside read document) : Finds hops inside read wider := by
  obtain ⟨value, isValue, item, isItem, found, isFound, equal⟩ := finds
  obtain ⟨widerValue, isWiderValue, valueExtended⟩ :=
    exists_follow_of_isExtendedBy unnumbered extended isValue
  obtain ⟨widerItem, isWiderItem, itemExtended⟩ :=
    Json.exists_item_of_isExtendedBy valueExtended isItem
  obtain ⟨widerFound, isWiderFound, foundExtended⟩ :=
    exists_follow_of_isExtendedBy named.areUnnumbered itemExtended isFound
  exact ⟨widerValue, isWiderValue, widerItem, isWiderItem, widerFound, isWiderFound,
    Json.equalsInFilter_of_isExtendedBy reads foundExtended equal⟩

end BodyContract
