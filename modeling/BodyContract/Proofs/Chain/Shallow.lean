import BodyContract.Proofs.Chain.Aims
import BodyContract.Proofs.Chain.Plain

/-!
# A class of covered bodies

A body is covered if no array stands directly in another one, except for rows of
simple values, and if nothing inside of an array is an empty object or array.
-/

namespace BodyContract

namespace Json

/-- Values with arrays of this kind, on their own or inside of an array. -/
inductive Shallow : Bool → Json → Prop where
  | leaf {isInside : Bool} {value : Json} (scalar : value.isContainer = false) :
      Shallow isInside value
  | object {isInside : Bool} {members : List (String × Json)}
      (filled : isInside = true → members ≠ [])
      (shallow : ∀ member ∈ members, Shallow isInside member.2) :
      Shallow isInside (.object members)
  | array {isInside : Bool} {elements : List Json} (filled : isInside = true → elements ≠ [])
      (shallow : ∀ element ∈ elements, Shallow true element)
      (rows : ∀ element ∈ elements, element.isArray = true → element.isSimpleArray = true) :
      Shallow isInside (.array elements)

end Json

namespace Stance

/-- Whether a stance at an array leads on to its elements, with or without the
wildcard for them.  Without it they have to be arrays. -/
def Reaches (stance : Stance) (elements : List Json) : Prop :=
  stance.hops = stance.there ++ [.every] ∨
    (elements.all Json.isArray = true ∧ stance.hops = stance.there)

/-- Whether the route of a stance fits a value: it is the place of the value,
and for an array it leads to the elements or, in front of simple values, to the
array itself. -/
def Fits (stance : Stance) : Json → Prop
  | .array elements => stance.name? = none ∧
      if Json.areSimple elements then
        stance.hops = stance.there ∨ stance.hops = stance.there ++ [.every]
      else
        (stance.elements elements).Reaches elements
  | _ => stance.route = stance.place

theorem fits_iff {stance : Stance} {value : Json} (notArray : value.isArray = false) :
    stance.Fits value ↔ stance.route = stance.place := by
  cases value <;> first | exact Iff.rfl | cases notArray

theorem hops_eq_there {stance : Stance} (same : stance.route = stance.place) :
    stance.hops = stance.there := by
  rw [hops, there, same]

theorem root_fits (body : Json) : root.Fits body := by
  cases body with
  | array values =>
      refine ⟨rfl, ?_⟩
      by_cases simple : Json.areSimple values = true
      · rw [if_pos simple]
        exact Or.inl rfl
      · rw [if_neg simple]
        by_cases arrays : values.all Json.isArray = true
        · have same : root.elements values = root := by simp [elements, root, arrays]
          rw [same]
          exact Or.inr ⟨arrays, rfl⟩
        · have widened : root.elements values = root.widened := by simp [elements, root, arrays]
          rw [widened]
          exact Or.inl rfl
  | _ => rfl

/-- Below a member, an array of rows needs no further wildcard. -/
theorem entry_fits {stance : Stance} (same : stance.route = stance.place) {isInside : Bool}
    {value : Json} (shallow : value.Shallow isInside) (name : String) :
    (stance.entry name value).Fits value := by
  have level := hops_eq_there same
  cases shallow with
  | leaf scalar => cases value <;> first | exact level | cases scalar
  | object filled shallow => exact level
  | @array _ values filled shallow rows =>
      refine ⟨rfl, ?_⟩
      by_cases simple : Json.areSimple values = true
      · rw [if_pos simple, entry_there, entry, if_pos simple, ← level]
        exact Or.inl (List.append_nil _)
      · rw [if_neg simple]
        have taken : stance.entry name (.array values) =
            ⟨stance.hops ++ [.member name, .every], stance.there ++ [.member name], none, false⟩ := by
          rw [entry, if_neg simple]
        have noFurther : (values.all Json.isArray && !values.all Json.isSimpleArray) = false := by
          rw [Bool.and_eq_false_imp, Bool.not_eq_false', List.all_eq_true, List.all_eq_true]
          exact fun arrays element member => rows element member (arrays element member)
        have unchanged : (stance.entry name (.array values)).elements values =
            stance.entry name (.array values) := by
          rw [taken, elements, noFurther]
          simp
        rw [unchanged, Reaches, entry_there, taken, ← level]
        exact Or.inl (by simp [hops, named])

/-- The step to an element that is a row or no array. -/
theorem element_fits {stance : Stance} (unnamed : stance.name? = none) {elements : List Json}
    (reaches : stance.Reaches elements) {value : Json} (isThere : value ∈ elements)
    (row : value.isArray = true → value.isSimpleArray = true) :
    (stance.element value).Fits value := by
  cases isArray : value.isArray with
  | false =>
      have noRow : value.isSimpleArray = false := by
        cases value <;> first | rfl | cases isArray
      have noName : stance.hops = stance.route := by
        rw [hops, named, unnamed]
        exact List.append_nil _
      rw [fits_iff isArray, element, noRow]
      rcases reaches with further | ⟨arrays, -⟩
      · exact noName.symm.trans further
      · have impossible := List.all_eq_true.mp arrays value isThere
        rw [isArray] at impossible
        cases impossible
  | true =>
      have simple := row isArray
      have wider : (stance.element value).hops = stance.hops ++ [.every] := by
        rw [element, simple]
        exact List.append_nil _
      cases value with
      | array inner =>
          refine ⟨element_name? unnamed _, ?_⟩
          rw [Json.isSimpleArray] at simple
          rw [if_pos simple, element_there unnamed, wider]
          rcases reaches with further | ⟨-, level⟩
          · exact Or.inr (by rw [further])
          · exact Or.inl (by rw [level])
      | _ => cases isArray

end Stance

namespace Json

section

variable {names : String → Prop} {numbers : Number → Prop} {body value : Json} {stance : Stance}

/-- An empty member array is the only value behind its route, unless it stands
inside of an array. -/
theorem isSure_of_mem_aimsOfMember (same : stance.route = stance.place) {isInside : Bool}
    (shallow : value.Shallow isInside) {name : String}
    (alone : isInside = false → follow (stance.there ++ [.member name]) body = [value])
    (further : ∀ aim ∈ aimsAt (stance.entry name value) value, aim.isSure body = true) :
    ∀ aim ∈ aimsOfMember stance name value, aim.isSure body = true := by
  by_cases empty : value = .array []
  · subst empty
    intro aim isAim
    rw [aimsOfMember, List.mem_singleton] at isAim
    rw [isAim, Aim.isSure, Stance.hops_eq_there same]
    cases isInside with
    | true =>
        cases shallow with
        | leaf scalar => cases scalar
        | array filled _ _ => exact absurd rfl (filled rfl)
    | false =>
        have nothing := follow_every (alone rfl)
        rw [List.append_assoc] at nothing
        exact (congrArg (List.all · Asserter.isEmptyValue) nothing).trans rfl
  · rw [aimsOfMember_eq empty]
    exact further

/-- Outside of arrays the place of a value leads to nothing else. -/
theorem isSure_of_mem_aimsAt {isInside : Bool} (shallow : value.Shallow isInside)
    (plain : value.Plain names numbers) (fits : stance.Fits value)
    (alone : isInside = false → follow stance.there body = [value]) :
    ∀ aim ∈ aimsAt stance value, aim.isSure body = true := by
  induction shallow generalizing stance with
  | @leaf isInside value scalar =>
      have notArray : value.isArray = false := by
        cases value <;> first | rfl | cases scalar
      have only : aimsAt stance value =
          [.finds stance.route stance.place stance.name? value] := by
        cases value <;> first | rfl | cases scalar
      intro aim isAim
      rw [only, List.mem_singleton] at isAim
      rw [isAim, Aim.isSure, (Stance.fits_iff notArray).mp fits]
      simp
  | @object isInside members filled shallow inductionHypothesis =>
      have same : stance.route = stance.place := fits
      rw [aimsAt]
      cases plain with
      | object noMarker distinct allowed plain =>
          by_cases empty : members.isEmpty = true
          · rw [if_pos empty]
            have none := List.isEmpty_iff.mp empty
            cases isInside with
            | true => exact absurd none (filled rfl)
            | false =>
                intro aim isAim
                rw [List.mem_singleton.mp isAim, Aim.isSure, Stance.hops_eq_there same,
                  alone rfl, none]
                rfl
          · rw [if_neg empty]
            intro aim isAim
            obtain ⟨member, isIn, isItsAim⟩ := mem_aimsOfMembers.mp isAim
            have stillAlone : isInside = false →
                follow (stance.there ++ [.member member.1]) body = [member.2] :=
              fun outside => follow_member (alone outside) (lookup_of_mem distinct isIn)
            refine isSure_of_mem_aimsOfMember same (shallow member isIn) stillAlone ?_ aim isItsAim
            refine inductionHypothesis member isIn (plain member isIn)
              (Stance.entry_fits same (shallow member isIn) member.1) ?_
            rw [Stance.entry_there]
            exact stillAlone
  | @array isInside elements filled shallow rows inductionHypothesis =>
      obtain ⟨unnamed, leads⟩ := fits
      rw [aimsAt]
      by_cases empty : elements.isEmpty = true
      · rw [if_pos empty]
        exact fun aim isAim => absurd isAim List.not_mem_nil
      · rw [if_neg empty]
        by_cases simple : areSimple elements = true
        · rw [if_pos simple] at leads ⊢
          intro aim isAim
          obtain ⟨element, -, rfl⟩ := List.mem_map.mp isAim
          rw [Aim.isSure]
          rcases leads with level | further
          · simp [level]
          · simp [further]
        · rw [if_neg simple] at leads ⊢
          cases plain with
          | array short plain =>
              intro aim isAim
              obtain ⟨element, member, isItsAim⟩ := mem_aimsOfElements.mp isAim
              exact inductionHypothesis element member (plain element member)
                (Stance.element_fits (Stance.elements_name? unnamed elements) leads member
                  (rows element member)) Bool.noConfusion aim isItsAim

/-- The unordered chains of such a body go to its values. -/
theorem isCovered_of_shallow (plain : body.Plain names numbers) (shallow : body.Shallow false) :
    body.isCovered = true := by
  rw [isCovered, List.all_eq_true]
  exact isSure_of_mem_aimsAt shallow plain (Stance.root_fits body) fun _ => rfl

end

end Json

end BodyContract
