import BodyContract.Matcher.Removal
import BodyContract.Proofs.Json.Scalars
import BodyContract.Proofs.Path.Reading
import BodyContract.Proofs.Path.Selection

/-!
# Pruning keeps all scalars

What is removed around the paths of matchers are hollow containers: there is
nothing in them but empty containers.  Whatever the paths are, every scalar
stays behind its names.
-/

namespace BodyContract

namespace Json

variable {document smaller value : Json} {elements : List Json} {members : List (String × Json)}

/-! ## Hollow containers -/

theorem scalarsOfElements_eq_nil {position : Nat}
    (bare : ∀ element ∈ elements, element.scalars = []) :
    scalarsOfElements position elements = [] := by
  induction elements generalizing position with
  | nil => rfl
  | cons element rest inductionHypothesis =>
      rw [scalarsOfElements, bare element List.mem_cons_self, inductionHypothesis]
      · rfl
      · exact fun other isIn => bare other (List.mem_cons_of_mem _ isIn)

theorem scalarsOfMembers_eq_nil (bare : ∀ member ∈ members, member.2.scalars = []) :
    scalarsOfMembers members = [] := by
  induction members with
  | nil => rfl
  | cons member rest inductionHypothesis =>
      rw [scalarsOfMembers, bare member List.mem_cons_self, inductionHypothesis]
      · rfl
      · exact fun other isIn => bare other (List.mem_cons_of_mem _ isIn)

theorem scalars_of_isEmptyContainer (empty : value.isEmptyContainer = true) :
    value.scalars = [] := by
  cases value with
  | array elements =>
      rw [List.isEmpty_iff.mp empty]
      rfl
  | object members =>
      rw [List.isEmpty_iff.mp empty]
      rfl
  | _ => cases empty

/-- The parts of a hollow container are empty. -/
theorem isEmptyContainer_of_isHollow (hollow : document.isHollow = true)
    (isPart : value ∈ document.parts) : value.isEmptyContainer = true := by
  cases document with
  | array elements => exact List.all_eq_true.mp hollow value isPart
  | object members =>
      obtain ⟨member, isIn, rfl⟩ := List.mem_map.mp isPart
      exact List.all_eq_true.mp hollow member isIn
  | _ => cases hollow

theorem scalars_of_isHollow (hollow : value.isHollow = true) : value.scalars = [] := by
  cases value with
  | array elements =>
      exact scalarsOfElements_eq_nil fun element isIn =>
        scalars_of_isEmptyContainer (isEmptyContainer_of_isHollow hollow isIn)
  | object members =>
      exact scalarsOfMembers_eq_nil fun member isIn =>
        scalars_of_isEmptyContainer
          (isEmptyContainer_of_isHollow hollow (List.mem_map.mpr ⟨member, isIn, rfl⟩))
  | _ => cases hollow

theorem scalars_of_part_of_isArrayOfHollow (hollow : document.isArrayOfHollow = true)
    (isPart : value ∈ document.parts) : value.scalars = [] := by
  cases document with
  | array elements => exact scalars_of_isHollow (List.all_eq_true.mp hollow value isPart)
  | _ => cases hollow

end Json

/-! ## What is read at a path -/

namespace Json

variable {document smaller value : Json} {text : String}

/-- What is read is hollow only if everything that the path selects is bare. -/
theorem bare_of_readElement (read : document.readElement text = .ok value)
    (hollow : value.isHollow = true) : ∃ path, Path.parse text = .ok path ∧
      ∀ node ∈ path.nodes document, node.value.scalars = [] := by
  obtain ⟨path, parsed, ⟨-, node, single, rfl⟩ | ⟨-, rfl⟩⟩ := of_readElement read
  · refine ⟨path, parsed, ?_⟩
    intro other isIn
    rw [single, List.mem_singleton] at isIn
    rw [isIn]
    exact scalars_of_isHollow hollow
  · refine ⟨path, parsed, ?_⟩
    intro node isIn
    apply scalars_of_isEmptyContainer
    exact isEmptyContainer_of_isHollow hollow (List.mem_map_of_mem isIn)

/-! ## Deleting bare values -/

/-- Whether a document with distinct names has the scalars of another one. -/
def KeepsScalars (smaller document : Json) : Prop :=
  smaller.HasDistinctNames ∧ smaller.namedScalars = document.namedScalars

theorem KeepsScalars.trans {smallest : Json} (second : smallest.KeepsScalars smaller)
    (first : smaller.KeepsScalars document) : smallest.KeepsScalars document :=
  ⟨second.1, second.2.trans first.2⟩

theorem keepsScalars_delete (distinct : document.HasDistinctNames) {path : Path}
    (parsed : Path.parse text = .ok path)
    (bare : ∀ node ∈ path.nodes document, node.value.scalars = []) {count : Nat}
    (deleted : document.delete text = .ok (count, smaller)) : smaller.KeepsScalars document := by
  obtain ⟨_, removed, -⟩ := delete_eq distinct parsed
  rw [removed] at deleted
  cases deleted
  refine ⟨distinct.without _, namedScalars_without_of_bare distinct ?_⟩
  intro location part isPlace isThere
  obtain ⟨isLocated, -⟩ := Path.removed_eq_true_iff.mp isPlace
  obtain ⟨node, isIn, rfl⟩ := List.mem_map.mp isLocated
  have same := Path.valueAt?_of_mem_nodes distinct isIn
  rw [isThere] at same
  rw [Option.some.inj same]
  exact bare node isIn

theorem parse_rootElements : Path.parse rootElements = .ok ⟨rootElements, [.wildcard]⟩ :=
  @Path.parse_hops [.every] (by decide)

/-- Deleting everything in the root keeps the scalars if its parts are bare. -/
theorem keepsScalars_delete_rootElements (distinct : document.HasDistinctNames)
    (bare : ∀ part ∈ document.parts, part.scalars = []) {count : Nat}
    (deleted : document.delete rootElements = .ok (count, smaller)) :
    smaller.KeepsScalars document := by
  apply keepsScalars_delete distinct parse_rootElements ?_ deleted
  intro node isIn
  have isChild : node ∈ (Node.mk [] document).children := by
    rw [Path.nodes, selectAll, selectAll, List.flatMap_singleton, select] at isIn
    exact isIn
  have isPart := List.mem_map_of_mem (f := fun node : Node => node.value) isChild
  rw [map_value_children] at isPart
  exact bare node.value isPart

end Json

/-! ## Steps of pruning -/

/-- What is removed if the container around a path is hollow. -/
def containerTarget (path : String) : String :=
  if withoutLastBrackets path = "$" then rootElements else withoutLastBrackets path

/-- Whether a hollow container is read at a path. -/
def IsHollowAt (path : String) (body : Json) : Prop :=
  ∃ value, body.readElement path = .ok value ∧ value.isHollow = true

/-- What a step of pruning around a path can do. -/
inductive IsStep (path : String) (body : Json) : Json × Option String → Prop where
  /-- The container without the last brackets is hollow and goes. -/
  | container (hollow : IsHollowAt (withoutLastBrackets path) body) (inside : path ≠ rootElements)
      (plain : containsText (containerTarget path) ".." = false) :
      IsStep path body (removeContainer (containerTarget path) body)
  /-- The container is hollow but stands behind a descent. -/
  | descent (hollow : IsHollowAt (withoutLastBrackets path) body) (inside : path ≠ rootElements)
      (descends : containsText (containerTarget path) ".." = true) :
      IsStep path body
        (if body.isArrayOfHollow then body.deleteIfReadable rootElements else body, none)
  /-- What stands in front of the last dot is hollow and goes. -/
  | parent {parent : String}
      (solid : ¬(IsHollowAt (withoutLastBrackets path) body ∧ path ≠ rootElements))
      (split : withoutLastDot? path = some parent) (hollow : IsHollowAt parent body)
      (notRoot : parent ≠ "$") : IsStep path body (removeContainer parent body)
  /-- Nothing is hollow there. -/
  | nothing (solid : ¬(IsHollowAt (withoutLastBrackets path) body ∧ path ≠ rootElements))
      (kept : ∀ parent, withoutLastDot? path = some parent →
        parent = "$" ∨ ¬IsHollowAt parent body) :
      IsStep path body (body, none)

theorem pruneStep_of_hollow {path : String} {body : Json}
    (hollow : IsHollowAt (withoutLastBrackets path) body) (inside : path ≠ rootElements) :
    pruneStep path body =
      if containsText (containerTarget path) ".." then
        (if body.isArrayOfHollow then body.deleteIfReadable rootElements else body, none)
      else removeContainer (containerTarget path) body := by
  obtain ⟨value, read, isHollow⟩ := hollow
  have both : (value.isHollow && path != rootElements) = true := by
    rw [Bool.and_eq_true, bne_iff_ne]
    exact ⟨isHollow, inside⟩
  rw [pruneStep]
  simp only [read, both, if_true]
  rfl

theorem pruneStep_of_solid {path : String} {body : Json}
    (solid : ¬(IsHollowAt (withoutLastBrackets path) body ∧ path ≠ rootElements)) :
    pruneStep path body =
      match withoutLastDot? path with
      | none => (body, none)
      | some parent =>
          match body.readElement parent with
          | .error _ => (body, none)
          | .ok value =>
              if value.isHollow && parent != "$" then removeContainer parent body
              else (body, none) := by
  have notHollow : ((match body.readElement (withoutLastBrackets path) with
      | .error _ => false
      | .ok value => value.isHollow) && path != rootElements) = false := by
    rw [Bool.eq_false_iff, ne_eq, Bool.and_eq_true, bne_iff_ne]
    intro both
    cases read : body.readElement (withoutLastBrackets path) with
    | error _ =>
        rw [read] at both
        exact Bool.false_ne_true both.1
    | ok value =>
        rw [read] at both
        exact solid ⟨⟨value, read, both.1⟩, both.2⟩
  exact (pruneStep.eq_def path body).trans (if_neg (Bool.eq_false_iff.mp notHollow))

theorem isStep_pruneStep (path : String) (body : Json) :
    IsStep path body (pruneStep path body) := by
  by_cases inside : IsHollowAt (withoutLastBrackets path) body ∧ path ≠ rootElements
  · rw [pruneStep_of_hollow inside.1 inside.2]
    by_cases descends : containsText (containerTarget path) ".." = true
    · rw [if_pos descends]
      exact .descent inside.1 inside.2 descends
    · rw [if_neg descends]
      exact .container inside.1 inside.2 (Bool.eq_false_iff.mpr descends)
  · rw [pruneStep_of_solid inside]
    cases split : withoutLastDot? path with
    | none =>
        apply IsStep.nothing inside
        intro parent impossible
        rw [split] at impossible
        cases impossible
    | some parent =>
        have nothing : (parent = "$" ∨ ¬IsHollowAt parent body) → IsStep path body (body, none) := by
          intro kept
          apply IsStep.nothing inside
          intro other same
          rw [split] at same
          cases same
          exact kept
        dsimp only
        cases read : body.readElement parent with
        | error _ =>
            apply nothing
            right
            rintro ⟨value, isRead, -⟩
            rw [read] at isRead
            cases isRead
        | ok value =>
            dsimp only
            by_cases both : (value.isHollow && parent != "$") = true
            · rw [if_pos both]
              rw [Bool.and_eq_true, bne_iff_ne] at both
              exact .parent inside split ⟨value, read, both.1⟩ both.2
            · rw [if_neg both]
              rw [Bool.and_eq_true, bne_iff_ne, not_and_or, not_not] at both
              apply nothing
              rcases both with solid | isRoot
              · right
                rintro ⟨other, isRead, isHollow⟩
                rw [read] at isRead
                cases isRead
                exact solid isHollow
              · exact Or.inl isRoot

section

variable {body : Json} {path target : String}

theorem keepsScalars_removeContainer (distinct : body.HasDistinctNames)
    (keeps : ∀ count smaller, body.delete target = .ok (count, smaller) →
      smaller.KeepsScalars body) : (removeContainer target body).1.KeepsScalars body := by
  rw [removeContainer]
  cases deleted : body.delete target with
  | error _ => exact ⟨distinct, rfl⟩
  | ok result => exact keeps _ _ deleted

theorem readElement_root (body : Json) : body.readElement "$" = .ok body := by
  have parsed : Path.parse "$" = .ok ⟨"$", []⟩ := @Path.parse_hops [] (by simp)
  rw [Json.readElement, parsed]
  rfl

/-- Deleting what is read at a path, or the elements of the root in its place,
keeps the scalars if it is hollow. -/
theorem keepsScalars_of_hollow (distinct : body.HasDistinctNames) {value : Json}
    (read : body.readElement path = .ok value) (hollow : value.isHollow = true)
    {count : Nat} {smaller : Json}
    (deleted : body.delete (if path = "$" then rootElements else path) = .ok (count, smaller)) :
    smaller.KeepsScalars body := by
  by_cases isRoot : path = "$"
  · rw [if_pos isRoot] at deleted
    rw [isRoot, readElement_root] at read
    cases read
    apply Json.keepsScalars_delete_rootElements distinct ?_ deleted
    intro part isPart
    exact Json.scalars_of_isEmptyContainer (Json.isEmptyContainer_of_isHollow hollow isPart)
  · rw [if_neg isRoot] at deleted
    obtain ⟨parsed, isParsed, bare⟩ := Json.bare_of_readElement read hollow
    exact Json.keepsScalars_delete distinct isParsed bare deleted

theorem keepsScalars_pruneStep (distinct : body.HasDistinctNames) (path : String) :
    (pruneStep path body).1.KeepsScalars body := by
  have same : body.KeepsScalars body := ⟨distinct, rfl⟩
  have step := isStep_pruneStep path body
  generalize pruneStep path body = result at step ⊢
  cases step with
  | container hollow _ _ =>
      obtain ⟨value, read, isHollow⟩ := hollow
      exact keepsScalars_removeContainer distinct fun _ _ =>
        keepsScalars_of_hollow distinct read isHollow
  | descent _ _ _ =>
      dsimp only
      split
      · rename_i rootIsHollow
        rw [Json.deleteIfReadable]
        cases deleted : body.delete rootElements with
        | error _ => exact same
        | ok result =>
            apply Json.keepsScalars_delete_rootElements distinct ?_ deleted
            intro part isPart
            exact Json.scalars_of_part_of_isArrayOfHollow rootIsHollow isPart
      · exact same
  | parent _ _ hollow notRoot =>
      obtain ⟨value, read, isHollow⟩ := hollow
      apply keepsScalars_removeContainer distinct
      intro count smaller deleted
      apply keepsScalars_of_hollow distinct read isHollow
      rw [if_neg notRoot]
      exact deleted
  | nothing _ _ => exact same

theorem keepsScalars_pruneAux (distinct : body.HasDistinctNames) (fuel : Nat) (path : String) :
    (pruneAux fuel path body).KeepsScalars body := by
  induction fuel generalizing body path with
  | zero =>
      rw [pruneAux]
      exact ⟨distinct, rfl⟩
  | succ fuel inductionHypothesis =>
      have step := keepsScalars_pruneStep distinct path
      rw [pruneAux]
      generalize pruneStep path body = result at step ⊢
      obtain ⟨smaller, next⟩ := result
      cases next with
      | none => exact step
      | some next => exact (inductionHypothesis step.1 next).trans step

/-- Whatever the paths are, pruning around them keeps all scalars behind their
names. -/
theorem keepsScalars_prune (distinct : body.HasDistinctNames) (paths : List String) :
    (paths.foldl prune body).KeepsScalars body := by
  induction paths generalizing body with
  | nil => exact ⟨distinct, rfl⟩
  | cons path rest inductionHypothesis =>
      have first : (prune body path).KeepsScalars body := by
        rw [prune]
        exact keepsScalars_pruneAux distinct _ path
      rw [List.foldl_cons]
      exact (inductionHypothesis first.1).trans first

end

end BodyContract
