import BodyContract.Path.Evaluation
import BodyContract.Proofs.Json.Extension
import BodyContract.Proofs.Json.Without

/-!
# The parts of a document

Elements and members are both parts behind a step: the elements of an array behind their
positions, the members of an object behind their names.  What is shown of parts and steps
holds of arrays and objects alike.
-/

namespace BodyContract

namespace Json

/-- The parts of a document behind the steps that lead to them. -/
def entries : Json → List (Step × Json)
  | .array elements => elements.zipIdx.map fun element => (.index element.2, element.1)
  | .object members => members.map fun member => (.key member.1, member.2)
  | _ => []

/-- The steps that lead into a document. -/
def steps (document : Json) : List Step := document.entries.map Prod.fst

variable {document value : Json} {step : Step}

theorem entries_of_not_container (scalar : document.isContainer = false) :
    document.entries = [] := by
  cases document <;> first | rfl | cases scalar

theorem step?_of_not_container (scalar : document.isContainer = false) :
    document.step? step = none := by
  cases document <;> cases step <;> first | rfl | cases scalar

/-- The parts of a document are what its steps lead to. -/
theorem mem_entries_iff (distinct : document.HasDistinctNames) :
    (step, value) ∈ document.entries ↔ document.step? step = some value := by
  cases distinct with
  | leaf scalar =>
      rw [entries_of_not_container scalar, step?_of_not_container scalar]
      simp
  | array each =>
      cases step <;> simp [entries, step?, member?, element?, List.mem_zipIdx_iff_getElem?]
  | @object members distinctNames each =>
      cases step with
      | index position => simp [entries, step?, element?]
      | key name =>
          simp only [entries, List.mem_map, Prod.mk.injEq, Step.key.injEq, step?, member?]
          constructor
          · rintro ⟨⟨other, content⟩, isIn, rfl, rfl⟩
            exact lookup_of_mem distinctNames isIn
          · intro isThere
            exact ⟨(name, value), mem_of_lookup isThere, rfl, rfl⟩

theorem mem_steps_of_step? (distinct : document.HasDistinctNames)
    (isThere : document.step? step = some value) : step ∈ document.steps :=
  List.mem_map_of_mem (f := Prod.fst) ((mem_entries_iff distinct).mpr isThere)

/-- Every part stands behind a step of its own. -/
theorem nodup_steps (distinct : document.HasDistinctNames) : document.steps.Nodup := by
  cases distinct with
  | leaf scalar =>
      rw [steps, entries_of_not_container scalar]
      exact List.nodup_nil
  | @array elements each =>
      have positions : (Json.array elements).steps =
          (List.range' 0 elements.length).map Step.index := by
        rw [steps, entries, List.map_map, ← List.zipIdx_map_snd, List.map_map]
        rfl
      rw [positions]
      exact List.Nodup.map (fun _ _ => Step.index.inj) List.nodup_range'
  | @object members distinctNames each =>
      have names : (Json.object members).steps = (members.map (·.1)).map Step.key := by
        rw [steps, entries, List.map_map, List.map_map]
        rfl
      rw [names]
      exact List.Nodup.map (fun _ _ => Step.key.inj) distinctNames

theorem HasDistinctNames.of_mem_entries (distinct : document.HasDistinctNames)
    (isPart : (step, value) ∈ document.entries) : value.HasDistinctNames := by
  cases distinct with
  | leaf scalar =>
      rw [entries_of_not_container scalar] at isPart
      cases isPart
  | array each =>
      obtain ⟨element, isIn, same⟩ := List.mem_map.mp isPart
      cases same
      exact each _ (List.fst_mem_of_mem_zipIdx isIn)
  | object _ each =>
      obtain ⟨member, isIn, same⟩ := List.mem_map.mp isPart
      cases same
      exact each member isIn

/-- What holds of a document whenever it holds of its parts holds of every document. -/
theorem HasDistinctNames.inductionOnEntries
    {motive : (document : Json) → document.HasDistinctNames → Prop}
    (whole : ∀ (document : Json) (distinct : document.HasDistinctNames),
      (∀ (step : Step) (part : Json) (isPart : (step, part) ∈ document.entries),
        motive part (distinct.of_mem_entries isPart)) → motive document distinct)
    {document : Json} (distinct : document.HasDistinctNames) : motive document distinct := by
  induction distinct with
  | leaf scalar =>
      apply whole
      intro step part isPart
      rw [entries_of_not_container scalar] at isPart
      cases isPart
  | array each inductionHypothesis =>
      apply whole
      intro step part isPart
      obtain ⟨element, isIn, same⟩ := List.mem_map.mp isPart
      cases same
      exact inductionHypothesis _ (List.fst_mem_of_mem_zipIdx isIn)
  | object _ each inductionHypothesis =>
      apply whole
      intro step part isPart
      obtain ⟨member, isIn, same⟩ := List.mem_map.mp isPart
      cases same
      exact inductionHypothesis member isIn

end Json

/-! ## Nodes of parts -/

namespace Node

theorem ofElements_eq (location : Location) (position : Nat) (elements : List Json) :
    ofElements location position elements = (elements.zipIdx position).map fun element =>
      ⟨location ++ [.index element.2], element.1⟩ := by
  induction elements generalizing position with
  | nil => rfl
  | cons element rest inductionHypothesis =>
      rw [ofElements, inductionHypothesis, List.zipIdx_cons, List.map_cons]

/-- A wildcard leads to all parts. -/
theorem children_eq (node : Node) :
    node.children = node.value.entries.map fun entry => node.behind entry.1 entry.2 := by
  obtain ⟨location, value⟩ := node
  cases value with
  | array elements =>
      rw [children.eq_def, Json.entries, List.map_map]
      exact ofElements_eq location 0 elements
  | object members =>
      rw [children.eq_def, Json.entries, List.map_map]
      rfl
  | _ => rfl

theorem descendantsOfElements_eq (name : Option String) (location : Location) (position : Nat)
    (elements : List Json) : descendantsOfElements name location position elements =
      (elements.zipIdx position).flatMap fun element =>
        unnamed (location ++ [.index element.2]) element.1 name ++
          descendantsOf name (location ++ [.index element.2]) element.1 := by
  induction elements generalizing position with
  | nil => rfl
  | cons element rest inductionHypothesis =>
      rw [descendantsOfElements, inductionHypothesis, List.zipIdx_cons, List.flatMap_cons,
        List.append_assoc]

theorem descendantsOfMembers_eq (name : Option String) (location : Location)
    (members : List (String × Json)) : descendantsOfMembers name location members =
      members.flatMap fun member => unnamed (location ++ [.key member.1]) member.2 name ++
        descendantsOf name (location ++ [.key member.1]) member.2 := by
  induction members with
  | nil => rfl
  | cons member rest inductionHypothesis =>
      rw [descendantsOfMembers, inductionHypothesis, List.flatMap_cons, List.append_assoc]

/-- A descent leads to the member of a name first, and then into one part after the other. -/
theorem descendantsOf_eq (name : Option String) (location : Location) (value : Json) :
    descendantsOf name location value = namedChild location value name ++
      value.entries.flatMap fun entry => unnamed (location ++ [entry.1]) entry.2 name ++
        descendantsOf name (location ++ [entry.1]) entry.2 := by
  have noMember : (∀ asked, value.member? asked = none) → namedChild location value name = [] := by
    intro none
    cases name with
    | none => rfl
    | some asked => rw [namedChild, child, none]
  cases value with
  | array elements =>
      rw [descendantsOf, descendantsOfElements_eq, noMember fun _ => rfl, Json.entries,
        List.flatMap_map, List.nil_append]
  | object members =>
      rw [descendantsOf, descendantsOfMembers_eq, Json.entries, List.flatMap_map]
  | _ =>
      rw [noMember fun _ => rfl]
      rfl

end Node

end BodyContract
