import BodyContract.Proofs.Json.Entries
import BodyContract.Proofs.Json.Removal

/-!
# The places that a path selects

Whatever a path selects is in the document, so that deleting leaves the document
without the selected places.  Segments without filters select a location by its
steps alone, but for the length of an array from whose end elements are counted.
-/

namespace BodyContract

namespace Json

theorem valueAt?_append (document : Json) (front back : Location) :
    document.valueAt? (front ++ back) =
      (document.valueAt? front).bind fun value => value.valueAt? back := by
  induction front generalizing document with
  | nil => rfl
  | cons step rest inductionHypothesis =>
      rw [List.cons_append, valueAt?, valueAt?, Option.bind_eq_bind, Option.bind_assoc]
      congr 1
      funext next
      exact inductionHypothesis next

theorem valueAt?_singleton (document : Json) (step : Step) :
    document.valueAt? [step] = document.step? step := by
  rw [valueAt?, Option.bind_eq_bind]
  cases document.step? step <;> rfl

/-- A part of a value in a document is in the document, too. -/
theorem valueAt?_of_mem_entries {document value part : Json} {location : Location} {step : Step}
    (distinct : value.HasDistinctNames) (isThere : document.valueAt? location = some value)
    (isPart : (step, part) ∈ value.entries) :
    document.valueAt? (location ++ [step]) = some part := by
  rw [valueAt?_append, isThere, Option.bind_some, valueAt?_singleton]
  exact (mem_entries_iff distinct).mp isPart

theorem HasDistinctNames.step {document value : Json} (distinct : document.HasDistinctNames)
    {step : Step} (isThere : document.step? step = some value) : value.HasDistinctNames :=
  distinct.of_mem_entries ((mem_entries_iff distinct).mpr isThere)

theorem HasDistinctNames.valueAt {document value : Json} (distinct : document.HasDistinctNames)
    {location : Location} (isThere : document.valueAt? location = some value) :
    value.HasDistinctNames := by
  induction location generalizing document with
  | nil =>
      cases isThere
      exact distinct
  | cons step rest inductionHypothesis =>
      rw [valueAt?, Option.bind_eq_bind, Option.bind_eq_some_iff] at isThere
      obtain ⟨next, isNext, isInside⟩ := isThere
      exact inductionHypothesis (distinct.step isNext) isInside

/-- The length of the array at a location. -/
def lengthAt (document : Json) (location : Location) : Nat :=
  match document.valueAt? location with
  | some (.array elements) => elements.length
  | _ => 0

theorem lengthAt_append {document value : Json} {front : Location}
    (isThere : document.valueAt? front = some value) (back : Location) :
    document.lengthAt (front ++ back) = value.lengthAt back := by
  rw [lengthAt, lengthAt, valueAt?_append, isThere]
  rfl

end Json

namespace Segment

/-- Whether the segment is a condition. -/
def isFilter : Segment → Bool
  | .filter _ => true
  | _ => false

/-- Whether the segment is the position of an element. -/
def isPosition : Segment → Bool
  | .element _ => true
  | _ => false

/-- Whether the segment goes to any depth. -/
def descends : Segment → Bool
  | .descendants _ => true
  | _ => false

/-- Whether the last step of the segment may be a step, out of an array of some
length if it is one. -/
def accepts (segment : Segment) (length : Nat) (step : Step) : Bool :=
  match segment with
  | .child name => decide (step = .key name)
  | .element position => decide ((Node.place? length position).map Step.index = some step)
  | .wildcard => true
  | .descendants none => true
  | .descendants (some name) => decide (step = .key name)
  | .filter _ => false

end Segment

/-- Whether segments without filters select a location, where the arrays at
locations have some lengths. -/
def areSelected (lengths : Location → Nat) : List Segment → Location → Bool
  | segments, [] => segments.isEmpty
  | [], _ :: _ => false
  | segment :: rest, step :: more =>
      (segment.accepts (lengths []) step &&
          areSelected (fun location => lengths (step :: location)) rest more) ||
        (segment.descends &&
          areSelected (fun location => lengths (step :: location)) (segment :: rest) more)

theorem areSelected_nil_iff {lengths : Location → Nat} {location : Location} :
    areSelected lengths [] location = true ↔ location = [] := by
  cases location <;> simp [areSelected]

theorem areSelected_cons_iff {lengths : Location → Nat} {segment : Segment}
    {rest : List Segment} {location : Location} :
    areSelected lengths (segment :: rest) location = true ↔
      ∃ front step back, location = front ++ step :: back ∧
        (front = [] ∨ segment.descends = true) ∧
        segment.accepts (lengths front) step = true ∧
        areSelected (fun inside => lengths (front ++ step :: inside)) rest back = true := by
  induction location generalizing lengths with
  | nil => simp [areSelected]
  | cons first more inductionHypothesis =>
      rw [areSelected, Bool.or_eq_true, Bool.and_eq_true, Bool.and_eq_true, inductionHypothesis]
      constructor
      · rintro (⟨accepted, selected⟩ | ⟨descends, front, step, back, rfl, -, accepted, selected⟩)
        · exact ⟨[], first, more, rfl, Or.inl rfl, accepted, selected⟩
        · exact ⟨first :: front, step, back, rfl, Or.inr descends, accepted, selected⟩
      · rintro ⟨front, step, back, same, goesOn, accepted, selected⟩
        cases front with
        | nil =>
            obtain ⟨rfl, rfl⟩ := List.cons.inj same
            exact Or.inl ⟨accepted, selected⟩
        | cons other front =>
            obtain ⟨rfl, rfl⟩ := List.cons.inj same
            have descends : segment.descends = true := by
              rcases goesOn with impossible | descends
              · cases impossible
              · exact descends
            exact Or.inr ⟨descends, front, step, back, rfl, Or.inr descends, accepted, selected⟩

/-! ## Selected nodes -/

namespace Node

open Json

/-- The members and elements of a value are behind one step. -/
theorem mem_children_iff {start node : Node} (distinct : start.value.HasDistinctNames) :
    node ∈ start.children ↔ ∃ step, node.location = start.location ++ [step] ∧
      start.value.step? step = some node.value := by
  rw [children_eq, List.mem_map]
  constructor
  · rintro ⟨⟨step, value⟩, isPart, rfl⟩
    exact ⟨step, rfl, (mem_entries_iff distinct).mp isPart⟩
  · rintro ⟨step, sameLocation, isThere⟩
    refine ⟨(step, node.value), (mem_entries_iff distinct).mpr isThere, ?_⟩
    rw [behind, ← sameLocation]

theorem mem_child_iff {start node : Node} {name : String} :
    node ∈ start.child name ↔ node.location = start.location ++ [.key name] ∧
      start.value.step? (.key name) = some node.value := by
  rw [child, step?]
  cases start.value.member? name with
  | none => simp
  | some value =>
      rw [List.mem_singleton]
      constructor
      · rintro rfl
        exact ⟨rfl, rfl⟩
      · rintro ⟨sameLocation, sameValue⟩
        obtain ⟨place, other⟩ := node
        cases sameValue
        exact congrArg (Node.mk · _) sameLocation

theorem mem_element_iff {start node : Node} {position : Int} :
    node ∈ start.element position ↔ ∃ step,
      (place? (start.value.lengthAt []) position).map Step.index = some step ∧
        node.location = start.location ++ [step] ∧ start.value.step? step = some node.value := by
  obtain ⟨location, value⟩ := start
  cases value with
  | array elements =>
      have length : (Json.array elements).lengthAt [] = elements.length := rfl
      rw [element]
      simp only [length]
      cases place? elements.length position with
      | none => simp
      | some place =>
          simp only [Option.map_some, Option.some_inj, exists_eq_left', step?, element?]
          cases elements[place]? with
          | none => simp
          | some value =>
              rw [List.mem_singleton]
              constructor
              · rintro rfl
                exact ⟨rfl, rfl⟩
              · rintro ⟨sameLocation, sameValue⟩
                obtain ⟨where_, other⟩ := node
                cases sameValue
                exact congrArg (Node.mk · _) sameLocation
  | _ =>
      rw [element]
      simp only [List.not_mem_nil, false_iff, not_exists, not_and]
      intro step isPlace _ isThere
      obtain ⟨place, -, rfl⟩ := Option.map_eq_some_iff.mp isPlace
      cases isThere

/-- What a descent leads to: members of a name, or everything, at any depth. -/
theorem mem_descendantsOf_iff {value : Json} (distinct : value.HasDistinctNames)
    {name : Option String} {location : Location} {node : Node} :
    node ∈ descendantsOf name location value ↔
      ∃ front step, (∀ asked, name = some asked → step = .key asked) ∧
        node.location = location ++ (front ++ [step]) ∧
        value.valueAt? (front ++ [step]) = some node.value := by
  induction distinct using HasDistinctNames.inductionOnEntries generalizing location with
  | whole value distinct inductionHypothesis =>
      rw [descendantsOf_eq, List.mem_append, List.mem_flatMap]
      constructor
      · rintro (here | ⟨⟨step, part⟩, isPart, inPart⟩)
        · cases name with
          | none => exact absurd here List.not_mem_nil
          | some asked =>
              obtain ⟨sameLocation, isThere⟩ := mem_child_iff.mp here
              refine ⟨[], .key asked, fun _ same => (by cases same; rfl), sameLocation, ?_⟩
              rw [List.nil_append, valueAt?_singleton]
              exact isThere
        · have isThere := (mem_entries_iff distinct).mp isPart
          rcases List.mem_append.mp inPart with here | inside
          · cases name with
            | some asked => exact absurd here List.not_mem_nil
            | none =>
                rw [unnamed, List.mem_singleton] at here
                subst here
                refine ⟨[], step, fun _ impossible => (by cases impossible), rfl, ?_⟩
                rw [List.nil_append, valueAt?_singleton]
                exact isThere
          · obtain ⟨front, last, isAsked, sameLocation, isInside⟩ :=
              (inductionHypothesis step part isPart).mp inside
            refine ⟨step :: front, last, isAsked, ?_, ?_⟩
            · rw [sameLocation]
              simp
            · rw [List.cons_append, valueAt?, isThere]
              exact isInside
      · rintro ⟨front, last, isAsked, sameLocation, isInside⟩
        cases front with
        | nil =>
            rw [List.nil_append] at sameLocation isInside
            rw [valueAt?_singleton] at isInside
            cases name with
            | some asked =>
                cases isAsked asked rfl
                exact Or.inl (mem_child_iff.mpr ⟨sameLocation, isInside⟩)
            | none =>
                refine Or.inr ⟨(last, node.value), (mem_entries_iff distinct).mpr isInside, ?_⟩
                apply List.mem_append_left
                rw [unnamed, List.mem_singleton, ← sameLocation]
        | cons first front =>
            rw [List.cons_append, valueAt?, Option.bind_eq_bind, Option.bind_eq_some_iff]
              at isInside
            obtain ⟨part, isThere, isDeeper⟩ := isInside
            have isPart := (mem_entries_iff distinct).mpr isThere
            refine Or.inr ⟨(first, part), isPart, List.mem_append_right _ ?_⟩
            refine (inductionHypothesis first part isPart).mpr ⟨front, last, isAsked, ?_, isDeeper⟩
            rw [sameLocation]
            simp

/-- What a segment without a condition leads to. -/
theorem mem_select_iff {document : Json} {segment : Segment} (open_ : segment.isFilter = false)
    {start node : Node} (distinct : start.value.HasDistinctNames) :
    node ∈ select document segment start ↔ ∃ front step,
      (front = [] ∨ segment.descends = true) ∧
        segment.accepts (start.value.lengthAt front) step = true ∧
        node.location = start.location ++ (front ++ [step]) ∧
        start.value.valueAt? (front ++ [step]) = some node.value := by
  -- Segments that go one step only.
  have single : segment.descends = false →
      ((∃ front step, (front = [] ∨ segment.descends = true) ∧
        segment.accepts (start.value.lengthAt front) step = true ∧
        node.location = start.location ++ (front ++ [step]) ∧
        start.value.valueAt? (front ++ [step]) = some node.value) ↔
      ∃ step, segment.accepts (start.value.lengthAt []) step = true ∧
        node.location = start.location ++ [step] ∧
        start.value.step? step = some node.value) := by
    intro stays
    simp only [stays, Bool.false_eq_true, or_false, ← valueAt?_singleton]
    constructor
    · rintro ⟨front, step, rfl, selected⟩
      exact ⟨step, selected⟩
    · rintro ⟨step, selected⟩
      exact ⟨[], step, rfl, selected⟩
  cases segment with
  | child name =>
      rw [select, single rfl, mem_child_iff]
      simp [Segment.accepts]
  | element position =>
      rw [select, single rfl, mem_element_iff]
      simp [Segment.accepts]
  | wildcard =>
      rw [select, single rfl, mem_children_iff distinct]
      simp [Segment.accepts]
  | descendants name =>
      rw [select, descendants, mem_descendantsOf_iff distinct]
      have asked : ∀ length step, (∀ asked, name = some asked → step = .key asked) ↔
          (Segment.descendants name).accepts length step = true := by
        intro length step
        cases name <;> simp [Segment.accepts]
      refine exists_congr fun front => exists_congr fun step => ?_
      rw [asked (start.value.lengthAt front)]
      simp [Segment.descends]
  | filter condition => cases open_

end Node

/-! ## Selected places -/

open Json

theorem selectAll_eq_flatMap (document : Json) (segments : List Segment) (nodes : List Node) :
    selectAll document segments nodes =
      nodes.flatMap fun node => selectAll document segments [node] := by
  induction segments generalizing nodes with
  | nil =>
      simp only [selectAll]
      exact (List.flatMap_singleton' nodes).symm
  | cons segment rest inductionHypothesis =>
      simp only [selectAll, List.flatMap_singleton]
      rw [inductionHypothesis, List.flatMap_assoc]
      congr 1
      funext node
      exact (inductionHypothesis _).symm

/-- Everything that a path selects is in the document. -/
theorem valueAt?_of_mem_select {document : Json} {segment : Segment} {start node : Node}
    (distinct : start.value.HasDistinctNames) (isIn : node ∈ select document segment start) :
    ∃ inside, node.location = start.location ++ inside ∧
      start.value.valueAt? inside = some node.value := by
  cases open_ : segment.isFilter with
  | false =>
      obtain ⟨front, step, -, -, selected⟩ := (Node.mem_select_iff open_ distinct).mp isIn
      exact ⟨front ++ [step], selected⟩
  | true =>
      have itself : ∀ {held : Bool}, node ∈ (if held = true then [start] else []) →
          ∃ inside, node.location = start.location ++ inside ∧
            start.value.valueAt? inside = some node.value := by
        intro held isThere
        cases held with
        | false => exact absurd isThere List.not_mem_nil
        | true =>
            rw [if_pos rfl, List.mem_singleton] at isThere
            subst isThere
            exact ⟨[], (List.append_nil _).symm, rfl⟩
      cases segment with
      | filter condition =>
          rw [select] at isIn
          split at isIn
          · rename_i elements same
            have isChild : node ∈ start.children := by
              rw [Node.children.eq_def, same]
              exact (List.mem_filter.mp isIn).1
            obtain ⟨step, sameLocation, isThere⟩ := (Node.mem_children_iff distinct).mp isChild
            refine ⟨[step], sameLocation, ?_⟩
            rw [valueAt?_singleton]
            exact isThere
          · exact itself isIn
      | _ => cases open_

theorem valueAt?_of_mem_selectAll {document : Json} {segments : List Segment} {start node : Node}
    (distinct : start.value.HasDistinctNames) (isIn : node ∈ selectAll document segments [start]) :
    ∃ inside, node.location = start.location ++ inside ∧
      start.value.valueAt? inside = some node.value := by
  induction segments generalizing start with
  | nil =>
      rw [selectAll, List.mem_singleton] at isIn
      subst isIn
      exact ⟨[], (List.append_nil _).symm, rfl⟩
  | cons segment rest inductionHypothesis =>
      rw [selectAll, List.flatMap_singleton, selectAll_eq_flatMap, List.mem_flatMap] at isIn
      obtain ⟨middle, isMiddle, isLast⟩ := isIn
      obtain ⟨front, sameFront, isThere⟩ := valueAt?_of_mem_select distinct isMiddle
      obtain ⟨back, sameBack, isInside⟩ := inductionHypothesis (distinct.valueAt isThere) isLast
      refine ⟨front ++ back, by rw [sameBack, sameFront, List.append_assoc], ?_⟩
      rw [valueAt?_append, isThere]
      exact isInside

/-- What segments without conditions lead to. -/
theorem mem_selectAll_iff {document : Json} {segments : List Segment}
    (open_ : ∀ segment ∈ segments, segment.isFilter = false) {start node : Node}
    (distinct : start.value.HasDistinctNames) :
    node ∈ selectAll document segments [start] ↔ ∃ inside,
      node.location = start.location ++ inside ∧ start.value.valueAt? inside = some node.value ∧
        areSelected start.value.lengthAt segments inside = true := by
  induction segments generalizing start with
  | nil =>
      rw [selectAll, List.mem_singleton]
      simp only [areSelected_nil_iff]
      constructor
      · rintro rfl
        exact ⟨[], (List.append_nil _).symm, rfl, rfl⟩
      · rintro ⟨inside, sameLocation, isThere, rfl⟩
        obtain ⟨location, value⟩ := node
        cases isThere
        rw [List.append_nil] at sameLocation
        exact congrArg (Node.mk · _) sameLocation
  | cons segment rest inductionHypothesis =>
      have first := open_ segment List.mem_cons_self
      have others := fun other isIn => open_ other (List.mem_cons_of_mem segment isIn)
      have lengths : ∀ {front step value}, start.value.valueAt? (front ++ [step]) = some value →
          (fun inside => start.value.lengthAt (front ++ step :: inside)) = value.lengthAt := by
        intro front step value isMiddle
        funext inside
        rw [List.append_cons, lengthAt_append isMiddle]
      rw [selectAll, List.flatMap_singleton, selectAll_eq_flatMap, List.mem_flatMap]
      simp only [areSelected_cons_iff, Node.mem_select_iff first distinct]
      constructor
      · rintro ⟨middle, ⟨front, step, goesOn, accepted, sameMiddle, isMiddle⟩, isLast⟩
        obtain ⟨back, sameLast, isThere, selected⟩ :=
          (inductionHypothesis others (distinct.valueAt isMiddle)).mp isLast
        refine ⟨front ++ step :: back, ?_, ?_, front, step, back, rfl, goesOn, accepted, ?_⟩
        · rw [sameLast, sameMiddle]
          simp
        · rw [List.append_cons, valueAt?_append, isMiddle]
          exact isThere
        · rw [lengths isMiddle]
          exact selected
      · rintro ⟨inside, sameLast, isThere, front, step, back, rfl, goesOn, accepted, selected⟩
        rw [List.append_cons, valueAt?_append, Option.bind_eq_some_iff] at isThere
        obtain ⟨value, isMiddle, isLast⟩ := isThere
        refine ⟨⟨start.location ++ (front ++ [step]), value⟩,
          ⟨front, step, goesOn, accepted, rfl, isMiddle⟩, ?_⟩
        refine (inductionHypothesis others (distinct.valueAt isMiddle)).mpr
          ⟨back, ?_, isLast, ?_⟩
        · rw [sameLast]
          simp
        · rw [← lengths isMiddle]
          exact selected

namespace Path

/-- The places that a path without conditions selects. -/
theorem mem_locate_iff {path : Path}
    (open_ : ∀ segment ∈ path.segments, segment.isFilter = false) {document : Json}
    (distinct : document.HasDistinctNames) {location : Location} :
    location ∈ path.locate document ↔ (document.valueAt? location).isSome ∧
      areSelected document.lengthAt path.segments location = true := by
  have root : (Node.mk [] document).value.HasDistinctNames := distinct
  simp only [locate, nodes, List.mem_map, mem_selectAll_iff open_ root]
  constructor
  · rintro ⟨node, ⟨inside, sameLocation, isThere, selected⟩, rfl⟩
    rw [List.nil_append] at sameLocation
    rw [sameLocation, isThere]
    exact ⟨rfl, selected⟩
  · intro both
    obtain ⟨value, isThere⟩ := Option.isSome_iff_exists.mp both.1
    exact ⟨⟨location, value⟩, ⟨location, rfl, isThere, both.2⟩, rfl⟩

theorem valueAt?_of_mem_nodes {path : Path} {document : Json} (distinct : document.HasDistinctNames)
    {node : Node} (isIn : node ∈ path.nodes document) :
    document.valueAt? node.location = some node.value := by
  obtain ⟨inside, sameLocation, isThere⟩ := valueAt?_of_mem_selectAll distinct isIn
  rw [List.nil_append] at sameLocation
  rw [sameLocation]
  exact isThere

theorem isSome_of_mem_locate {path : Path} {document : Json} (distinct : document.HasDistinctNames)
    {location : Location} (isIn : location ∈ path.locate document) :
    (document.valueAt? location).isSome := by
  obtain ⟨node, isNode, rfl⟩ := List.mem_map.mp isIn
  rw [valueAt?_of_mem_nodes distinct isNode]
  rfl

/-- The places other than the root that a path selects. -/
def removed (path : Path) (document : Json) : Places :=
  placesOf ((path.locate document).filter fun location => !location.isEmpty)

theorem removed_eq_true_iff {path : Path} {document : Json} {location : Location} :
    path.removed document location = true ↔ location ∈ path.locate document ∧ location ≠ [] := by
  simp [removed, placesOf]

end Path

/-- Deleting counts the selected places other than the root, each once, and leaves the
document without them. -/
theorem Json.delete_of_parse {document : Json} (distinct : document.HasDistinctNames)
    {text : String} {path : Path} (read : Path.parse text = .ok path) :
    document.delete text =
      .ok ((Location.descending
        ((path.locate document).filter fun location => !location.isEmpty)).length,
          document.without (path.removed document)) := by
  rw [delete, read]
  simp only [bind, Except.bind]
  rw [removeAll_descending distinct]
  · rfl
  · simp
  · intro location isIn
    exact Path.isSome_of_mem_locate distinct (List.mem_filter.mp isIn).1

/-- Deleting leaves the document without the places that the path selects, and
counts none only if there are none. -/
theorem Json.delete_eq {document : Json} (distinct : document.HasDistinctNames) {text : String}
    {path : Path} (read : Path.parse text = .ok path) :
    ∃ count, document.delete text = .ok (count, document.without (path.removed document)) ∧
      (count = 0 ↔ ∀ location, path.removed document location = false) := by
  refine ⟨_, delete_of_parse distinct read, ?_⟩
  rw [List.length_eq_zero_iff, List.eq_nil_iff_forall_not_mem]
  apply forall_congr'
  intro location
  rw [Location.mem_descending, Path.removed, placesOf, decide_eq_false_iff_not]

end BodyContract
