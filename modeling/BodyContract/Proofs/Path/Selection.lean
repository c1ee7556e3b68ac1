import BodyContract.Path.Evaluation
import BodyContract.Proofs.Path.Hop

/-!
# What the paths of recorded chains select

`follow` leads from a value along hops to the values that they select, without
any text or segment.  A parsed path of hops selects exactly these values, and a
condition behind them keeps those on which it holds.
-/

namespace BodyContract

namespace Json

/-- The elements of an array, or the values of the members of an object. -/
def parts : Json → List Json
  | .array elements => elements
  | .object members => members.map (·.2)
  | _ => []

/-- What a filter tests: the elements of an array, any other value itself. -/
def items : Json → List Json
  | .array elements => elements
  | value => [value]

theorem items_of_not_array {value : Json} (notArray : ∀ elements, value ≠ .array elements) :
    value.items = [value] := by
  cases value with
  | array elements => exact absurd rfl (notArray elements)
  | null => rfl
  | bool flag => rfl
  | number value => rfl
  | string text => rfl
  | object members => rfl

end Json

/-- The values that a hop leads to. -/
def Hop.next : Hop → Json → List Json
  | .member name, value => (value.member? name).toList
  | .every, value => value.parts
  | .position index, value => (value.element? index).toList

/-- The values that hops lead to, in the order of the document. -/
def follow : List Hop → Json → List Json
  | [], value => [value]
  | hop :: rest, value => (hop.next value).flatMap (follow rest)

@[simp]
theorem follow_nil (value : Json) : follow [] value = [value] := rfl

theorem follow_append (front back : List Hop) (value : Json) :
    follow (front ++ back) value = (follow front value).flatMap (follow back) := by
  induction front generalizing value with
  | nil => rw [List.nil_append, follow_nil, List.flatMap_singleton]
  | cons hop rest inductionHypothesis =>
      rw [List.cons_append, follow, follow, List.flatMap_assoc]
      congr 1
      funext next
      exact inductionHypothesis next

theorem follow_singleton (hop : Hop) (value : Json) : follow [hop] value = hop.next value := by
  have nothingMore : follow [] = fun last => [last] := rfl
  rw [follow, nothingMore, List.flatMap_singleton']

theorem mem_follow_append {front back : List Hop} {value last : Json} :
    last ∈ follow (front ++ back) value ↔
      ∃ middle ∈ follow front value, last ∈ follow back middle := by
  rw [follow_append, List.mem_flatMap]

theorem follow_member {hops : List Hop} {body : Json} {members : List (String × Json)}
    (here : follow hops body = [.object members]) {name : String} {value : Json}
    (isThere : members.lookup name = some value) :
    follow (hops ++ [.member name]) body = [value] := by
  rw [follow_append, here, List.flatMap_singleton, follow_singleton, Hop.next, Json.member?,
    isThere]
  rfl

theorem follow_position {hops : List Hop} {body : Json} {elements : List Json}
    (here : follow hops body = [.array elements]) {index : Nat} {value : Json}
    (isThere : elements[index]? = some value) :
    follow (hops ++ [.position index]) body = [value] := by
  rw [follow_append, here, List.flatMap_singleton, follow_singleton, Hop.next, Json.element?,
    isThere]
  rfl

theorem follow_every {hops : List Hop} {body : Json} {elements : List Json}
    (here : follow hops body = [.array elements]) :
    follow (hops ++ [.every]) body = elements := by
  rw [follow_append, here, List.flatMap_singleton, follow_singleton, Hop.next, Json.parts]

/-! ## Selected nodes -/

theorem map_value_ofElements (location : Location) (position : Nat) (elements : List Json) :
    (Node.ofElements location position elements).map (·.value) = elements := by
  induction elements generalizing position with
  | nil => rfl
  | cons element rest inductionHypothesis =>
      rw [Node.ofElements, List.map_cons, inductionHypothesis]

theorem map_value_children (node : Node) : node.children.map (·.value) = node.value.parts := by
  rw [Node.children.eq_def]
  cases node.value with
  | array elements => exact map_value_ofElements node.location 0 elements
  | object members =>
      simp [Node.ofMembers, Json.parts]
  | null => rfl
  | bool flag => rfl
  | number value => rfl
  | string text => rfl

theorem map_value_child (node : Node) (name : String) :
    (node.child name).map (·.value) = (node.value.member? name).toList := by
  rw [Node.child]
  cases node.value.member? name with
  | none => rfl
  | some value => rfl

theorem map_value_element (node : Node) (index : Nat) :
    (node.element index).map (·.value) = (node.value.element? index).toList := by
  rw [Node.element]
  cases node.value with
  | array elements =>
      simp only [Node.place?, Int.natCast_nonneg, if_true, Int.toNat_natCast, Json.element?]
      cases elements[index]? with
      | none => rfl
      | some value => rfl
  | object members => rfl
  | null => rfl
  | bool flag => rfl
  | number value => rfl
  | string text => rfl

theorem map_value_select_hop (document : Json) (hop : Hop) (node : Node) :
    (select document hop.segment node).map (·.value) = hop.next node.value := by
  cases hop with
  | member name => exact map_value_child node name
  | every => exact map_value_children node
  | position index => exact map_value_element node index

theorem selectAll_append (document : Json) (front back : List Segment) (nodes : List Node) :
    selectAll document (front ++ back) nodes =
      selectAll document back (selectAll document front nodes) := by
  induction front generalizing nodes with
  | nil => rfl
  | cons segment rest inductionHypothesis =>
      rw [List.cons_append, selectAll, selectAll, inductionHypothesis]

theorem map_value_selectAll (document : Json) (hops : List Hop) (nodes : List Node) :
    (selectAll document (hops.map Hop.segment) nodes).map (·.value) =
      (nodes.map (·.value)).flatMap (follow hops) := by
  induction hops generalizing nodes with
  | nil =>
      have nothingMore : follow [] = fun last => [last] := rfl
      rw [List.map_nil, selectAll, nothingMore, List.flatMap_singleton']
  | cons hop rest inductionHypothesis =>
      rw [List.map_cons, selectAll, inductionHypothesis, List.map_flatMap, List.flatMap_map,
        List.flatMap_assoc]
      congr 1
      funext node
      rw [map_value_select_hop, follow]

/-- A path of hops selects what the hops lead to. -/
theorem evaluate_hops (text : String) (hops : List Hop) (document : Json) :
    (Path.mk text (hops.map Hop.segment)).evaluate document = follow hops document := by
  rw [Path.evaluate, Path.nodes, map_value_selectAll]
  simp

/-! ## Conditions -/

/-- Whether hops lead to one value at most. -/
def AreSingle (hops : List Hop) : Prop := ∀ hop ∈ hops, hop ≠ .every

/-- Whether all hops go to members. -/
def AreNames (hops : List Hop) : Prop := ∀ hop ∈ hops, ∃ name, hop = .member name

theorem AreNames.areSingle {hops : List Hop} (named : AreNames hops) : AreSingle hops := by
  intro hop member
  obtain ⟨name, rfl⟩ := named hop member
  exact Hop.noConfusion

theorem length_follow_le_one {hops : List Hop} (single : AreSingle hops) (value : Json) :
    (follow hops value).length ≤ 1 := by
  induction hops generalizing value with
  | nil => exact Nat.le_refl 1
  | cons hop rest inductionHypothesis =>
      have others : AreSingle rest := fun other member =>
        single other (List.mem_cons_of_mem hop member)
      have atMostOne : ∀ found : Option Json,
          (found.toList.flatMap (follow rest)).length ≤ 1 := by
        intro found
        cases found with
        | none => exact Nat.zero_le 1
        | some next =>
            rw [Option.toList_some, List.flatMap_singleton]
            exact inductionHypothesis others next
      rw [follow]
      cases hop with
      | member name => exact atMostOne (value.member? name)
      | every => exact absurd rfl (single .every List.mem_cons_self)
      | position index => exact atMostOne (value.element? index)

theorem areDefinite_map_segment {hops : List Hop} (single : AreSingle hops) :
    areDefinite (hops.map Hop.segment) = true := by
  rw [areDefinite, List.all_map, List.all_eq_true]
  intro hop member
  cases hop with
  | member name => rfl
  | every => exact absurd rfl (single .every member)
  | position index => rfl

theorem resolve?_current {inside : List Hop} (single : AreSingle inside)
    (document value : Json) :
    resolve? document (.current (inside.map Hop.segment) false) value =
      (follow inside value).head? := by
  have values := map_value_selectAll document inside [⟨[], value⟩]
  rw [List.map_cons, List.map_nil, List.flatMap_singleton] at values
  rw [resolve?, operandValue?, areDefinite_map_segment single, ← values]
  cases selectAll document (inside.map Hop.segment) [⟨[], value⟩] with
  | nil => rfl
  | cons node others => rfl

/-- A condition holds where what its hops lead to equals the literal. -/
theorem holds_condition_iff {inside : List Hop} (single : AreSingle inside)
    (document read value : Json) :
    holds document (Path.condition inside read) value = true ↔
      ∃ found ∈ follow inside value, found.equalsInFilter read = true := by
  have few := length_follow_le_one single value
  have unfolded : holds document (Path.condition inside read) value =
      (follow inside value).head?.any fun found => found.equalsInFilter read := by
    rw [Path.condition, holds]
    · rw [resolve?_current single, resolve?]
      cases (follow inside value).head? with
      | none => rfl
      | some found => rfl
    · intro pattern same
      cases same
  rw [unfolded]
  cases found : follow inside value with
  | nil => simp
  | cons first others =>
      rw [found] at few
      have none_ : others = [] := by
        apply List.eq_nil_of_length_eq_zero
        rw [List.length_cons] at few
        omega
      simp [none_]

theorem map_value_select_filter (document : Json) (condition : Condition) (node : Node) :
    (select document (.filter condition) node).map (·.value) =
      node.value.items.filter fun item => holds document condition item := by
  have one : (if holds document condition node.value then [node] else []).map (·.value) =
      [node.value].filter fun item => holds document condition item := by
    by_cases held : holds document condition node.value = true
    · simp [held]
    · simp [held]
  obtain ⟨location, value⟩ := node
  rw [select]
  cases value with
  | array elements =>
      have values := List.filter_map (p := fun item => holds document condition item)
        (f := fun node : Node => node.value) (l := Node.ofElements location 0 elements)
      rw [map_value_ofElements] at values
      exact values.symm
  | object members => exact one
  | null => exact one
  | bool flag => exact one
  | number value => exact one
  | string text => exact one

/-- A filter behind a path tests the items of what the path selects. -/
theorem evaluate_filter (text front : String) (segments : List Segment) (condition : Condition)
    (document : Json) :
    (Path.mk text (segments ++ [.filter condition])).evaluate document =
      ((Path.mk front segments).evaluate document).flatMap fun value =>
        value.items.filter fun item => holds document condition item := by
  rw [Path.evaluate, Path.nodes, selectAll_append, selectAll, selectAll, List.map_flatMap,
    Path.evaluate, Path.nodes, List.flatMap_map]
  congr 1
  funext node
  exact map_value_select_filter document condition node

theorem evaluate_filter_ne_nil_iff (text front : String) (segments : List Segment)
    (condition : Condition) (document : Json) :
    (Path.mk text (segments ++ [.filter condition])).evaluate document ≠ [] ↔
      ∃ value ∈ (Path.mk front segments).evaluate document, ∃ item ∈ value.items,
        holds document condition item = true := by
  rw [evaluate_filter text front, ne_eq, List.flatMap_eq_nil_iff]
  simp only [List.filter_eq_nil_iff, not_forall, not_not, exists_prop]

/-- Whether some value equal to a literal is found by a condition behind hops. -/
def Finds (hops inside : List Hop) (read document : Json) : Prop :=
  ∃ value ∈ follow hops document, ∃ item ∈ value.items, ∃ found ∈ follow inside item,
    found.equalsInFilter read = true

/-- Whether a condition behind hops finds a value that passes a test. -/
def FindsSome (hops inside : List Hop) (test : Json → Bool) (document : Json) : Prop :=
  ∃ value ∈ follow hops document, ∃ item ∈ value.items, ∃ found ∈ follow inside item,
    test found = true

/-- A value that hops lead to is found by a condition on the last names. -/
theorem findsSome_of_mem {front inside : List Hop} (named : AreNames inside)
    {value document : Json} {test : Json → Bool} (found : value ∈ follow (front ++ inside) document)
    (notArray : ∀ elements, value ≠ .array elements) (passes : test value = true) :
    FindsSome front inside test document := by
  obtain ⟨middle, isThere, later⟩ := mem_follow_append.mp found
  refine ⟨middle, isThere, middle, ?_, value, later, passes⟩
  cases inside with
  | nil =>
      rw [follow_nil, List.mem_singleton] at later
      rw [← later, Json.items_of_not_array notArray]
      exact List.mem_singleton_self value
  | cons hop rest =>
      obtain ⟨name, rfl⟩ := named hop List.mem_cons_self
      cases middle with
      | array elements => exact absurd later List.not_mem_nil
      | null => exact absurd later List.not_mem_nil
      | bool flag => exact absurd later List.not_mem_nil
      | number number => exact absurd later List.not_mem_nil
      | string text => exact absurd later List.not_mem_nil
      | object members => exact List.mem_singleton_self _

theorem finds_of_mem {front inside : List Hop} (named : AreNames inside) {value read document : Json}
    (found : value ∈ follow (front ++ inside) document)
    (notArray : ∀ elements, value ≠ .array elements) (equal : value.equalsInFilter read = true) :
    Finds front inside read document :=
  findsSome_of_mem named found notArray equal

/-- A path with a condition selects something exactly if the condition finds
something. -/
theorem evaluate_hops_condition_ne_nil_iff (text : String) (hops : List Hop) {inside : List Hop}
    (single : AreSingle inside) (read document : Json) :
    (Path.mk text (hops.map Hop.segment ++
        [.filter (Path.condition inside read)])).evaluate document ≠ [] ↔
      Finds hops inside read document := by
  rw [evaluate_filter_ne_nil_iff text text, evaluate_hops]
  simp only [holds_condition_iff single]
  rfl

end BodyContract
