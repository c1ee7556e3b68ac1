import BodyContract.Proofs.Path.Deletion

/-!
# Values and their locations

A path selects values and locations alike, one by one: each location leads to the value
in the same place of the list.  A path of names and positions only leads to one value at
most, and reading gives this value.
-/

namespace BodyContract

variable {document : Json} {path : Path} {text : String}

theorem length_select_le_one {segment : Segment} (definite : segment.isDefinite = true)
    (document : Json) (node : Node) : (select document segment node).length ≤ 1 := by
  cases segment with
  | child name =>
      rw [select, Node.child]
      split <;> simp
  | element position =>
      rw [select, Node.element]
      split
      · split
        · simp
        · split <;> simp
      · simp
  | _ => cases definite

/-- Segments that lead to one value at most do so. -/
theorem length_selectAll_le_one {segments : List Segment} (definite : areDefinite segments = true)
    (document : Json) {nodes : List Node} (few : nodes.length ≤ 1) :
    (selectAll document segments nodes).length ≤ 1 := by
  induction segments generalizing nodes with
  | nil => exact few
  | cons segment rest inductionHypothesis =>
      rw [areDefinite, List.all_cons, Bool.and_eq_true] at definite
      rw [selectAll]
      apply inductionHypothesis definite.2
      cases nodes with
      | nil => exact Nat.zero_le 1
      | cons node others =>
          have alone : others = [] := by
            apply List.eq_nil_of_length_eq_zero
            rw [List.length_cons] at few
            omega
          rw [alone, List.flatMap_singleton]
          exact length_select_le_one definite.1 document node

namespace Path

/-- A definite path selects one node or none. -/
theorem nodes_of_isDefinite (definite : path.isDefinite = true) (document : Json) :
    path.nodes document = [] ∨ ∃ node, path.nodes document = [node] := by
  have few : (path.nodes document).length ≤ 1 :=
    length_selectAll_le_one definite document (Nat.le_refl 1)
  cases selected : path.nodes document with
  | nil => exact Or.inl rfl
  | cons node others =>
      rw [selected, List.length_cons] at few
      rw [List.eq_nil_of_length_eq_zero (by omega : others.length = 0)]
      exact Or.inr ⟨node, rfl⟩

end Path

/-- At a definite path the only match is read, and it is an error if there is none. -/
theorem Json.readElement_of_isDefinite (parsed : Path.parse text = .ok path)
    (definite : path.isDefinite = true) (document : Json) :
    (path.nodes document = [] ∧ document.readElement text = .error (.notFound text)) ∨
      ∃ node, path.nodes document = [node] ∧ document.readElement text = .ok node.value := by
  rcases path.nodes_of_isDefinite definite document with none | ⟨node, single⟩
  · have nothing : path.evaluate document = [] := by rw [Path.evaluate, none]; rfl
    refine Or.inl ⟨none, ?_⟩
    rw [readElement, parsed]
    refine (if_pos definite).trans ?_
    rw [nothing]
  · have value : path.evaluate document = [node.value] := by rw [Path.evaluate, single]; rfl
    refine Or.inr ⟨node, single, ?_⟩
    rw [readElement, parsed]
    refine (if_pos definite).trans ?_
    rw [value]

/-- At any other path all matches are read, as an array. -/
theorem Json.readElement_of_not_isDefinite (parsed : Path.parse text = .ok path)
    (several : path.isDefinite = false) (document : Json) :
    document.readElement text = .ok (.array (path.evaluate document)) := by
  rw [readElement, parsed]
  exact if_neg (Bool.eq_false_iff.mp several)

/-- Where reading gives a value, it is the only match of a definite path or the array of all
matches. -/
theorem Json.of_readElement {value : Json} (read : document.readElement text = .ok value) :
    ∃ path, Path.parse text = .ok path ∧
      ((path.isDefinite = true ∧ ∃ node, path.nodes document = [node] ∧ value = node.value) ∨
        (path.isDefinite = false ∧ value = .array (path.evaluate document))) := by
  cases parsed : Path.parse text with
  | error problem =>
      rw [readElement, parsed] at read
      cases read
  | ok path =>
      refine ⟨path, rfl, ?_⟩
      cases definite : path.isDefinite with
      | true =>
          rcases readElement_of_isDefinite parsed definite document with ⟨-, missing⟩ |
            ⟨node, single, isRead⟩
          · rw [missing] at read
            cases read
          · rw [isRead] at read
            cases read
            exact Or.inl ⟨rfl, node, single, rfl⟩
      | false =>
          rw [readElement_of_not_isDefinite parsed definite] at read
          cases read
          exact Or.inr ⟨rfl, rfl⟩

namespace Path

/-- There are as many locations as values, and each location leads to the value in its place
of the list.  For a definite path there is one of both at most, and reading gives this
value. -/
theorem locate_leads_to_evaluate (document : Json) (distinct : document.HasDistinctNames)
    (path : Path) :
    (path.evaluate document).length = (path.locate document).length ∧
      (∀ index : Nat, (path.locate document)[index]?.bind document.valueAt? =
        (path.evaluate document)[index]?) ∧
      (path.isDefinite = true →
        (path.evaluate document).length ≤ 1 ∧ (path.locate document).length ≤ 1 ∧
          ∀ text, parse text = .ok path →
            (path.evaluate document = [] ∧
                document.readElement text = .error (.notFound text)) ∨
              ∃ value, path.evaluate document = [value] ∧
                document.readElement text = .ok value) := by
  refine ⟨by rw [evaluate, locate, List.length_map, List.length_map], ?_, ?_⟩
  · intro index
    rw [locate, evaluate, List.getElem?_map, List.getElem?_map]
    cases found : (path.nodes document)[index]? with
    | none => rfl
    | some node => exact valueAt?_of_mem_nodes distinct (List.mem_of_getElem? found)
  · intro definite
    have few : (path.nodes document).length ≤ 1 :=
      length_selectAll_le_one definite document (Nat.le_refl 1)
    refine ⟨by rwa [evaluate, List.length_map], by rwa [locate, List.length_map], ?_⟩
    intro text parsed
    rcases document.readElement_of_isDefinite parsed definite with ⟨none, missing⟩ |
      ⟨node, single, read⟩
    · exact Or.inl ⟨by rw [evaluate, none]; rfl, missing⟩
    · exact Or.inr ⟨node.value, by rw [evaluate, single]; rfl, read⟩

/-- An element of a list in a list. -/
def innerText : Path :=
  ⟨pathText [.member "a", .position 2, .position 0], [.child "a", .element 2, .element 0]⟩

/-- Some places are selected more than once, others lie in one another. -/
theorem locate_leads_to_evaluate_nestedTexts : nestedTexts.HasDistinctNames ∧
    (otherTexts.evaluate nestedTexts).length = (otherTexts.locate nestedTexts).length ∧
    (otherTexts.locate nestedTexts)[3]? = some [.key "a", .index 2, .index 0] ∧
    nestedTexts.valueAt? [.key "a", .index 2, .index 0] =
      (otherTexts.evaluate nestedTexts)[3]? ∧
    innerText.isDefinite = true ∧
    parse innerText.text = .ok innerText ∧
    (innerText.locate nestedTexts).length ≤ 1 ∧
    nestedTexts.readElement innerText.text = .ok (.string "z") := by
  obtain ⟨sameLength, leads, -⟩ :=
    locate_leads_to_evaluate nestedTexts nestedTexts_distinct otherTexts
  obtain ⟨-, few, reads⟩ := (locate_leads_to_evaluate nestedTexts nestedTexts_distinct
    innerText).2.2 rfl
  have place : (otherTexts.locate nestedTexts)[3]? = some [.key "a", .index 2, .index 0] := by
    decide +kernel
  have value := leads 3
  rw [place, Option.bind_some] at value
  have parsed : parse innerText.text = .ok innerText := parse_hops (by decide)
  have single : innerText.evaluate nestedTexts = [.string "z"] := rfl
  refine ⟨nestedTexts_distinct, sameLength, place, value, rfl, parsed, few, ?_⟩
  rcases reads _ parsed with ⟨none, -⟩ | ⟨only, same, read⟩
  · rw [single] at none
    cases none
  · rw [single] at same
    cases same
    exact read

end Path

end BodyContract
