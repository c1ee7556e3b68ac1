import BodyContract.Proofs.Path.Descent
import BodyContract.Proofs.Path.Reading

/-!
# The order of matches

Segments that do not descend keep nodes in document order as long as none lies inside
another: each leads from a node to some of what is inside of it, in order.  A descent to
everything at the end keeps the order, too.  A descent to a name does so as long as no
member overtakes a place, and what is found by a descent may lie in one another.
-/

namespace BodyContract

open Json

/-- Nodes of a document, in its order and none inside another. -/
structure AreApart (document : Json) (nodes : List Node) : Prop where
  placed : ∀ node ∈ nodes, document.valueAt? node.location = some node.value
  aside : nodes.Pairwise fun first second => document.IsAside first.location second.location

variable {document : Json} {nodes : List Node} {node : Node} {segment : Segment}

/-- What a segment that does not descend leads to from one node. -/
theorem pairwise_isAside_select (distinct : node.value.HasDistinctNames)
    (isThere : document.valueAt? node.location = some node.value)
    (shallow : segment.descends = false) :
    (select document segment node).Pairwise fun first second =>
      document.IsAside first.location second.location := by
  have parts : node.children.Pairwise fun first second =>
      document.IsAside first.location second.location := by
    rw [Node.children_eq, List.pairwise_map]
    exact pairwise_isAside_entries distinct isThere
  cases segment with
  | child name =>
      rw [select, Node.child]
      split <;> simp
  | element position =>
      rw [select, Node.element]
      split
      · split
        · exact .nil
        · split <;> simp
      · exact .nil
  | wildcard => exact parts
  | descendants name => cases shallow
  | filter condition =>
      rw [select]
      split
      · rename_i elements same
        rw [Node.children.eq_def, same] at parts
        exact parts.filter _
      · split <;> simp

theorem exists_inside_of_mem_select {inner : Node} (distinct : node.value.HasDistinctNames)
    (isInner : inner ∈ select document segment node) :
    ∃ inside, inner.location = node.location ++ inside ∧
      (segment.descends = true → inside ≠ []) := by
  cases descends : segment.descends with
  | false =>
      obtain ⟨inside, sameLocation, -⟩ := valueAt?_of_mem_select distinct isInner
      exact ⟨inside, sameLocation, fun impossible => by cases impossible⟩
  | true =>
      have open_ : segment.isFilter = false := by
        cases segment <;> first | rfl | cases descends
      obtain ⟨front, step, -, -, sameLocation, -⟩ := (Node.mem_select_iff open_ distinct).mp isInner
      exact ⟨front ++ [step], sameLocation, fun _ => List.concat_ne_nil step front⟩

namespace AreApart

/-- A relation that holds inside of each node and between different parts holds of all that
a segment leads to. -/
theorem pairwise_select (apart : AreApart document nodes) (distinct : document.HasDistinctNames)
    {relation : Location → Location → Prop}
    (each : ∀ node ∈ nodes, (select document segment node).Pairwise fun first second =>
      relation first.location second.location)
    (across : ∀ {first second rest others : Location}, document.IsAside first second →
      (segment.descends = true → others ≠ []) → relation (first ++ rest) (second ++ others)) :
    (nodes.flatMap fun node => select document segment node).Pairwise fun first second =>
      relation first.location second.location := by
  rw [List.pairwise_flatMap]
  refine ⟨each, apart.aside.imp_of_mem ?_⟩
  intro node other isNode isOther aside first isFirst second isSecond
  obtain ⟨rest, sameFirst, -⟩ :=
    exists_inside_of_mem_select (distinct.valueAt (apart.placed node isNode)) isFirst
  obtain ⟨others, sameSecond, inside⟩ :=
    exists_inside_of_mem_select (distinct.valueAt (apart.placed other isOther)) isSecond
  rw [sameFirst, sameSecond]
  exact across aside inside

/-- A segment that does not descend keeps nodes apart. -/
theorem select (apart : AreApart document nodes) (distinct : document.HasDistinctNames)
    (shallow : segment.descends = false) :
    AreApart document (nodes.flatMap fun node => select document segment node) where
  placed := by
    intro inner isIn
    obtain ⟨node, isNode, isInner⟩ := List.mem_flatMap.mp isIn
    have isThere := apart.placed node isNode
    obtain ⟨inside, sameLocation, isInside⟩ :=
      valueAt?_of_mem_select (distinct.valueAt isThere) isInner
    rw [sameLocation, valueAt?_append, isThere]
    exact isInside
  aside := by
    apply apart.pairwise_select distinct
    · intro node isNode
      have isThere := apart.placed node isNode
      exact pairwise_isAside_select (distinct.valueAt isThere) isThere shallow
    · intro first second rest others aside _
      exact aside.append rest others

theorem selectAll (apart : AreApart document nodes) (distinct : document.HasDistinctNames)
    {segments : List Segment} (shallow : ∀ segment ∈ segments, segment.descends = false) :
    AreApart document (selectAll document segments nodes) := by
  induction segments generalizing nodes with
  | nil => exact apart
  | cons segment rest inductionHypothesis =>
      rw [BodyContract.selectAll]
      exact inductionHypothesis (apart.select distinct (shallow segment List.mem_cons_self))
        fun other isIn => shallow other (List.mem_cons_of_mem segment isIn)

/-- What a descent to everything finds from nodes that are apart. -/
theorem areInOrder_descendants (apart : AreApart document nodes)
    (distinct : document.HasDistinctNames) :
    document.AreInOrder ((nodes.flatMap fun node =>
      BodyContract.select document (.descendants none) node).map (·.location)) := by
  rw [AreInOrder, List.pairwise_map]
  apply apart.pairwise_select distinct
  · intro node isNode
    have isThere := apart.placed node isNode
    rw [BodyContract.select, Node.descendants]
    exact (Node.pairwise_isNotAfter (distinct.valueAt isThere) isThere).imp And.right
  · intro first second rest others aside _
    exact Or.inr (aside.append rest others)

/-- What a descent to a name finds from nodes that are apart. -/
theorem pairwise_isFoundBefore (apart : AreApart document nodes)
    (distinct : document.HasDistinctNames) (name : String) :
    ((nodes.flatMap fun node => BodyContract.select document (.descendants (some name)) node).map
      (·.location)).Pairwise document.IsFoundBefore := by
  rw [List.pairwise_map]
  apply apart.pairwise_select distinct
  · intro node isNode
    have isThere := apart.placed node isNode
    rw [BodyContract.select, Node.descendants]
    exact Node.pairwise_isFoundBefore (distinct.valueAt isThere) isThere name
  · intro first second rest others aside inside
    exact aside.isFoundBefore rest (inside rfl)

theorem areInOrder (apart : AreApart document nodes) :
    document.AreInOrder (nodes.map (·.location)) := by
  rw [AreInOrder, List.pairwise_map]
  exact apart.aside.imp Or.inr

end AreApart

namespace Path

/-- From places in document order of which none lies inside another, as the root alone, a
path without descents but at its end selects in document order; if it ends in a descent to
a name, it does so exactly if no member that is found overtakes a place that is found. -/
theorem locate_areInOrder_iff (document : Json) (distinct : document.HasDistinctNames)
    (path front : Path) (back : List Segment) (split : path.segments = front.segments ++ back)
    (apart : (front.locate document).Pairwise document.IsAside)
    (shallow : ∀ segment ∈ back.dropLast, segment.descends = false) :
    document.AreInOrder (path.locate document) ↔
      ∀ name, back.getLast? = some (.descendants (some name)) →
        ∀ member ∈ path.locate document, ∀ place ∈ path.locate document,
          ¬document.Overtakes member place := by
  have frontApart : AreApart document (front.nodes document) := by
    refine ⟨fun node isIn => valueAt?_of_mem_nodes distinct isIn, ?_⟩
    rw [locate, List.pairwise_map] at apart
    exact apart
  have selected : path.nodes document = selectAll document back (front.nodes document) := by
    rw [nodes, split, selectAll_append, nodes]
  rw [locate, selected]
  rcases List.eq_nil_or_concat' back with rfl | ⟨init, last, rfl⟩
  · exact iff_of_true frontApart.areInOrder (fun name impossible => by cases impossible)
  · rw [List.dropLast_concat] at shallow
    have initApart := frontApart.selectAll distinct shallow
    rw [selectAll_append, selectAll, selectAll, List.getLast?_concat]
    cases descends : last.descends with
    | false =>
        refine iff_of_true (initApart.select distinct descends).areInOrder ?_
        rintro name same
        cases same
        cases descends
    | true =>
        cases last with
        | descendants name =>
            cases name with
            | none =>
                exact iff_of_true (initApart.areInOrder_descendants distinct)
                  (fun name impossible => by cases impossible)
            | some name =>
                rw [areInOrder_iff_of_isFoundBefore (initApart.pairwise_isFoundBefore distinct name)]
                constructor
                · intro none _ _
                  exact none
                · intro none
                  exact none name rfl
        | _ => cases descends

/-- A shop with prices in its books and one of its own behind them. -/
def shop : Json :=
  .object [("shop", .object [("book", .array [.object [("price", .int 3)],
    .object [("price", .int 5)]]), ("price", .int 1)])]

theorem shop_distinct : shop.HasDistinctNames := by
  have book : ∀ price : Int, (Json.object [("price", .int price)]).HasDistinctNames := by
    intro price
    exact .object (by simp) (by simpa using .leaf rfl)
  have books : (Json.array [.object [("price", .int 3)],
      .object [("price", .int 5)]]).HasDistinctNames := .array (by simp [book])
  have price : (Json.int 1).HasDistinctNames := .leaf rfl
  have inside : (Json.object [("book", .array [.object [("price", .int 3)],
      .object [("price", .int 5)]]), ("price", .int 1)]).HasDistinctNames :=
    .object (by decide) (by simp [books, price])
  exact .object (by simp) (by simpa using inside)

/-- The prices of the books are found in order.  A descent to all prices finds that of the shop
too early. -/
theorem locate_shop_areInOrder_iff : shop.HasDistinctNames ∧
    (locate ⟨"$..book", [.descendants (some "book")]⟩ shop).Pairwise shop.IsAside ∧
    (∀ segment ∈ [Segment.wildcard, .child "price"].dropLast, segment.descends = false) ∧
    shop.AreInOrder
      (locate ⟨"$..book[*].price", [.descendants (some "book"), .wildcard, .child "price"]⟩ shop) ∧
    (locate ⟨"$", []⟩ shop).Pairwise shop.IsAside ∧
    ¬shop.AreInOrder (locate ⟨"$..price", [.descendants (some "price")]⟩ shop) := by
  have books : (locate ⟨"$..book", [.descendants (some "book")]⟩ shop).Pairwise shop.IsAside :=
    List.pairwise_singleton _ _
  have root : (locate ⟨"$", []⟩ shop).Pairwise shop.IsAside := List.pairwise_singleton _ _
  have shallow : ∀ segment ∈ [Segment.wildcard, .child "price"].dropLast,
      segment.descends = false := by simp [Segment.descends]
  refine ⟨shop_distinct, books, shallow, ?_, root, ?_⟩
  · rw [locate_areInOrder_iff shop shop_distinct _ ⟨"$..book", [.descendants (some "book")]⟩
      [.wildcard, .child "price"] rfl books shallow]
    rintro name impossible
    cases impossible
  · rw [locate_areInOrder_iff shop shop_distinct _ ⟨"$", []⟩ [.descendants (some "price")] rfl root
      (by simp)]
    intro none
    apply none "price" rfl [.key "shop", .key "price"] (by decide +kernel)
      [.key "shop", .key "book", .index 0, .key "price"] (by decide +kernel)
    exact ⟨by decide, .inside rfl (.parts (by decide))⟩

/-- A member of a name that stands behind a sibling with one inside is found too early, and so
are parts of a value whose other parts hold something, where both are found first. -/
theorem locate_not_areInOrder :
    (∃ path, parse "$..b" = .ok path ∧
      ¬(Json.object [("a", .object [("b", .int 1)]), ("b", .int 2)]).AreInOrder
        (path.locate (.object [("a", .object [("b", .int 1)]), ("b", .int 2)]))) ∧
      ∃ path, parse "$..*.*" = .ok path ∧
        ¬(Json.array [.array [.array [.int 1], .int 2]]).AreInOrder
          (path.locate (.array [.array [.array [.int 1], .int 2]])) := by
  refine ⟨⟨⟨"$..b", [.descendants (some "b")]⟩, rfl, ?_⟩,
    ⟨"$..*.*", [.descendants none, .wildcard]⟩, rfl, ?_⟩
  · intro inOrder
    have early := (List.pairwise_cons.mp inOrder).1 [.key "a", .key "b"] (by decide +kernel)
    exact early.not_isAside (.parts (by decide))
  · intro inOrder
    have later := (List.pairwise_cons.mp inOrder).2
    have early := (List.pairwise_cons.mp later).1 [.index 0, .index 0, .index 0] (by decide +kernel)
    exact early.not_isAside (.inside rfl (.parts (by decide)))

end Path

end BodyContract
