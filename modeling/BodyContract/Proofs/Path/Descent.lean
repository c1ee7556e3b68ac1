import BodyContract.Proofs.Assertion.Literals
import BodyContract.Proofs.Json.Order
import BodyContract.Proofs.Path.Places

/-!
# Descents

A descent finds every member of its name, or everything but the value where it starts, at
any depth and each place once.  Everything is found in document order; the member of a
name is found before all else in its object, so it overtakes what the object holds in
earlier parts.
-/

namespace BodyContract

/-! ## The order of finding -/

namespace Json

/-- What the order in which a descent finds members of a name is like: no place is found
twice, and only members that overtake places are found too early. -/
structure IsFoundBefore (document : Json) (first second : Location) : Prop where
  different : first ≠ second
  inOrder : document.IsNotAfter first second ∨ document.Overtakes first second
  notOvertaken : ¬document.Overtakes second first

/-- What lies inside of two locations in different parts is found in document order. -/
theorem IsAside.isFoundBefore {document : Json} {first second : Location}
    (aside : document.IsAside first second) (rest : Location) {others : Location}
    (inside : others ≠ []) : document.IsFoundBefore (first ++ rest) (second ++ others) := by
  have before := aside.append rest others
  refine ⟨?_, Or.inl (Or.inr before), ?_⟩
  · intro same
    rw [same] at before
    exact before.asymm before
  · rintro ⟨around, -⟩
    have apart := aside.append rest []
    rw [List.append_nil] at apart
    rw [List.dropLast_append_of_ne_nil inside] at around
    exact apart.not_prefix_symm ((List.prefix_append _ _).trans around)

/-- What a descent to a name finds is in document order unless a member overtakes a place. -/
theorem areInOrder_iff_of_isFoundBefore {document : Json} {locations : List Location}
    (found : locations.Pairwise document.IsFoundBefore) :
    document.AreInOrder locations ↔
      ∀ member ∈ locations, ∀ place ∈ locations, ¬document.Overtakes member place := by
  constructor
  · intro inOrder member isMember place isPlace overtakes
    have symmetric : Std.Symm fun first second =>
        ¬document.Overtakes first second ∧ ¬document.Overtakes second first :=
      ⟨fun _ _ => And.symm⟩
    have neither : locations.Pairwise fun first second =>
        ¬document.Overtakes first second ∧ ¬document.Overtakes second first :=
      (inOrder.and found).imp fun both =>
        ⟨fun overtakes => both.1.not_isAside overtakes.2, both.2.notOvertaken⟩
    have different : member ≠ place := by
      rintro rfl
      exact overtakes.2.asymm overtakes.2
    exact (neither.forall isMember isPlace different).1 overtakes
  · intro none
    apply found.imp_of_mem
    intro first second isFirst isSecond foundBefore
    exact foundBefore.inOrder.resolve_right (none first isFirst second isSecond)

end Json

namespace Node

open Json

variable {document value : Json} {location : Location} {name : String} {node : Node}

theorem exists_of_mem_descendantsOf (distinct : value.HasDistinctNames)
    (isIn : node ∈ descendantsOf (some name) location value) :
    ∃ front, node.location = location ++ (front ++ [.key name]) := by
  obtain ⟨front, step, isAsked, sameLocation, -⟩ := (mem_descendantsOf_iff distinct).mp isIn
  rw [isAsked name rfl] at sameLocation
  exact ⟨front, sameLocation⟩

/-- The member of a name is found before all that lies inside of the parts of its object. -/
theorem isFoundBefore_child (distinct : value.HasDistinctNames)
    (isThere : document.valueAt? location = some value) {member : Json}
    (isMember : value.step? (.key name) = some member) (step : Step) (front : Location) :
    document.IsFoundBefore (location ++ [.key name])
      (location ++ step :: (front ++ [.key name])) := by
  refine ⟨?_, ?_, ?_⟩
  · intro same
    have inside := List.append_cancel_left same
    simp at inside
  · by_cases sameStep : .key name = step
    · subst sameStep
      left
      left
      exact (List.prefix_append_right_inj location).mpr ⟨front ++ [.key name], rfl⟩
    · rcases Nat.lt_or_gt_of_ne (rank_ne distinct isMember sameStep) with earlier | later
      · exact Or.inl (Or.inr ((isAside_append_iff isThere).mpr (.parts earlier)))
      · refine Or.inr ⟨?_, (isAside_append_iff isThere).mpr (.parts later)⟩
        rw [List.dropLast_concat]
        exact List.prefix_append _ _
  · rintro ⟨around, aside⟩
    have inside : location ++ step :: (front ++ [Step.key name]) =
        (location ++ step :: front) ++ [.key name] := by simp
    rw [inside, List.dropLast_concat, List.prefix_append_right_inj] at around
    rw [(List.cons_prefix_cons.mp around).1] at aside
    exact aside.not_prefix
      ((List.prefix_append_right_inj location).mpr ⟨front ++ [.key name], rfl⟩)

/-- In which order members of a name are found. -/
theorem pairwise_isFoundBefore (distinct : value.HasDistinctNames)
    (isThere : document.valueAt? location = some value) (name : String) :
    (descendantsOf (some name) location value).Pairwise fun first second =>
      document.IsFoundBefore first.location second.location := by
  induction distinct using HasDistinctNames.inductionOnEntries generalizing location with
  | whole value distinct inductionHypothesis =>
      rw [descendantsOf_eq, List.pairwise_append, List.pairwise_flatMap]
      refine ⟨?_, ⟨?_, ?_⟩, ?_⟩
      · rw [namedChild, child]
        split <;> simp
      · rintro ⟨step, part⟩ isPart
        exact inductionHypothesis step part isPart
          (valueAt?_of_mem_entries distinct isThere isPart)
      · apply (pairwise_isAside_entries distinct isThere).imp_of_mem
        rintro ⟨step, part⟩ ⟨other, otherPart⟩ isPart isOther aside first isFirst second isSecond
        obtain ⟨front, sameFirst⟩ :=
          exists_of_mem_descendantsOf (distinct.of_mem_entries isPart) isFirst
        obtain ⟨back, sameSecond⟩ :=
          exists_of_mem_descendantsOf (distinct.of_mem_entries isOther) isSecond
        rw [sameFirst, sameSecond]
        exact aside.isFoundBefore _ (by simp)
      · intro first isFirst second isSecond
        obtain ⟨sameFirst, isMember⟩ := mem_child_iff.mp isFirst
        obtain ⟨⟨step, part⟩, isPart, isInside⟩ := List.mem_flatMap.mp isSecond
        obtain ⟨front, sameSecond⟩ :=
          exists_of_mem_descendantsOf (distinct.of_mem_entries isPart) isInside
        rw [sameFirst, sameSecond, List.append_assoc, List.singleton_append]
        exact isFoundBefore_child distinct isThere isMember step front

/-- Everything is found in document order. -/
theorem pairwise_isNotAfter (distinct : value.HasDistinctNames)
    (isThere : document.valueAt? location = some value) :
    (descendantsOf none location value).Pairwise fun first second =>
      first.location ≠ second.location ∧
        document.IsNotAfter first.location second.location := by
  induction distinct using HasDistinctNames.inductionOnEntries generalizing location with
  | whole value distinct inductionHypothesis =>
      rw [descendantsOf_eq, namedChild, List.nil_append, List.pairwise_flatMap]
      simp only [unnamed, List.singleton_append, List.pairwise_cons]
      refine ⟨?_, ?_⟩
      · rintro ⟨step, part⟩ isPart
        refine ⟨?_, ?_⟩
        · intro node isInside
          obtain ⟨front, last, -, sameLocation, -⟩ :=
            (mem_descendantsOf_iff (distinct.of_mem_entries isPart)).mp isInside
          rw [sameLocation]
          exact ⟨by simp, Or.inl (List.prefix_append _ _)⟩
        · exact inductionHypothesis step part isPart
            (valueAt?_of_mem_entries distinct isThere isPart)
      · have inPart : ∀ {step part node}, (step, part) ∈ value.entries →
            node ∈ ⟨location ++ [step], part⟩ :: descendantsOf none (location ++ [step]) part →
              ∃ rest, node.location = location ++ [step] ++ rest := by
          intro step part node isPart isIn
          rcases List.mem_cons.mp isIn with rfl | isInside
          · exact ⟨[], (List.append_nil _).symm⟩
          · obtain ⟨front, last, -, sameLocation, -⟩ :=
              (mem_descendantsOf_iff (distinct.of_mem_entries isPart)).mp isInside
            exact ⟨_, sameLocation⟩
        apply (pairwise_isAside_entries distinct isThere).imp_of_mem
        intro entry other isPart isOther aside first isFirst second isSecond
        obtain ⟨rest, sameFirst⟩ := inPart isPart isFirst
        obtain ⟨others, sameSecond⟩ := inPart isOther isSecond
        rw [sameFirst, sameSecond]
        have before := aside.append rest others
        refine ⟨?_, Or.inr before⟩
        intro same
        rw [same] at before
        exact before.asymm before

end Node

/-! ## Descents from the root -/

namespace Path

theorem readSegments_descent {name : String} {fuel position behind : Nat}
    {inside rest : List Char} (inFilter : Bool)
    (read : readBracket (fuel + 1) ⟨position + '.'.utf8Size + '.'.utf8Size, '[' :: inside⟩ =
      .ok (.child name, ⟨behind, rest⟩)) :
    readSegments (fuel + 2) inFilter ⟨position, '.' :: '.' :: '[' :: inside⟩ =
      putFront [.descendants (some name)] (readSegments fuel inFilter ⟨behind, rest⟩) := by
  rw [readSegments]
  simp only [Cursor.skipMany, Cursor.skip, read, bind, Except.bind]
  rw [continueWith_succ]

/-- Whatever the name is, it is read back from its quotes behind the dots. -/
theorem parse_descent (name : String) :
    parse ("$..[" ++ quoteForPath name ++ "]") =
      .ok ⟨"$..[" ++ quoteForPath name ++ "]", [.descendants (some name)]⟩ := by
  have exact : (Selector.member name).isExact = true := rfl
  obtain ⟨inside, opens, -⟩ := (Selector.member name).text_begins
  have chars : ("$..[" ++ quoteForPath name ++ "]").toList = '$' :: '.' :: '.' :: '[' :: inside := by
    rw [← opens, Selector.text, Json.filterLiteral]
    simp
  obtain ⟨spare, enough⟩ : ∃ spare,
      enoughFuel (('.' :: '.' :: '[' :: inside).length + 1) = spare + 7 :=
    ⟨enoughFuel (('.' :: '.' :: '[' :: inside).length + 1) - 7, by
      simp only [enoughFuel, List.length_cons]
      omega⟩
  obtain ⟨behind, read⟩ := readBracket_selector exact spare
    ('$'.utf8Size + '.'.utf8Size + '.'.utf8Size) []
  rw [List.append_nil, opens] at read
  apply readSegmentsOf_root chars
  rw [enough, readSegments_descent false read, readSegments_end (stopsAt_nil _), putFront_ok]
  rfl

theorem locate_descent (text : String) (name : Option String) (document : Json) :
    locate ⟨text, [.descendants name]⟩ document =
      (Node.descendantsOf name [] document).map (·.location) := by
  rw [locate, nodes, selectAll, selectAll, List.flatMap_singleton, select, Node.descendants]

theorem mem_locate_descent_iff {document : Json} (distinct : document.HasDistinctNames)
    {text : String} {name : Option String} {location : Location} :
    location ∈ locate ⟨text, [.descendants name]⟩ document ↔
      (document.valueAt? location).isSome ∧ ∃ front step, location = front ++ [step] ∧
        ∀ asked, name = some asked → step = .key asked := by
  simp only [locate_descent, List.mem_map, Node.mem_descendantsOf_iff distinct]
  constructor
  · rintro ⟨node, ⟨front, step, isAsked, sameLocation, isThere⟩, rfl⟩
    rw [List.nil_append] at sameLocation
    rw [sameLocation, isThere]
    exact ⟨rfl, front, step, rfl, isAsked⟩
  · rintro ⟨isThere, front, step, rfl, isAsked⟩
    obtain ⟨value, isValue⟩ := Option.isSome_iff_exists.mp isThere
    exact ⟨⟨front ++ [step], value⟩, ⟨front, step, isAsked, rfl, isValue⟩, rfl⟩

/-- A descent to a name finds every location whose last step is the member of that name,
and a descent to everything finds every location but the root; each is found once, and
nothing else is. -/
theorem descents_find_all (document : Json) (distinct : document.HasDistinctNames) :
    (∀ name : String, ∃ path, parse ("$..[" ++ quoteForPath name ++ "]") = .ok path ∧
        (path.locate document).Nodup ∧
        ∀ location, location ∈ path.locate document ↔
          (document.valueAt? location).isSome ∧ location.getLast? = some (.key name)) ∧
      ∃ path, parse "$..*" = .ok path ∧ (path.locate document).Nodup ∧
        ∀ location, location ∈ path.locate document ↔
          (document.valueAt? location).isSome ∧ location ≠ [] := by
  have root : document.valueAt? [] = some document := rfl
  refine ⟨?_, ⟨"$..*", [.descendants none]⟩, rfl, ?_, ?_⟩
  · intro name
    refine ⟨_, parse_descent name, ?_, ?_⟩
    · rw [locate_descent, List.Nodup, List.pairwise_map]
      exact (Node.pairwise_isFoundBefore distinct root name).imp fun found => found.different
    · intro location
      rw [mem_locate_descent_iff distinct, List.getLast?_eq_some_iff]
      simp
  · rw [locate_descent, List.Nodup, List.pairwise_map]
    exact (Node.pairwise_isNotAfter distinct root).imp And.left
  · intro location
    rw [mem_locate_descent_iff distinct]
    apply and_congr_right
    intro _
    constructor
    · rintro ⟨front, step, rfl, -⟩
      exact List.concat_ne_nil step front
    · intro notRoot
      obtain ⟨front, step, same⟩ := List.eq_nil_or_concat' location |>.resolve_left notRoot
      exact ⟨front, step, same, by simp⟩

/-- Members of one name in each other, through arrays and objects. -/
def nestedMembers : Json :=
  .object [("b", .array [.object [("it's", .int 1)]]),
    ("it's", .object [("it's", .array [.object [("it's", .null)]]), ("b", .int 2)])]

theorem nestedMembers_distinct : nestedMembers.HasDistinctNames := by
  have number : ∀ value : Int, (Json.int value).HasDistinctNames := fun _ => .leaf rfl
  have null : (Json.object [("it's", .null)]).HasDistinctNames :=
    .object (by simp) (by simpa using .leaf rfl)
  have one : (Json.object [("it's", .int 1)]).HasDistinctNames :=
    .object (by simp) (by simpa using number 1)
  have list : (Json.array [.object [("it's", .null)]]).HasDistinctNames := .array (by simpa using null)
  have inner : (Json.object [("it's", .array [.object [("it's", .null)]]),
      ("b", .int 2)]).HasDistinctNames := .object (by decide) (by simp [list, number])
  exact .object (by decide) (by simpa [inner] using .array (by simpa using one))

theorem descents_find_nestedMembers : nestedMembers.HasDistinctNames ∧
    ∃ path, parse ("$..[" ++ quoteForPath "it's" ++ "]") = .ok path ∧
      (path.locate nestedMembers).Nodup ∧
      [.key "it's", .key "it's", .index 0, .key "it's"] ∈ path.locate nestedMembers ∧
      [.key "it's", .key "b"] ∉ path.locate nestedMembers := by
  obtain ⟨path, parsed, once, found⟩ :=
    (descents_find_all nestedMembers nestedMembers_distinct).1 "it's"
  refine ⟨nestedMembers_distinct, path, parsed, once, (found _).mpr (by decide), ?_⟩
  rw [found]
  decide

end Path

end BodyContract
