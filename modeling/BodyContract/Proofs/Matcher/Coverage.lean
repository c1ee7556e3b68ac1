import BodyContract.Proofs.Matcher.Pruning
import BodyContract.Proofs.Path.Steady

/-!
# What matchers cover

Matchers are applied one after the other, each to what the ones before it have
left.  If every path finds there what it finds in the whole body, and since the
containers that are removed in the end hold no scalar, the scalars that are left
are those of the body that no matcher covers.
-/

namespace BodyContract

namespace Matcher

/-- The locations other than the root that the path of a matcher selects. -/
def selected (matcher : Matcher) (body : Json) : List Location :=
  match Path.parse matcher.path with
  | .error _ => []
  | .ok path => (path.locate body).filter fun location => !location.isEmpty

/-- The places that some matchers select. -/
def removed (matchers : List Matcher) (body : Json) : Places :=
  fun location => matchers.any fun matcher => Json.placesOf (matcher.selected body) location

/-- Whether a location lies at one that some matcher selects, or inside of it. -/
def areCovering (matchers : List Matcher) (body : Json) (location : Location) : Bool :=
  matchers.any fun matcher => (matcher.selected body).any fun place => place.isPrefixOf location

/-- Whether a matcher selects the same values of a body as if it were applied
alone when what an earlier one selects has gone. -/
def IsSteadyBehind (later earlier : Matcher) (body : Json) : Prop :=
  ∀ path, Path.parse later.path = .ok path → path.IsSteady (Json.placesOf (earlier.selected body))

variable {matchers : List Matcher} {body : Json} {places : Places}

theorem removed_cons (matcher : Matcher) (rest : List Matcher) :
    removed (matcher :: rest) body =
      (Json.placesOf (matcher.selected body)).union (removed rest body) := by
  funext location
  rfl

/-- What matchers leave if each finds what it selects in the whole body. -/
theorem removeEach_without (distinct : body.HasDistinctNames)
    (steady : ∀ matcher ∈ matchers, ∀ path, Path.parse matcher.path = .ok path →
      path.IsSteady places)
    (inOrder : matchers.Pairwise fun earlier later => later.IsSteadyBehind earlier body) :
    (removeEach matchers (body.without places)).2 =
      body.without (places.union (removed matchers body)) := by
  induction matchers generalizing places with
  | nil =>
      have same : places.union (removed [] body) = places := by
        funext location
        exact Bool.or_false _
      rw [same]
      rfl
  | cons matcher rest inductionHypothesis =>
      rw [List.pairwise_cons] at inOrder
      have steadyLater := fun other isIn => steady other (List.mem_cons_of_mem matcher isIn)
      cases parsed : Path.parse matcher.path with
      | error problem =>
          have unread : ∃ failure, (body.without places).delete matcher.path = .error failure := by
            rw [Json.delete, parsed]
            exact ⟨problem, rfl⟩
          obtain ⟨failure, failed⟩ := unread
          have nothing : removed (matcher :: rest) body = removed rest body := by
            funext location
            rw [removed_cons, Places.union, selected, parsed]
            rfl
          rw [removeEach, failed, nothing]
          exact inductionHypothesis steadyLater inOrder.2
      | ok path =>
          obtain ⟨count, deleted, -⟩ := Json.delete_eq (distinct.without places) parsed
          rw [path.without_removed distinct (steady matcher List.mem_cons_self path parsed)] at deleted
          have selects : path.removed body = Json.placesOf (matcher.selected body) := by
            rw [selected, parsed]
            rfl
          rw [selects] at deleted
          have steadyToo : ∀ other ∈ rest, ∀ path, Path.parse other.path = .ok path →
              path.IsSteady (places.union (Json.placesOf (matcher.selected body))) :=
            fun other isIn path isPath =>
              (steadyLater other isIn path isPath).union (inOrder.1 other isIn path isPath)
          have later := inductionHypothesis steadyToo inOrder.2
          have all : (places.union (Json.placesOf (matcher.selected body))).union
              (removed rest body) = places.union (removed (matcher :: rest) body) := by
            funext location
            rw [removed_cons]
            exact Bool.or_assoc _ _ _
          rw [removeEach, deleted]
          dsimp only
          rw [apply_ite Prod.snd, ite_self, later, all]

theorem mem_selected {matcher : Matcher} {location : Location}
    (isIn : location ∈ matcher.selected body) : location ≠ [] := by
  rw [selected] at isIn
  split at isIn
  · exact absurd isIn List.not_mem_nil
  · simpa using (List.mem_filter.mp isIn).2

theorem areCovering_eq_true_iff {location : Location} :
    areCovering matchers body location = true ↔
      ∃ matcher ∈ matchers, ∃ place ∈ matcher.selected body, place <+: location := by
  simp [areCovering]

theorem cover_removed (location : Location) :
    (removed matchers body).cover location = areCovering matchers body location := by
  rw [Bool.eq_iff_iff, Json.cover_eq_true_iff, areCovering_eq_true_iff]
  simp only [removed, Json.placesOf, List.any_eq_true, decide_eq_true_eq]
  constructor
  · rintro ⟨front, back, rfl, -, matcher, isMatcher, isPlace⟩
    exact ⟨matcher, isMatcher, front, isPlace, List.prefix_append front back⟩
  · rintro ⟨matcher, isMatcher, front, isPlace, back, rfl⟩
    exact ⟨front, back, rfl, mem_selected isPlace, matcher, isMatcher, isPlace⟩

theorem areCovering_of_perm {others : List Matcher} (same : others.Perm matchers) :
    areCovering others body = areCovering matchers body := by
  funext location
  rw [Bool.eq_iff_iff, areCovering_eq_true_iff, areCovering_eq_true_iff]
  simp only [same.mem_iff]

/-- The scalars that no matcher covers are left. -/
theorem namedScalars_strip (distinct : body.HasDistinctNames)
    (steady : matchers.Pairwise fun earlier later => later.IsSteadyBehind earlier body) :
    (strip matchers body).namedScalars =
      (body.scalars.filter fun scalar => !areCovering matchers body scalar.1).map Json.named := by
  have nothing : Places.union (fun _ => false) (removed matchers body) = removed matchers body := by
    funext location
    rfl
  have left : (removeEach matchers (body.without fun _ => false)).2 =
      body.without (Places.union (fun _ => false) (removed matchers body)) :=
    removeEach_without distinct (fun _ _ _ _ => Or.inl fun _ => rfl) steady
  rw [Json.without_none distinct, nothing] at left
  rw [strip]
  generalize removeEach matchers body = result at left ⊢
  obtain ⟨paths, rest⟩ := result
  dsimp only at left ⊢
  have distinctRest : rest.HasDistinctNames := left ▸ distinct.without _
  rw [(keepsScalars_prune distinctRest _).2, left, Json.namedScalars_without distinct,
    Json.uncovered]
  simp only [cover_removed]

/-- A list of objects beside a number. -/
def rowsAndCount : Json :=
  .object [("rows", .array [.object [("id", .int 1), ("name", .string "x")],
    .object [("id", .int 2)]]), ("count", .int 2)]

/-- The number, and a member of every object. -/
def countAndIds : List Matcher :=
  [byNull (Path.pathText [.member "count"]),
    byNull (Path.pathText [.member "rows", .every, .member "id"])]

theorem rowsAndCount_distinct : rowsAndCount.HasDistinctNames := by
  have row : ∀ members : List (String × Json), (members.map (·.1)).Nodup →
      (∀ member ∈ members, member.2.isContainer = false) →
        (Json.object members).HasDistinctNames :=
    fun _ distinct scalars => .object distinct fun member isIn => .leaf (scalars member isIn)
  refine .object (by decide) fun member isIn => ?_
  simp only [List.mem_cons, List.not_mem_nil, or_false] at isIn
  rcases isIn with rfl | rfl
  · refine .array fun element isIn => ?_
    simp only [List.mem_cons, List.not_mem_nil, or_false] at isIn
    rcases isIn with rfl | rfl
    · exact row _ (by decide) (by decide)
    · exact row _ (by decide) (by decide)
  · exact .leaf rfl

theorem countAndIds_steady :
    countAndIds.Pairwise fun earlier later => later.IsSteadyBehind earlier rowsAndCount := by
  rw [countAndIds, List.pairwise_pair]
  intro path parsed
  have read := @Path.parse_hops [.member "rows", .every, .member "id"] (by decide)
  rw [byNull, read, Except.ok.injEq] at parsed
  subst parsed
  exact Or.inr ⟨by decide, Or.inl (by decide)⟩

end Matcher

end BodyContract
