import BodyContract.Proofs.Path.Places

/-!
# Paths in what is left of a document

A path without conditions selects in what is left of a document what it selects
in the whole one, as long as no element that it could count has gone.  It may
count nothing at all, and where only members have gone it may count whatever it
likes.
-/

namespace BodyContract

/-- What a step asks for: the name of a member, or any element. -/
def Step.kind : Step → Option String
  | .key name => some name
  | .index _ => none

theorem Segment.accepts_of_kind {segment : Segment} (unnumbered : segment.isPosition = false)
    {step other : Step} (same : step.kind = other.kind) (length otherLength : Nat) :
    segment.accepts length step = segment.accepts otherLength other := by
  have asked : ∀ name, (step = .key name) ↔ (other = .key name) := by
    intro name
    cases step <;> cases other <;> simp_all [Step.kind]
  cases segment with
  | child name => simp [accepts, asked]
  | element position => cases unnumbered
  | wildcard => rfl
  | descendants name => cases name <;> simp [accepts, asked]
  | filter condition => rfl

/-- Where no element is counted, the places of elements do not matter. -/
theorem areSelected_of_kinds {segments : List Segment}
    (unnumbered : ∀ segment ∈ segments, segment.isPosition = false) {location other : Location}
    (same : location.map Step.kind = other.map Step.kind) (lengths otherLengths : Location → Nat) :
    areSelected lengths segments location = areSelected otherLengths segments other := by
  induction location generalizing segments other lengths otherLengths with
  | nil =>
      rw [List.map_nil, eq_comm, List.map_eq_nil_iff] at same
      rw [same, areSelected, areSelected]
  | cons step rest inductionHypothesis =>
      cases other with
      | nil => cases same
      | cons otherStep more =>
          rw [List.map_cons, List.map_cons, List.cons.injEq] at same
          cases segments with
          | nil => rfl
          | cons segment others =>
              have first := unnumbered segment List.mem_cons_self
              have later := fun other isIn => unnumbered other (List.mem_cons_of_mem segment isIn)
              rw [areSelected, areSelected,
                Segment.accepts_of_kind first same.1 (lengths []) (otherLengths []),
                inductionHypothesis later same.2 _ (fun inside => otherLengths (otherStep :: inside)),
                inductionHypothesis unnumbered same.2 _
                  (fun inside => otherLengths (otherStep :: inside))]

theorem areSelected_congr {segments : List Segment} {location : Location}
    {lengths otherLengths : Location → Nat}
    (same : ∀ front back, location = front ++ back → lengths front = otherLengths front) :
    areSelected lengths segments location = areSelected otherLengths segments location := by
  induction location generalizing segments lengths otherLengths with
  | nil => rw [areSelected, areSelected]
  | cons step rest inductionHypothesis =>
      have inside : ∀ front back, rest = front ++ back →
          lengths (step :: front) = otherLengths (step :: front) := by
        rintro front back rfl
        exact same (step :: front) back rfl
      cases segments with
      | nil => rfl
      | cons segment others =>
          rw [areSelected, areSelected, same [] _ rfl, inductionHypothesis inside,
            inductionHypothesis inside]

namespace Places

variable {places : Places}

/-- Whether all places are members. -/
def AreMembers (places : Places) : Prop :=
  ∀ (front : Location) (index : Nat), places (front ++ [.index index]) = false

theorem AreMembers.behind (areMembers : places.AreMembers) (step : Step) :
    (places.behind step).AreMembers := fun front => areMembers (step :: front)

theorem AreMembers.undisturbed (areMembers : places.AreMembers) (others : Places) :
    places.Undisturbed others := by
  intro front gap before after rest _ _ isGap
  rw [areMembers] at isGap
  cases isGap

theorem undisturbed_areSelected {segments : List Segment}
    (unnumbered : ∀ segment ∈ segments, segment.isPosition = false) (lengths : Location → Nat) :
    places.Undisturbed (areSelected lengths segments) := by
  intro front gap before after rest _ _ _
  apply areSelected_of_kinds unnumbered
  simp [Step.kind]

end Places

namespace Json

variable {document : Json} {places : Places}

theorem length_withoutElements {elements : List Json} {position : Nat}
    (kept : ∀ index, places [.index index] = false) :
    (withoutElements places position elements).length = elements.length := by
  induction elements generalizing position with
  | nil => rfl
  | cons element rest inductionHypothesis =>
      rw [withoutElements_cons_kept (kept position), List.length_cons, inductionHypothesis,
        List.length_cons]

theorem lookup_withoutMembers_gone {members : List (String × Json)} {name : String}
    (gone : places [.key name] = true) : (withoutMembers places members).lookup name = none := by
  cases found : (withoutMembers places members).lookup name with
  | none => rfl
  | some value =>
      obtain ⟨old, -, kept, -⟩ := mem_withoutMembers.mp (mem_of_lookup found)
      rw [gone] at kept
      cases kept

/-- If only members have gone, what is still there is where it was. -/
theorem spare_of_isSome (areMembers : places.AreMembers) {location : Location}
    (isThere : ((document.without places).valueAt? location).isSome) : places.Spare location := by
  induction location generalizing document places with
  | nil => trivial
  | cons step rest inductionHypothesis =>
      cases step with
      | key name =>
          cases gone : places [.key name] with
          | true =>
              have nothing : (document.without places).step? (.key name) = none := by
                cases document with
                | object members => exact lookup_withoutMembers_gone gone
                | _ => rfl
              rw [valueAt?, nothing] at isThere
              cases isThere
          | false =>
              refine ⟨gone, ?_⟩
              have spare : places.Spare [.key name] := ⟨gone, trivial⟩
              rw [← List.singleton_append, valueAt?_append, valueAt?_without spare] at isThere
              cases found : document.valueAt? [.key name] with
              | none =>
                  rw [found] at isThere
                  cases isThere
              | some value =>
                  rw [found] at isThere
                  have isInside : ((value.without (places.behind (.key name))).valueAt? rest).isSome :=
                    isThere
                  exact inductionHypothesis (areMembers.behind _) isInside
      | index position =>
          have kept : ∀ gap ≤ position, places [.index gap] = false :=
            fun gap _ => areMembers [] gap
          refine ⟨kept, ?_⟩
          have spare : places.Spare [.index position] := ⟨kept, trivial⟩
          rw [← List.singleton_append, valueAt?_append, valueAt?_without spare] at isThere
          cases found : document.valueAt? [.index position] with
          | none =>
              rw [found] at isThere
              cases isThere
          | some value =>
              rw [found] at isThere
              have isInside :
                  ((value.without (places.behind (.index position))).valueAt? rest).isSome := isThere
              exact inductionHypothesis (areMembers.behind _) isInside

theorem spare_of_append {front back : Location} (spare : places.Spare (front ++ back)) :
    places.Spare front := by
  induction front generalizing places with
  | nil => trivial
  | cons step rest inductionHypothesis =>
      cases step with
      | key name => exact ⟨spare.1, inductionHypothesis spare.2⟩
      | index position => exact ⟨spare.1, inductionHypothesis spare.2⟩

/-- If only members have gone, the arrays that are left have their lengths. -/
theorem lengthAt_without (areMembers : places.AreMembers) {location : Location}
    (spare : places.Spare location) :
    (document.without places).lengthAt location = document.lengthAt location := by
  rw [lengthAt, lengthAt, valueAt?_without spare]
  cases document.valueAt? location with
  | none => rfl
  | some value =>
      cases value with
      | array elements =>
          have length : (withoutElements (fun rest => places (location ++ rest)) 0 elements).length =
              elements.length := length_withoutElements fun index => areMembers location index
          exact length
      | _ => rfl

end Json

namespace Path

variable {path : Path} {document : Json} {places : Places}

/-- Whether a path finds the same values when some places have gone: if any
have, it has no conditions, and it counts no elements or only members have. -/
def IsSteady (path : Path) (places : Places) : Prop :=
  (∀ location, places location = false) ∨
    (∀ segment ∈ path.segments, segment.isFilter = false) ∧
      ((∀ segment ∈ path.segments, segment.isPosition = false) ∨ places.AreMembers)

theorem IsSteady.union {others : Places} (steady : path.IsSteady places)
    (steadyToo : path.IsSteady others) : path.IsSteady (places.union others) := by
  rcases steady with nothing | ⟨open_, first⟩
  · have same : places.union others = others := by
      funext location
      rw [Places.union, nothing, Bool.false_or]
    rw [same]
    exact steadyToo
  · rcases steadyToo with nothing | ⟨-, second⟩
    · have same : places.union others = places := by
        funext location
        rw [Places.union, nothing, Bool.or_false]
      rw [same]
      exact Or.inr ⟨open_, first⟩
    · refine Or.inr ⟨open_, ?_⟩
      rcases first with unnumbered | areMembers
      · exact Or.inl unnumbered
      · rcases second with unnumbered | areMembersToo
        · exact Or.inl unnumbered
        · apply Or.inr
          intro front index
          rw [Places.union, areMembers, areMembersToo, Bool.or_false]

theorem removed_eq_areSelected (open_ : ∀ segment ∈ path.segments, segment.isFilter = false)
    (distinct : document.HasDistinctNames) {location : Location} (notRoot : location ≠ [])
    (isThere : (document.valueAt? location).isSome) :
    path.removed document location = areSelected document.lengthAt path.segments location := by
  rw [Bool.eq_iff_iff, removed_eq_true_iff, mem_locate_iff open_ distinct]
  simp [notRoot, isThere]

/-- A steady path selects in what is left what it selects in the whole
document. -/
theorem without_removed (distinct : document.HasDistinctNames) (steady : path.IsSteady places) :
    (document.without places).without (path.removed (document.without places)) =
      document.without (places.union (path.removed document)) := by
  have distinctLeft := distinct.without places
  rcases steady with nothing | ⟨open_, unnumbered | areMembers⟩
  · have none_ : places = fun _ => false := funext nothing
    have same : places.union (path.removed document) = path.removed document := by
      funext location
      rw [Places.union, nothing, Bool.false_or]
    rw [same, none_, Json.without_none distinct]
  · -- Without positions, the steps alone decide.
    have bySteps : ∀ {other : Json}, other.HasDistinctNames → ∀ location, location ≠ [] →
        (other.valueAt? location).isSome →
          path.removed other location = areSelected document.lengthAt path.segments location := by
      intro other distinctOther location notRoot isThere
      rw [removed_eq_areSelected open_ distinctOther notRoot isThere]
      exact areSelected_of_kinds unnumbered rfl _ _
    rw [Json.without_congr distinctLeft (bySteps distinctLeft), Json.without_without distinct
      (Places.undisturbed_areSelected unnumbered _)]
    apply Json.without_congr distinct
    intro location notRoot isThere
    rw [Places.union, Places.union, bySteps distinct location notRoot isThere]
  · have sameThere : ∀ location, location ≠ [] →
        ((document.without places).valueAt? location).isSome →
          path.removed (document.without places) location = path.removed document location := by
      intro location notRoot isThere
      have spare := Json.spare_of_isSome areMembers isThere
      have isThereToo : (document.valueAt? location).isSome := by
        rw [Json.valueAt?_without spare, Option.isSome_map] at isThere
        exact isThere
      rw [removed_eq_areSelected open_ distinctLeft notRoot isThere,
        removed_eq_areSelected open_ distinct notRoot isThereToo]
      apply areSelected_congr
      rintro front back rfl
      exact Json.lengthAt_without areMembers (Json.spare_of_append spare)
    rw [Json.without_congr distinctLeft sameThere, Json.without_without distinct
      (areMembers.undisturbed _)]

end Path

end BodyContract
