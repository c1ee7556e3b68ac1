import BodyContract.Proofs.Json.Without

/-!
# The values that are no containers

The scalars of a document without some places are those that no place covers, in
the same order and behind the same names.  Where nothing but empty containers
goes, all scalars stay.
-/

namespace BodyContract

namespace Location

/-- The names on the way to a location. -/
def names : Location → List String
  | [] => []
  | .key name :: rest => name :: names rest
  | .index _ :: rest => names rest

end Location

namespace Json

mutual

/-- The values of a document that are no containers, with their locations. -/
def scalars : Json → List (Location × Json)
  | .array elements => scalarsOfElements 0 elements
  | .object members => scalarsOfMembers members
  | value => [([], value)]

/-- The scalars of elements from a position on. -/
def scalarsOfElements (position : Nat) : List Json → List (Location × Json)
  | [] => []
  | element :: rest =>
      (scalars element).map (fun scalar => (.index position :: scalar.1, scalar.2)) ++
        scalarsOfElements (position + 1) rest

/-- The scalars of members. -/
def scalarsOfMembers : List (String × Json) → List (Location × Json)
  | [] => []
  | (name, value) :: rest =>
      (scalars value).map (fun scalar => (.key name :: scalar.1, scalar.2)) ++
        scalarsOfMembers rest

end

/-- A scalar behind the names that lead to it, wherever it stands in arrays. -/
def named (scalar : Location × Json) : List String × Json := (scalar.1.names, scalar.2)

/-- The scalars of a document behind their names. -/
def namedScalars (document : Json) : List (List String × Json) := document.scalars.map named

variable {document : Json} {elements : List Json} {members : List (String × Json)}
  {places : Places}

theorem scalars_of_not_container (scalar : document.isContainer = false) :
    document.scalars = [([], document)] := by
  cases document <;> first | rfl | cases scalar

/-- The scalars that no place covers, behind their names. -/
def uncovered (places : Places) (scalars : List (Location × Json)) : List (List String × Json) :=
  (scalars.filter fun scalar => !places.cover scalar.1).map named

theorem uncovered_append (front back : List (Location × Json)) :
    uncovered places (front ++ back) = uncovered places front ++ uncovered places back := by
  rw [uncovered, List.filter_append, List.map_append]
  rfl

theorem cover_cons (step : Step) (rest : Location) :
    places.cover (step :: rest) = (places [step] || (places.behind step).cover rest) := rfl

/-- Nothing behind a step is uncovered if there is a place. -/
theorem uncovered_map_gone {step : Step} (gone : places [step] = true)
    (scalars : List (Location × Json)) :
    uncovered places (scalars.map fun scalar => (step :: scalar.1, scalar.2)) = [] := by
  rw [uncovered, List.map_eq_nil_iff, List.filter_eq_nil_iff]
  intro scalar isIn
  obtain ⟨inner, -, rfl⟩ := List.mem_map.mp isIn
  simp [cover_cons, gone]

theorem filter_map_kept {step : Step} (kept : places [step] = false)
    (scalars : List (Location × Json)) :
    ((scalars.map fun scalar => (step :: scalar.1, scalar.2)).filter fun scalar =>
        !places.cover scalar.1) =
      (scalars.filter fun scalar => !(places.behind step).cover scalar.1).map fun scalar =>
        (step :: scalar.1, scalar.2) := by
  have inside : ((fun scalar : Location × Json => !places.cover scalar.1) ∘
      fun scalar : Location × Json => (step :: scalar.1, scalar.2)) =
        fun scalar => !(places.behind step).cover scalar.1 := by
    funext scalar
    simp [cover_cons, kept]
  rw [List.filter_map, inside]

theorem uncovered_map_index {position : Nat} (kept : places [.index position] = false)
    (scalars : List (Location × Json)) :
    uncovered places (scalars.map fun scalar => (.index position :: scalar.1, scalar.2)) =
      uncovered (places.behind (.index position)) scalars := by
  rw [uncovered, filter_map_kept kept, List.map_map]
  rfl

theorem uncovered_map_key {name : String} (kept : places [.key name] = false)
    (scalars : List (Location × Json)) :
    uncovered places (scalars.map fun scalar => (.key name :: scalar.1, scalar.2)) =
      (uncovered (places.behind (.key name)) scalars).map fun scalar =>
        (name :: scalar.1, scalar.2) := by
  rw [uncovered, filter_map_kept kept, uncovered, List.map_map, List.map_map]
  rfl

theorem map_named_behind_key (name : String) (scalars : List (Location × Json)) :
    (scalars.map fun scalar => (Step.key name :: scalar.1, scalar.2)).map named =
      (scalars.map named).map fun scalar => (name :: scalar.1, scalar.2) := by
  rw [List.map_map, List.map_map]
  rfl

theorem map_named_behind_index (position : Nat) (scalars : List (Location × Json)) :
    (scalars.map fun scalar => (Step.index position :: scalar.1, scalar.2)).map named =
      scalars.map named := by
  rw [List.map_map]
  rfl

theorem namedScalars_withoutElements {position other : Nat}
    (each : ∀ element ∈ elements, ∀ places : Places,
      (element.without places).namedScalars = uncovered places element.scalars) :
    (scalarsOfElements other (withoutElements places position elements)).map named =
      uncovered places (scalarsOfElements position elements) := by
  induction elements generalizing position other with
  | nil => rfl
  | cons element rest inductionHypothesis =>
      have later : ∀ other,
          (scalarsOfElements other (withoutElements places (position + 1) rest)).map named =
            uncovered places (scalarsOfElements (position + 1) rest) :=
        fun _ => inductionHypothesis fun value isIn => each value (List.mem_cons_of_mem _ isIn)
      rw [scalarsOfElements, uncovered_append]
      cases gone : places [.index position] with
      | true =>
          rw [withoutElements_cons_gone gone, uncovered_map_gone gone, List.nil_append, later]
      | false =>
          have inside := each element List.mem_cons_self (places.behind (.index position))
          rw [withoutElements_cons_kept gone, scalarsOfElements, List.map_append, later,
            map_named_behind_index, uncovered_map_index gone, ← inside]
          rfl

theorem namedScalars_withoutMembers
    (each : ∀ member ∈ members, ∀ places : Places,
      (member.2.without places).namedScalars = uncovered places member.2.scalars) :
    (scalarsOfMembers (withoutMembers places members)).map named =
      uncovered places (scalarsOfMembers members) := by
  induction members with
  | nil => rfl
  | cons member rest inductionHypothesis =>
      obtain ⟨name, value⟩ := member
      have later := inductionHypothesis fun other isIn => each other (List.mem_cons_of_mem _ isIn)
      rw [scalarsOfMembers, uncovered_append]
      cases gone : places [.key name] with
      | true =>
          rw [withoutMembers_cons_gone gone, uncovered_map_gone gone, List.nil_append, later]
      | false =>
          have inside := each _ List.mem_cons_self (places.behind (.key name))
          rw [withoutMembers_cons_kept gone, scalarsOfMembers, List.map_append, later,
            map_named_behind_key, uncovered_map_key gone, ← inside]
          rfl

/-- The scalars that are left are those that no place covers. -/
theorem namedScalars_without (distinct : document.HasDistinctNames) :
    (document.without places).namedScalars = uncovered places document.scalars := by
  induction distinct generalizing places with
  | leaf scalar =>
      rw [without_of_not_container scalar, namedScalars, scalars_of_not_container scalar]
      rfl
  | array _ inductionHypothesis =>
      rw [without, namedScalars, scalars, scalars]
      exact namedScalars_withoutElements fun element isIn _ => inductionHypothesis element isIn
  | object _ _ inductionHypothesis =>
      rw [without, namedScalars, scalars, scalars]
      exact namedScalars_withoutMembers fun member isIn _ => inductionHypothesis member isIn

/-! ## Where scalars stand -/

theorem mem_scalarsOfElements {position : Nat} {scalar : Location × Json}
    (isIn : scalar ∈ scalarsOfElements position elements) :
    ∃ index element, elements[index]? = some element ∧ ∃ inner ∈ element.scalars,
      scalar = (.index (position + index) :: inner.1, inner.2) := by
  induction elements generalizing position with
  | nil => exact absurd isIn List.not_mem_nil
  | cons element rest inductionHypothesis =>
      rw [scalarsOfElements, List.mem_append, List.mem_map] at isIn
      rcases isIn with ⟨inner, isInner, rfl⟩ | later
      · exact ⟨0, element, rfl, inner, isInner, rfl⟩
      · obtain ⟨index, other, isThere, inner, isInner, rfl⟩ := inductionHypothesis later
        refine ⟨index + 1, other, isThere, inner, isInner, ?_⟩
        rw [Nat.add_right_comm, Nat.add_assoc]

theorem mem_scalarsOfMembers {scalar : Location × Json} (isIn : scalar ∈ scalarsOfMembers members) :
    ∃ member ∈ members, ∃ inner ∈ member.2.scalars,
      scalar = (.key member.1 :: inner.1, inner.2) := by
  induction members with
  | nil => exact absurd isIn List.not_mem_nil
  | cons member rest inductionHypothesis =>
      obtain ⟨name, value⟩ := member
      rw [scalarsOfMembers, List.mem_append, List.mem_map] at isIn
      rcases isIn with ⟨inner, isInner, rfl⟩ | later
      · exact ⟨_, List.mem_cons_self, inner, isInner, rfl⟩
      · obtain ⟨other, isThere, inner, isInner, rfl⟩ := inductionHypothesis later
        exact ⟨other, List.mem_cons_of_mem _ isThere, inner, isInner, rfl⟩

/-- Every part that a scalar lies in has that scalar. -/
theorem exists_scalar_of_append (distinct : document.HasDistinctNames) {front back : Location}
    {value : Json} (isIn : (front ++ back, value) ∈ document.scalars) :
    ∃ part, document.valueAt? front = some part ∧ (back, value) ∈ part.scalars := by
  induction front generalizing document with
  | nil => exact ⟨document, rfl, isIn⟩
  | cons step rest inductionHypothesis =>
      cases distinct with
      | leaf scalar =>
          rw [scalars_of_not_container scalar, List.mem_singleton] at isIn
          cases congrArg Prod.fst isIn
      | @array elements each =>
          obtain ⟨index, element, isThere, inner, isInner, same⟩ := mem_scalarsOfElements isIn
          obtain ⟨location, other⟩ := inner
          obtain ⟨sameSteps, rfl⟩ := Prod.mk.inj same
          obtain ⟨rfl, rfl⟩ := List.cons.inj sameSteps
          obtain ⟨part, isPart, isScalar⟩ :=
            inductionHypothesis (each element (List.mem_of_getElem? isThere)) isInner
          refine ⟨part, ?_, isScalar⟩
          simp [valueAt?, step?, element?, isThere, isPart]
      | @object members distinctNames each =>
          obtain ⟨member, isMember, inner, isInner, same⟩ := mem_scalarsOfMembers isIn
          obtain ⟨name, content⟩ := member
          obtain ⟨location, other⟩ := inner
          obtain ⟨sameSteps, rfl⟩ := Prod.mk.inj same
          obtain ⟨rfl, rfl⟩ := List.cons.inj sameSteps
          obtain ⟨part, isPart, isScalar⟩ := inductionHypothesis (each _ isMember) isInner
          refine ⟨part, ?_, isScalar⟩
          simp [valueAt?, step?, member?, lookup_of_mem distinctNames isMember, isPart]

/-- A location is covered by the places that begin it. -/
theorem cover_eq_true_iff {location : Location} : places.cover location = true ↔
    ∃ front back, location = front ++ back ∧ front ≠ [] ∧ places front = true := by
  induction location generalizing places with
  | nil => simp [Places.cover]
  | cons step rest inductionHypothesis =>
      rw [cover_cons, Bool.or_eq_true, inductionHypothesis]
      constructor
      · rintro (here | ⟨front, back, rfl, -, isPlace⟩)
        · exact ⟨[step], rest, rfl, List.cons_ne_nil _ _, here⟩
        · exact ⟨step :: front, back, rfl, List.cons_ne_nil _ _, isPlace⟩
      · rintro ⟨front, back, same, notRoot, isPlace⟩
        obtain ⟨first, more, rfl⟩ := List.exists_cons_of_ne_nil notRoot
        obtain ⟨rfl, rfl⟩ := List.cons.inj same
        cases more with
        | nil => exact Or.inl isPlace
        | cons second others =>
            exact Or.inr ⟨second :: others, back, rfl, List.cons_ne_nil _ _, isPlace⟩

/-- Leaving out values without scalars leaves all scalars. -/
theorem namedScalars_without_of_bare (distinct : document.HasDistinctNames)
    (bare : ∀ location value, places location = true → document.valueAt? location = some value →
      value.scalars = []) :
    (document.without places).namedScalars = document.namedScalars := by
  rw [namedScalars_without distinct, namedScalars, uncovered, List.filter_eq_self.mpr]
  rintro ⟨location, value⟩ isIn
  cases covered : places.cover location with
  | false => rfl
  | true =>
      obtain ⟨front, back, rfl, -, isPlace⟩ := cover_eq_true_iff.mp covered
      obtain ⟨part, isPart, isScalar⟩ := exists_scalar_of_append distinct isIn
      rw [bare front part isPlace isPart] at isScalar
      exact absurd isScalar List.not_mem_nil

end Json

end BodyContract
