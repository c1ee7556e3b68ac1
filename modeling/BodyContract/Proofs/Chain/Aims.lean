import BodyContract.Proofs.Chain.Walk

/-!
# What unordered chains aim at

Without an order, an element is looked for anywhere in its array, so the hops
of a chain have a wildcard in the place of every position.  How many wildcards
a chain gets is decided on the way, from the shapes of the arrays:

* the elements of a body that is an array get one if some of them is no array;
* so does every further array below these elements;
* below a member, an array gets one more if its elements are all arrays, but
  not all of simple values;
* an array of simple values among the elements of another array gets one more.

`Json.aims` lists what the chains of a body look for, each with the hops of the
chain, its route, and with the hops that lead to the value, its place.  An aim
is sure if its route is its place.  The route may also lack the last wildcard:
a condition on an array is tested on its elements.
-/

namespace BodyContract

/-- What a chain checks. -/
inductive Aim where
  /-- A value is found behind a route, or is a member of what is found there. -/
  | finds (route place : List Hop) (name? : Option String) (value : Json)
  /-- All values behind a route are empty. -/
  | empties (route : List Hop)
deriving Repr

/-- Whether a body meets an aim because of its shape. -/
def Aim.isSure (body : Json) : Aim → Bool
  | .finds route place _ _ => route = place || route ++ [.every] = place
  | .empties route => (follow route body).all Asserter.isEmptyValue

/-- How far a chain has come: the hops that it has taken, those that lead to
the present value, and the member gone to last.  A chain is nameless if it runs
over the elements of the body itself. -/
structure Stance where
  route : List Hop
  place : List Hop
  name? : Option String
  isNameless : Bool
deriving Repr

namespace Stance

/-- The hop to the member gone to last. -/
def named (stance : Stance) : List Hop := stance.name?.toList.map Hop.member

/-- All hops that the chain has taken. -/
def hops (stance : Stance) : List Hop := stance.route ++ stance.named

/-- The hops that lead to the present value. -/
def there (stance : Stance) : List Hop := stance.place ++ stance.named

/-- The stance at a body. -/
def root : Stance := ⟨[], [], none, false⟩

/-- A step to a member with a value. -/
def entry (stance : Stance) (name : String) : Json → Stance
  | .array elements =>
      let taken := if Json.areSimple elements then [.member name] else [.member name, .every]
      ⟨stance.hops ++ taken, stance.there ++ [.member name], none, false⟩
  | _ => ⟨stance.hops, stance.there, some name, false⟩

/-- A further wildcard at the end of the route. -/
def widened (stance : Stance) : Stance :=
  ⟨stance.hops ++ [.every], stance.there, none, stance.hops.isEmpty⟩

/-- The step from an array to its elements, as far as the chain takes it. -/
def elements (stance : Stance) (values : List Json) : Stance :=
  if stance.isNameless then
    stance.widened
  else if stance.route.isEmpty then
    if values.all Json.isArray then stance else stance.widened
  else if values.all Json.isArray && !values.all Json.isSimpleArray then
    stance.widened
  else
    stance

/-- The step to an element with a value. -/
def element (stance : Stance) (value : Json) : Stance :=
  let reached := if value.isSimpleArray then stance.widened else stance
  { reached with place := stance.there ++ [.every] }

theorem entry_there (stance : Stance) (name : String) (value : Json) :
    (stance.entry name value).there = stance.there ++ [.member name] := by
  cases value <;> first | exact List.append_nil _ | rfl

theorem entry_name? {stance : Stance} {name : String} {value : Json}
    (isArray : value.isArray = true) : (stance.entry name value).name? = none := by
  cases value <;> first | rfl | cases isArray

theorem elements_there (stance : Stance) (values : List Json) :
    (stance.elements values).there = stance.there := by
  have widened : stance.widened.there = stance.there := List.append_nil _
  rw [elements]
  split_ifs <;> first | exact widened | rfl

variable {stance : Stance} (unnamed : stance.name? = none)

include unnamed

theorem elements_name? (values : List Json) : (stance.elements values).name? = none := by
  rw [elements]
  split_ifs <;> first | exact unnamed | rfl

theorem element_there (value : Json) : (stance.element value).there = stance.there ++ [.every] := by
  rw [element, there, named]
  split_ifs
  · exact List.append_nil _
  · rw [unnamed]
    exact List.append_nil _

theorem element_name? (value : Json) : (stance.element value).name? = none := by
  rw [element]
  split_ifs
  · rfl
  · exact unnamed

end Stance

namespace Json

mutual

/-- What the chains for a value check. -/
def aimsAt (stance : Stance) : Json → List Aim
  | .object members =>
      if members.isEmpty then [.empties stance.hops] else aimsOfMembers stance members
  | .array elements =>
      if elements.isEmpty then
        []
      else if areSimple elements then
        elements.map (.finds stance.hops (stance.there ++ [.every]) none)
      else
        aimsOfElements (stance.elements elements) elements
  | value => [.finds stance.route stance.place stance.name? value]

/-- What the chains for members check. -/
def aimsOfMembers (stance : Stance) : List (String × Json) → List Aim
  | [] => []
  | (name, value) :: rest =>
      (match value with
        | .array [] => [.empties (stance.hops ++ [.member name, .every])]
        | other => aimsAt (stance.entry name other) other) ++ aimsOfMembers stance rest

/-- What the chains for elements check. -/
def aimsOfElements (stance : Stance) : List Json → List Aim
  | [] => []
  | value :: rest => aimsAt (stance.element value) value ++ aimsOfElements stance rest

end

/-- What the chains for one member check. -/
def aimsOfMember (stance : Stance) (name : String) (value : Json) : List Aim :=
  match value with
  | .array [] => [.empties (stance.hops ++ [.member name, .every])]
  | other => aimsAt (stance.entry name other) other

theorem aimsOfMember_eq {value : Json} (filled : value ≠ .array []) (stance : Stance)
    (name : String) : aimsOfMember stance name value = aimsAt (stance.entry name value) value := by
  cases value with
  | array elements =>
      cases elements with
      | nil => exact absurd rfl filled
      | cons first rest => rfl
  | _ => rfl

theorem aimsOfMembers_cons (stance : Stance) (name : String) (value : Json)
    (rest : List (String × Json)) : aimsOfMembers stance ((name, value) :: rest) =
      aimsOfMember stance name value ++ aimsOfMembers stance rest := by
  cases value with
  | array elements => cases elements <;> rfl
  | _ => rfl

theorem mem_aimsOfMembers {stance : Stance} {members : List (String × Json)} {aim : Aim} :
    aim ∈ aimsOfMembers stance members ↔
      ∃ member ∈ members, aim ∈ aimsOfMember stance member.1 member.2 := by
  induction members with
  | nil => simp [aimsOfMembers]
  | cons first rest inductionHypothesis =>
      rw [aimsOfMembers_cons, List.mem_append, inductionHypothesis, List.exists_mem_cons_iff]

theorem mem_aimsOfElements {stance : Stance} {elements : List Json} {aim : Aim} :
    aim ∈ aimsOfElements stance elements ↔
      ∃ value ∈ elements, aim ∈ aimsAt (stance.element value) value := by
  induction elements with
  | nil => simp [aimsOfElements]
  | cons first rest inductionHypothesis =>
      rw [aimsOfElements, List.mem_append, inductionHypothesis, List.exists_mem_cons_iff]

/-- What the unordered chains of a body check. -/
def aims (body : Json) : List Aim := aimsAt .root body

/-- Whether all routes of the chains of a body are right. -/
def isCovered (body : Json) : Bool := body.aims.all (Aim.isSure body)

end Json

end BodyContract
