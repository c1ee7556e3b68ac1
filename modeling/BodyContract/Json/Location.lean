import BodyContract.Json.Basic
/-!
Places in a document: the steps from its root to a value.

Locations are ordered by their first difference, a member before an element, names by their
characters and elements by their numbers; a location comes before those inside it.
-/

namespace BodyContract

/-- One step into an object or an array. -/
inductive Step where
  | key (name : String)
  | index (position : Nat)
deriving DecidableEq, Repr

/-- The steps from the root of a document to a value. -/
abbrev Location := List Step

namespace Step

/-- Whether a step comes before another one. -/
def before : Step → Step → Bool
  | .key left, .key right => left < right
  | .key _, .index _ => true
  | .index _, .key _ => false
  | .index left, .index right => left < right

end Step

namespace Location

/-- Whether a location is the same as another one or comes before it. -/
def notAfter : Location → Location → Bool
  | [], _ => true
  | _ :: _, [] => false
  | left :: lefts, right :: rights =>
      left.before right || (left == right && notAfter lefts rights)

/-- Leaves one of each run of equal locations. -/
def dropRepeats : List Location → List Location
  | [] => []
  | [location] => [location]
  | location :: next :: rest =>
      if location = next then dropRepeats (next :: rest)
      else location :: dropRepeats (next :: rest)

/-- Distinct locations in descending order, so that what lies inside or behind another place comes
before it. -/
def descending (locations : List Location) : List Location :=
  (dropRepeats (locations.mergeSort notAfter)).reverse

end Location

namespace Json

/-- The value that a step leads to. -/
def step? (document : Json) : Step → Option Json
  | .key name => document.member? name
  | .index position => document.element? position

/-- The value at a location. -/
def valueAt? (document : Json) : Location → Option Json
  | [] => some document
  | step :: rest => do (← document.step? step).valueAt? rest

/-- Removes the first member with a name. -/
def eraseMember (name : String) : List (String × Json) → List (String × Json)
  | [] => []
  | (other, value) :: rest =>
      if other = name then rest else (other, value) :: eraseMember name rest

/-- Changes the first member with a name. -/
def modifyMember? (name : String) (change : Json → Option Json) :
    List (String × Json) → Option (List (String × Json))
  | [] => none
  | (other, value) :: rest =>
      if other = name then
        (change value).map fun value => (other, value) :: rest
      else
        (modifyMember? name change rest).map ((other, value) :: ·)

/-- Changes an element. -/
def modifyElement? (change : Json → Option Json) : Nat → List Json → Option (List Json)
  | _, [] => none
  | 0, value :: rest => (change value).map (· :: rest)
  | position + 1, value :: rest => (modifyElement? change position rest).map (value :: ·)

/-- Removes the member or element that a step leads to. -/
def removeStep? (document : Json) (step : Step) : Option Json :=
  match step, document with
  | .key name, .object members =>
      if (members.lookup name).isSome then some (.object (eraseMember name members)) else none
  | .index position, .array elements =>
      if position < elements.length then some (.array (elements.eraseIdx position)) else none
  | _, _ => none

/-- Removes the value at a location. The root is not removed. -/
def removeAt? : Location → Json → Option Json
  | [], _ => none
  | [last], document => document.removeStep? last
  | .key name :: next :: rest, .object members =>
      (modifyMember? name (removeAt? (next :: rest)) members).map .object
  | .index position :: next :: rest, .array elements =>
      (modifyElement? (removeAt? (next :: rest)) position elements).map .array
  | _ :: _ :: _, _ => none

/-- Removes the values at some locations, one after another, and counts those that were there. -/
def removeAll : List Location → Json → Nat × Json
  | [], document => (0, document)
  | location :: rest, document =>
      match removeAt? location document with
      | none => removeAll rest document
      | some smaller =>
          let (count, last) := removeAll rest smaller
          (count + 1, last)

end Json

end BodyContract
