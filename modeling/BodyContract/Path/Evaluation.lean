import BodyContract.Json.Location
import BodyContract.Json.Printer
import BodyContract.Path.Parser
import BodyContract.Regex.Match
/-!
What a path selects in a document.

Every segment takes a list of values, each with its location, to the list of values that it leads to
from them, in the same order. Conditions never fail: what cannot be compared is just not selected.
-/

namespace BodyContract

/-- A value of a document with its location. -/
structure Node where
  location : Location
  value : Json
deriving Repr, Inhabited

namespace Node

/-- The value behind one more step. -/
def behind (node : Node) (step : Step) (value : Json) : Node := ⟨node.location ++ [step], value⟩

/-- The nodes of elements whose positions begin with `position`. -/
def ofElements (location : Location) (position : Nat) : List Json → List Node
  | [] => []
  | element :: rest =>
      ⟨location ++ [.index position], element⟩ :: ofElements location (position + 1) rest

/-- The nodes of members. -/
def ofMembers (location : Location) (members : List (String × Json)) : List Node :=
  members.map fun (name, value) => ⟨location ++ [.key name], value⟩

/-- The members or elements of a value. -/
def children (node : Node) : List Node :=
  match node.value with
  | .array elements => ofElements node.location 0 elements
  | .object members => ofMembers node.location members
  | _ => []

/-- The member of a value. -/
def child (node : Node) (name : String) : List Node :=
  match node.value.member? name with
  | none => []
  | some value => [node.behind (.key name) value]

/-- The place of an element in an array of some length, where negative positions count from the end.
-/
def place? (length : Nat) (position : Int) : Option Nat :=
  if 0 ≤ position then
    some position.toNat
  else if position.natAbs ≤ length then
    some (length - position.natAbs)
  else
    none

/-- The element of a value. -/
def element (node : Node) (position : Int) : List Node :=
  match node.value with
  | .array elements =>
      match place? elements.length position with
      | none => []
      | some place =>
          match elements[place]? with
          | none => []
          | some value => [node.behind (.index place) value]
  | _ => []

/-- The member of a name, if one is asked for, of a value at a location. -/
def namedChild (location : Location) (value : Json) : Option String → List Node
  | none => []
  | some name => Node.child ⟨location, value⟩ name

/-- The node of a value itself if no name is asked for. -/
def unnamed (location : Location) (value : Json) : Option String → List Node
  | none => [⟨location, value⟩]
  | some _ => []

mutual

/-- All values inside a value, or the members of a name: first those of the value itself, then, part
by part, those inside its parts. -/
def descendantsOf (name : Option String) (location : Location) (value : Json) : List Node :=
  match value with
  | .array elements => descendantsOfElements name location 0 elements
  | .object members =>
      namedChild location (.object members) name ++ descendantsOfMembers name location members
  | _ => []

/-- The values inside the elements of an array, and the elements themselves if no name is asked for.
-/
def descendantsOfElements (name : Option String) (location : Location) (position : Nat) :
    List Json → List Node
  | [] => []
  | element :: rest =>
      let inside := location ++ [.index position]
      unnamed inside element name ++ (descendantsOf name inside element ++
        descendantsOfElements name location (position + 1) rest)

/-- The values inside the members of an object, and the members themselves if no name is asked for.
-/
def descendantsOfMembers (name : Option String) (location : Location) :
    List (String × Json) → List Node
  | [] => []
  | (key, value) :: rest =>
      let inside := location ++ [.key key]
      unnamed inside value name ++ (descendantsOf name inside value ++
        descendantsOfMembers name location rest)

end

/-- All values inside a value, or the members of a name among them. -/
def descendants (node : Node) (name : Option String) : List Node :=
  descendantsOf name node.location node.value

end Node

namespace Json

/-- The text that a regular expression is matched with; only texts, numbers and truth values have
one. -/
def scalarText? : Json → Option String
  | .string text => some text
  | .number value => some (String.ofList value.text)
  | .bool true => some "true"
  | .bool false => some "false"
  | _ => none

/-- The number of elements, members or characters. -/
def size? : Json → Option Nat
  | .array elements => some elements.length
  | .object members => some members.length
  | .string text => some text.length
  | _ => none

/-- Equality in a comparison: numbers by their values whatever their kinds, all else as documents.
-/
def equalsInFilter : Json → Json → Bool
  | .number left, .number right => left.compare right == .eq
  | left, right => left.same right

/-- The order in a comparison: numbers by their values and texts by their characters. -/
def ordering? : Json → Json → Option Ordering
  | .number left, .number right => some (left.compare right)
  | .string left, .string right => some (Ord.compare left right)
  | _, _ => none

end Json

namespace Comparison

/-- Whether two values stand in the relation. -/
def holds (comparison : Comparison) (left right : Json) : Bool :=
  match comparison with
  | .equal => left.equalsInFilter right
  | .notEqual => !left.equalsInFilter right
  | .less => left.ordering? right == some .lt
  | .lessOrEqual => left.ordering? right == some .lt || left.ordering? right == some .eq
  | .greater => left.ordering? right == some .gt
  | .greaterOrEqual => left.ordering? right == some .gt || left.ordering? right == some .eq
  | .matching => false

end Comparison

/-- The value of a path operand from the nodes that it selects: the first one if there can be only
one, an array of all otherwise, or the size of that. -/
def operandValue? (isSingle counts : Bool) (nodes : List Node) : Option Json := do
  let value ← if isSingle then nodes.head?.map (·.value) else some (.array (nodes.map (·.value)))
  if counts then
    (value.size?).map fun size => .int size
  else
    some value

mutual

/-- The nodes that segments lead to, in a document. -/
def selectAll (document : Json) : List Segment → List Node → List Node
  | [], nodes => nodes
  | segment :: rest, nodes => selectAll document rest (nodes.flatMap fun node =>
      select document segment node)

/-- The nodes that one segment leads to. -/
def select (document : Json) (segment : Segment) (node : Node) : List Node :=
  match segment with
  | .child name => node.child name
  | .element position => node.element position
  | .wildcard => node.children
  | .descendants name => node.descendants name
  | .filter condition =>
      match node.value with
      | .array elements =>
          (Node.ofElements node.location 0 elements).filter fun element =>
            holds document condition element.value
      | value => if holds document condition value then [node] else []

/-- Whether a condition holds of a value. -/
def holds (document : Json) (condition : Condition) (current : Json) : Bool :=
  match condition with
  | .either left right => holds document left current || holds document right current
  | .both left right => holds document left current && holds document right current
  | .present operand => (resolve? document operand current).isSome
  | .compares left .matching (.regex pattern) =>
      match (resolve? document left current).bind Json.scalarText? with
      | none => false
      | some text => pattern.regex.isMatch text
  | .compares left comparison right =>
      match resolve? document left current, resolve? document right current with
      | some leftValue, some rightValue => comparison.holds leftValue rightValue
      | _, _ => false

/-- The value of an operand; a regular expression has none. -/
def resolve? (document : Json) (operand : Operand) (current : Json) : Option Json :=
  match operand with
  | .literal value => some value
  | .regex _ => none
  | .current segments counts =>
      operandValue? (areDefinite segments) counts (selectAll document segments [⟨[], current⟩])
  | .root segments counts =>
      operandValue? (areDefinite segments) counts (selectAll document segments [⟨[], document⟩])

end

namespace Path

/-- The nodes that a path selects, in the order of the document. -/
def nodes (path : Path) (document : Json) : List Node :=
  selectAll document path.segments [⟨[], document⟩]

/-- The values that a path selects. -/
def evaluate (path : Path) (document : Json) : List Json :=
  (path.nodes document).map (·.value)

/-- The locations of the values that a path selects. -/
def locate (path : Path) (document : Json) : List Location :=
  (path.nodes document).map (·.location)

end Path

namespace Json

/-- Reads what stands at a path: the value if there can be only one, an array of all values
otherwise. -/
def readElement (document : Json) (text : String) : Except PathError Json := do
  let path ← Path.parse text
  let values := path.evaluate document
  if path.isDefinite then
    match values with
    | [] => .error (.notFound text)
    | value :: _ => .ok value
  else
    .ok (.array values)

/-- Removes all values at a path but the root, and counts them. -/
def delete (document : Json) (text : String) : Except PathError (Nat × Json) := do
  let path ← Path.parse text
  let locations := (path.locate document).filter fun location => !location.isEmpty
  .ok (removeAll (Location.descending locations) document)

end Json

end BodyContract
