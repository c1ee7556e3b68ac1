import BodyContract.Number.Numeral
/-!
JSON documents.

The members of an object stand in the order in which they were written; a document that the reader
gives back has distinct names in each object.

* `Json.same` is equality of documents: the order of members does not matter, a whole number and a
  floating-point number always differ, and both zeros are equal.
* `Json.put` and `Json.merge` keep the names of an object distinct: a repeated name keeps its first
  place and takes its last value.
-/

namespace BodyContract

namespace Number

/-- Equality of numbers of one kind; numbers of two kinds differ. -/
def same : Number → Number → Bool
  | .int left, .int right => left == right
  | .float left, .float right => left.equals right
  | .int _, .float _ => false
  | .float _, .int _ => false

/-- The number as a floating-point number, a whole number being rounded. -/
def toBinary : Number → Binary
  | .int value => .ofInt value
  | .float value => value

/-- Compares two numbers by their values, exactly if both are whole and as floating-point numbers
otherwise. -/
def compare : Number → Number → Ordering
  | .int left, .int right => Ord.compare left right
  | left, right => left.toBinary.compare right.toBinary

end Number

/-- A JSON document. -/
inductive Json where
  | null
  | bool (value : Bool)
  | number (value : Number)
  | string (text : String)
  | array (elements : List Json)
  | object (members : List (String × Json))
deriving Repr, Inhabited

namespace Json

/-- A whole number. -/
def int (value : Int) : Json := .number (.int value)

/-- A list of texts. -/
def strings (texts : List String) : Json := .array (texts.map .string)

/-- The value of a member. -/
def member? (document : Json) (name : String) : Option Json :=
  match document with
  | .object members => members.lookup name
  | _ => none

/-- An element of an array. -/
def element? (document : Json) (index : Nat) : Option Json :=
  match document with
  | .array elements => elements[index]?
  | _ => none

/-- Whether the document is an array or an object. -/
def isContainer : Json → Bool
  | .array _ => true
  | .object _ => true
  | _ => false

/-- Whether the document is an array or an object with nothing inside. -/
def isEmptyContainer : Json → Bool
  | .array elements => elements.isEmpty
  | .object members => members.isEmpty
  | _ => false

mutual

/-- Equality of documents. -/
def same : Json → Json → Bool
  | .null, .null => true
  | .bool left, .bool right => left == right
  | .number left, .number right => left.same right
  | .string left, .string right => left == right
  | .array left, .array right => sameElements left right
  | .object left, .object right => left.length == right.length && sameMembers left right
  | _, _ => false

/-- Equality of arrays, element by element. -/
def sameElements : List Json → List Json → Bool
  | [], [] => true
  | left :: lefts, right :: rights => left.same right && sameElements lefts rights
  | _, _ => false

/-- Whether every member on the left has an equal one of the same name on the right. -/
def sameMembers : List (String × Json) → List (String × Json) → Bool
  | [], _ => true
  | (name, left) :: lefts, rights =>
      match rights.lookup name with
      | none => false
      | some right => left.same right && sameMembers lefts rights

end

/-- Sets a member: in its place if there is one of that name, at the end otherwise. -/
def put (name : String) (value : Json) : List (String × Json) → List (String × Json)
  | [] => [(name, value)]
  | (other, old) :: rest =>
      if other = name then (name, value) :: rest else (other, old) :: put name value rest

mutual

/-- Makes the names of every object distinct. -/
def merge : Json → Json
  | .array elements => .array (mergeElements elements)
  | .object members => .object (mergeMembers [] members)
  | scalar => scalar

/-- Makes the names of the objects in an array distinct. -/
def mergeElements : List Json → List Json
  | [] => []
  | element :: rest => element.merge :: mergeElements rest

/-- Sets the members of a list, one after another, in an object with the members `found`. -/
def mergeMembers (found : List (String × Json)) : List (String × Json) → List (String × Json)
  | [] => found
  | (name, value) :: rest => mergeMembers (put name value.merge found) rest

end

end Json

end BodyContract
