import BodyContract.Chain.Basic
import BodyContract.Placeholder.Basic
/-!
The chains that check an expected body.

The body is walked from its root, and a chain is recorded for every leaf. Members are always looked
up by their names. The elements of an array are looked up by their positions if the order matters,
and anywhere in the array otherwise.

* An array of simple values only (texts, numbers, truth values and markers of placeholders) is
  checked value by value.
* The elements of any other array are walked like bodies of their own.
* A text that holds a JSON object is walked like that object.
* An empty object must be empty, and an empty member array too.
-/

namespace BodyContract

/-- How the chains for a body are made. -/
structure ChainOptions where
  /-- Whether the elements of arrays are checked by their positions, and sizes where that is
  possible. -/
  isOrdered : Bool := false
  /-- How the names of members are written. -/
  style : NameStyle := .bracketed
  /-- Whether a body with nothing inside is checked to be empty; otherwise it is not checked at all.
  -/
  checksEmptyBody : Bool := false
deriving DecidableEq, Repr, Inhabited

namespace Json

/-- Whether a value marks a placeholder. -/
def isMarker (value : Json) : Bool := (Placeholder.markedPattern? value).isSome

/-- Whether a value is checked as a whole: a text, a number, a truth value or a marker. -/
def isSimple : Json → Bool
  | .string _ => true
  | .number _ => true
  | .bool _ => true
  | value => value.isMarker

/-- Whether a list has elements, and only simple ones. -/
def areSimple (elements : List Json) : Bool := !elements.isEmpty && elements.all isSimple

/-- Whether a value is an array. -/
def isArray : Json → Bool
  | .array _ => true
  | _ => false

/-- Whether a value is an array that has elements, and only simple ones. -/
def isSimpleArray : Json → Bool
  | .array elements => areSimple elements
  | _ => false

/-- The members of the object that a text holds. -/
def membersInText? (text : String) : Option (List (String × Json)) :=
  match parse? text with
  | some (.object members) => some members
  | _ => none

/-- Whether a body is null or has nothing inside. -/
def isBlankBody : Json → Bool
  | .null => true
  | .string text => text.isEmpty
  | value => value.isEmptyContainer

end Json

namespace Recorder

/-- Whether the chain is still at the root. -/
def isAtRoot (key : Recorder) : Bool := key.path == "$"

/-- Checks that the present value equals `value` or matches its pattern. A chain that has checked
something already stays as it is. -/
def checking (key : Recorder) (value : Json) : Except AssertionError Recorder :=
  if key.isFinished then
    .ok key
  else
    match Placeholder.markedPattern? value with
    | some pattern => key.matching pattern
    | none => key.isEqualTo value

/-- Goes from an object to a member with a value. -/
def entry (key : Recorder) (name : String) (value : Json) : Except AssertionError Recorder :=
  match value with
  | .array [] => (key.array name).isEmpty
  | .array elements =>
      .ok (if Json.areSimple elements then key.arrayFieldNamed name else key.array name)
  | _ => .ok (key.traverseField name)

/-- Goes from an array whose elements are not all simple to its elements, wherever they stand. -/
def elements (key : Recorder) (values : List Json) : Recorder :=
  if key.delegate.isIteratingNameless then
    key.anonymousArray
  else if key.delegate.isIterating then
    if values.all Json.isArray && !values.all Json.isSimpleArray then key.anonymousArray else key
  else if key.isAtRoot && !values.all Json.isArray then
    key.anonymousArray
  else
    key

/-- Goes from the elements of an array to one with a value: into it if it is an array of simple
values. -/
def element (key : Recorder) (value : Json) : Recorder :=
  if value.isSimpleArray then key.anonymousArray else key

/-- Goes from an array of simple values to the element at a position; if the order does not matter,
to the elements. -/
def simpleElement (key : Recorder) (isOrdered : Bool) (position : Nat) : Recorder :=
  if isOrdered then key.elementWithIndex position else key.arrayField

/-- The check of the size of an array of simple values. It is only made in order, and only where the
array is the body or stands inside a member that has been looked up by its name. -/
def sizeCheck (key : Recorder) (isOrdered : Bool) (size : Nat) :
    Except AssertionError (List Recorder) :=
  if isOrdered && (key.isAtRoot || key.assertsConcreteValue) then do
    .ok [← key.hasSize size]
  else
    .ok []

/-- The chains for a value that is neither walked nor looked into. Among the elements of an array, a
number, a truth value or an empty text must also be one of them. -/
def leaf (key : Recorder) (value : Json) : Except AssertionError (List Recorder) := do
  let checked ← key.checking value
  match value with
  | .null => .ok [checked]
  | _ =>
      if key.delegate.isIterating then
        .ok [← key.arrayField.contains value, checked]
      else
        .ok [checked]

end Recorder

namespace Chains

/-- How the members of an object are walked that is held by a text. -/
abbrev TextWalk := Recorder → List (String × Json) → Except AssertionError (List Recorder)

mutual

/-- The chains for a value that `key` leads to. -/
def walk (inText : TextWalk) (isOrdered : Bool) (key : Recorder) (value : Json) :
    Except AssertionError (List Recorder) :=
  match value with
  | .object members =>
      if (Json.object members).isMarker then do
        .ok [← key.checking (.object members)]
      else if members.isEmpty then do
        .ok [← key.isEmpty]
      else
        walkMembers inText isOrdered key members
  | .array elements =>
      if elements.isEmpty then
        .ok [key]
      else if Json.areSimple elements then do
        let size ← key.sizeCheck isOrdered elements.length
        let checks ← walkSimple inText isOrdered key 0 elements
        .ok (size ++ checks)
      else if isOrdered then
        walkPositions inText isOrdered key 0 elements
      else
        walkElements inText isOrdered (key.elements elements) elements
  | .string text =>
      if text.isEmpty then
        key.leaf (.string text)
      else
        match Json.membersInText? text with
        | some members => inText key members
        | none => do .ok [← key.checking (.string text)]
  | other => key.leaf other

/-- The chains for the members of an object. -/
def walkMembers (inText : TextWalk) (isOrdered : Bool) (key : Recorder) :
    List (String × Json) → Except AssertionError (List Recorder)
  | [] => .ok []
  | (name, value) :: rest => do
      let entry ← key.entry name value
      let chains ← walk inText isOrdered entry value
      .ok (chains ++ (← walkMembers inText isOrdered key rest))

/-- The chains for the elements of an array of simple values, from a position on. -/
def walkSimple (inText : TextWalk) (isOrdered : Bool) (key : Recorder) (position : Nat) :
    List Json → Except AssertionError (List Recorder)
  | [] => .ok []
  | value :: rest => do
      let checked ← (key.simpleElement isOrdered position).checking value
      let chains ← walk inText isOrdered checked value
      .ok (chains ++ (← walkSimple inText isOrdered key (position + 1) rest))

/-- The chains for the elements of an array by their positions, from a position on. -/
def walkPositions (inText : TextWalk) (isOrdered : Bool) (key : Recorder) (position : Nat) :
    List Json → Except AssertionError (List Recorder)
  | [] => .ok []
  | value :: rest => do
      let chains ← walk inText isOrdered ((key.elementWithIndex position).element value) value
      .ok (chains ++ (← walkPositions inText isOrdered key (position + 1) rest))

/-- The chains for elements that stand anywhere in the array that `key` runs over. -/
def walkElements (inText : TextWalk) (isOrdered : Bool) (key : Recorder) :
    List Json → Except AssertionError (List Recorder)
  | [] => .ok []
  | value :: rest => do
      let chains ← walk inText isOrdered (key.element value) value
      .ok (chains ++ (← walkElements inText isOrdered key rest))

end

/-- Walks the members of an object that is held by a text. An empty object must be empty. The depth
is the number of texts within texts that are looked into. -/
def walkText (isOrdered : Bool) : (depth : Nat) → TextWalk
  | 0, _, _ => .ok []
  | depth + 1, key, members =>
      if members.isEmpty then do
        .ok [← key.isEmpty]
      else
        walkMembers (walkText isOrdered depth) isOrdered key members

/-- All chains for a document, in the order in which they are recorded. A text in a text is shorter
than the text around it, so there are fewer texts within texts than the document has characters. -/
def recorded (options : ChainOptions) (document : Json) : Except AssertionError (List Recorder) :=
  walk (walkText options.isOrdered document.chars.length) options.isOrdered
    (.ofAsserter (Asserter.ofDocument document).lenient options.style) document

/-- The document that a body is: what a text holds if it is JSON, and the body itself otherwise. -/
def documentOf : Json → Json
  | .string text => (Json.parse? text).getD (.string text)
  | body => body

/-- The chains that check an expected body. -/
def ofBody (options : ChainOptions) (body : Json) : Except AssertionError Chains :=
  match body with
  | .null => .ok empty
  | _ =>
      let document := documentOf body
      if !body.isBlankBody then do
        .ok (ofList (← recorded options document))
      else if options.checksEmptyBody then do
        let root := Recorder.ofAsserter (Asserter.ofDocument document).lenient options.style
        .ok (ofList [← root.isEmpty])
      else
        .ok empty

end Chains

end BodyContract
