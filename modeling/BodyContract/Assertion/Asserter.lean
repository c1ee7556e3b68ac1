import BodyContract.Assertion.Error
import BodyContract.Assertion.Literal
import BodyContract.Json.Shape
import BodyContract.Path.Evaluation
/-!
Assertions about a document, one step at a time.

An asserter holds a document and the pieces of a path into it. Steps that navigate add a piece;
steps that check add a condition, or look at what the path selects. An asserter that is not strict
builds the same paths but checks nothing, so it never fails.
-/

namespace BodyContract

/-- What the last step has selected. -/
inductive Focus where
  | root
  | field
  | array (isNameless : Bool)
  | arrayValue
  | indexedElement
  | checked
deriving DecidableEq, Repr

/-- An assertion about a document that is being built. -/
structure Asserter where
  document : Json
  pieces : List String
  fieldName : Option String
  focus : Focus
  isStrict : Bool
deriving Repr

namespace Asserter

/-- The beginning of an assertion, at the root of a document. -/
def ofDocument (document : Json) : Asserter := ⟨document, ["$"], none, .root, true⟩

/-- The beginning of an assertion about the document that a text holds. -/
def ofText (text : String) : Except AssertionError Asserter :=
  match Json.parse? text with
  | none => .error .invalidJson
  | some document => .ok (ofDocument document)

/-- The path so far. -/
def path (asserter : Asserter) : String := String.join asserter.pieces

/-- The same assertion without checks. -/
def lenient (asserter : Asserter) : Asserter := { asserter with isStrict := false }

/-- Whether the path runs over the elements of an array. -/
def isIterating (asserter : Asserter) : Bool :=
  match asserter.focus with
  | .array _ => true
  | .arrayValue => true
  | .indexedElement => true
  | _ => false

/-- Whether the path runs over the elements of an array that is the document itself. -/
def isIteratingNameless (asserter : Asserter) : Bool := asserter.focus == .array true

/-- Whether the next check is about the elements of an array. -/
def isAssertingArrayValue (asserter : Asserter) : Bool := asserter.focus == .arrayValue

/-! ## Navigation -/

/-- Adds a piece and remembers what it selects. -/
def step (asserter : Asserter) (focus : Focus) (fieldName : Option String) (piece : String) :
    Asserter :=
  { asserter with
    focus := focus
    fieldName := fieldName
    pieces := asserter.pieces ++ [piece] }

/-- Goes to a member. -/
def field (asserter : Asserter) (name : String) : Asserter :=
  asserter.step .field (some name) ("." ++ name)

/-- Goes to a member of a member, and so on. -/
def fieldPath (asserter : Asserter) (names : List String) : Asserter := names.foldl field asserter

/-- Goes to all elements of a member. -/
def array (asserter : Asserter) (name : String) : Asserter :=
  asserter.step (.array false) (some name) ("." ++ name ++ "[*]")

/-- Goes to all elements of the present value. -/
def anonymousArray (asserter : Asserter) : Asserter :=
  asserter.step (.array (asserter.pieces.length == 1)) none "[*]"

/-- Turns to the elements themselves. -/
def arrayField (asserter : Asserter) : Asserter := { asserter with focus := .arrayValue }

/-- The pieces without the wildcard that the last one ends with. -/
def dropWildcard (pieces : List String) : List String :=
  match pieces.getLast? with
  | none => []
  | some last =>
      if last.endsWith "[*]" then
        let name := String.ofList (last.toList.dropLast.dropLast.dropLast)
        if name.isEmpty then pieces.dropLast else pieces.dropLast ++ [name]
      else
        pieces

/-- Goes to one element of the array whose elements the path runs over. -/
def elementWithIndex (asserter : Asserter) (index : Nat) : Asserter :=
  { asserter with
    focus := .indexedElement
    fieldName := none
    pieces := dropWildcard asserter.pieces ++ ["[" ++ toString index ++ "]"] }

/-- Goes to the elements that are equal to a value; away from the elements of an array, goes to all
elements and takes the value for the name of their member. -/
def contains (asserter : Asserter) (value : Json) : Asserter :=
  if asserter.focus = .arrayValue then
    asserter.step .checked none ("[?(@ == " ++ value.filterLiteral ++ ")]")
  else
    asserter.step .field (some value.label) "[*]"

/-! ## Checks -/

/-- Adds a condition. Behind a member, the condition takes the place of its name and speaks of the
member of that name. -/
def withCondition (asserter : Asserter) (sign right : String) : Asserter :=
  match asserter.focus, asserter.fieldName with
  | .field, some name =>
      { asserter with
        focus := .checked
        pieces := asserter.pieces.dropLast ++
          ["[?(@." ++ name ++ " " ++ sign ++ " " ++ right ++ ")]"] }
  | _, _ =>
      { asserter with
        focus := .checked
        pieces := asserter.pieces ++ ["[?(@ " ++ sign ++ " " ++ right ++ ")]"] }

/-- The same path, with nothing selected for a next condition. -/
def finished (asserter : Asserter) : Asserter := { asserter with focus := .checked }

/-- What a path selects in the document. -/
def matched (asserter : Asserter) (path : String) : Except AssertionError (List Json) :=
  match Path.parse path with
  | .error error => .error (.invalidPath error)
  | .ok parsed => .ok (parsed.evaluate asserter.document)

/-- Checks, where the assertion is strict, that a path selects something. -/
def checkPath (asserter : Asserter) (path : String) : Except AssertionError Unit :=
  if asserter.isStrict then do
    let values ← asserter.matched path
    if values.isEmpty then .error (.noMatch path asserter.document) else .ok ()
  else
    .ok ()

/-- Checks, where the assertion is strict, that its path selects something. -/
def check (asserter : Asserter) : Except AssertionError Asserter := do
  asserter.checkPath asserter.path
  .ok asserter

/-- Checks that the present value equals another one. -/
def isEqualTo (asserter : Asserter) (value : Json) : Except AssertionError Asserter :=
  (asserter.withCondition "==" value.filterLiteral).check

/-- Checks that the present value is null. -/
def isNull (asserter : Asserter) : Except AssertionError Asserter :=
  (asserter.withCondition "==" "null").check

/-- Checks that the present value matches a pattern. -/
def matching (asserter : Asserter) (pattern : String) : Except AssertionError Asserter :=
  (asserter.withCondition "=~" ("/" ++ escapeSlashes pattern ++ "/")).check

/-- Checks that there is a present value. -/
def isPresent (asserter : Asserter) : Except AssertionError Asserter := asserter.finished.check

/-- Whether a value has nothing inside. -/
def isEmptyValue : Json → Bool
  | .array elements => elements.isEmpty
  | .object members => members.isEmpty
  | .string text => text.isEmpty
  | _ => false

/-- Checks that the present values have nothing inside. -/
def isEmpty (asserter : Asserter) : Except AssertionError Asserter :=
  if asserter.isStrict then do
    let values ← asserter.matched asserter.path
    if values.all isEmptyValue then
      .ok asserter.finished
    else
      .error (.notEmpty asserter.path asserter.document)
  else
    .ok asserter.finished

/-- The last part of a class name. -/
def simpleClassName (className : String) : String :=
  String.ofList ((className.toList.reverse.takeWhile (· != '.')).reverse)

/-- Whether a value is what is read as an instance of a class. -/
def isInstance (className : String) (value : Json) : Bool :=
  match simpleClassName className, value with
  | "Object", _ => true
  | "String", .string _ => true
  | "CharSequence", .string _ => true
  | "Boolean", .bool _ => true
  | "Integer", .number (.int _) => true
  | "Long", .number (.int _) => true
  | "Short", .number (.int _) => true
  | "BigInteger", .number (.int _) => true
  | "Number", .number _ => true
  | "Double", .number _ => true
  | "Float", .number _ => true
  | "BigDecimal", .number _ => true
  | "List", .array _ => true
  | "Collection", .array _ => true
  | "Iterable", .array _ => true
  | "Map", .object _ => true
  | _, _ => false

/-- Checks that there are present values and that all are instances of a class. -/
def isInstanceOf (asserter : Asserter) (className : String) : Except AssertionError Asserter :=
  if asserter.isStrict then do
    let values ← asserter.matched asserter.path
    if values.isEmpty then
      .error (.noMatch asserter.path asserter.document)
    else if values.all (isInstance className) then
      .ok asserter.finished
    else
      .error (.wrongType asserter.path className asserter.document)
  else
    .ok asserter.finished

/-- The number of selected values; of a single selected array, the number of its elements. -/
def countOf : List Json → Nat
  | [.array elements] => elements.length
  | values => values.length

/-- Checks the number of present values. -/
def hasSize (asserter : Asserter) (size : Nat) : Except AssertionError Asserter :=
  if asserter.isStrict then do
    let values ← asserter.matched asserter.path
    let actual := countOf values
    if actual = size then
      .ok asserter.finished
    else
      .error (.sizeMismatch asserter.path size actual)
  else
    .ok asserter.finished

/-- Reads what stands at the path in a form. -/
def read (asserter : Asserter) (shape : Shape) : Except AssertionError Json :=
  match asserter.document.readElement asserter.path with
  | .error error => .error (.invalidPath error)
  | .ok value =>
      match value.ofShape? shape with
      | none => .error (.unreadable asserter.path)
      | some shaped => .ok shaped

end Asserter

end BodyContract
