import BodyContract.Number.Text
import BodyContract.Recording.Call
import BodyContract.Recording.JavaLiteral
import BodyContract.Text.Search
/-!
Recording an assertion while it is made.

A recorder takes every step on an asserter and writes it down twice: as the text of the call in a
generated test source, and as a `Call` that can be replayed on another document. Which call a step
is written as depends on where the asserter is and on what was written before: inside an array, a
value that is found is asked for by `value()`.
-/

namespace BodyContract

/-- How the name of a member is written in a path. -/
inductive NameStyle where
  /-- As it is. -/
  | plain
  /-- Quoted in brackets, unless it is the decimal form of a whole number. -/
  | bracketed
deriving DecidableEq, Repr, Inhabited

/-- Whether a name is a whole number of 64 bits with an optional sign. -/
def isWholeNumber (name : String) : Bool := (wholeBetween? (-twoTo 63) (twoTo 63 - 1) name).isSome

/-- A name as it is written in a path. -/
def NameStyle.wrap (style : NameStyle) (name : String) : String :=
  match style with
  | .plain => name
  | .bracketed =>
      if isWholeNumber name then
        name
      else
        let escaped := name.toList.flatMap fun c => if c = '\'' then ['\\', c] else [c]
        String.ofList ('[' :: '\'' :: escaped ++ ['\'', ']'])

/-- An assertion with the record of its steps. `checkedKey` is the path in front of the last check,
once something has been checked. -/
structure Recorder where
  delegate : Asserter
  methods : List String
  calls : List Call
  checkedKey : Option String
  style : NameStyle
deriving Repr

namespace Recorder

/-- A record with no step yet. -/
def ofAsserter (delegate : Asserter) (style : NameStyle) : Recorder :=
  ⟨delegate, [], [], none, style⟩

/-- The text of all calls. -/
def method (recorder : Recorder) : String := String.join recorder.methods

/-- The path of the assertion. -/
def path (recorder : Recorder) : String := recorder.delegate.path

/-- The path in front of the last check; without a check, the path. -/
def key (recorder : Recorder) : String := recorder.checkedKey.getD recorder.path

/-- Whether something has been checked. -/
def isFinished (recorder : Recorder) : Bool := recorder.checkedKey.isSome

/-- Two records are equal if their calls read the same. -/
def sameMethods (left right : Recorder) : Bool := left.methods == right.methods

/-- The assertion after more steps, which are written down as calls. -/
def extend (recorder : Recorder) (delegate : Asserter) (calls : List Call) : Recorder :=
  { recorder with delegate := delegate, calls := recorder.calls ++ calls }

/-- The assertion after steps that end in a check. -/
def finish (recorder : Recorder) (delegate : Asserter) (calls : List Call) : Recorder :=
  { recorder.extend delegate calls with checkedKey := some recorder.path }

/-- Writes down the text of a call. -/
def record (recorder : Recorder) (text : String) : Recorder :=
  { recorder with methods := recorder.methods ++ [text] }

/-- Writes down a call with an argument. -/
def recordWith (recorder : Recorder) (name argument : String) : Recorder :=
  recorder.record ("." ++ name ++ "(" ++ argument ++ ")")

/-- The text of the last call. -/
def lastRecord? (recorder : Recorder) : Option String := recorder.methods.getLast?

/-! ## Navigation -/

/-- Goes to a member and writes the step down under the given name of a call. -/
def fieldAs (recorder : Recorder) (callName name : String) : Recorder :=
  let wrapped := recorder.style.wrap name
  (recorder.extend (recorder.delegate.field wrapped) [.field wrapped]).recordWith callName
    (quoteOnly wrapped)

/-- Goes to a member. Among the elements of an array it is a member that they contain. -/
def field (recorder : Recorder) (name : String) : Recorder :=
  recorder.fieldAs (if recorder.delegate.isIterating then "contains" else "field") name

/-- Goes to a member, wherever the assertion is. -/
def traverseField (recorder : Recorder) (name : String) : Recorder := recorder.fieldAs "field" name

/-- Goes to a member of a member, and so on. -/
def fieldPath (recorder : Recorder) (names : List String) : Recorder := names.foldl field recorder

/-- Goes to all elements of a member. -/
def array (recorder : Recorder) (name : String) : Recorder :=
  let wrapped := recorder.style.wrap name
  (recorder.extend (recorder.delegate.array wrapped) [.array wrapped]).recordWith "array"
    (quoteOnly wrapped)

/-- Goes to a member whose elements are to be checked themselves. -/
def arrayFieldNamed (recorder : Recorder) (name : String) : Recorder :=
  let wrapped := recorder.style.wrap name
  (recorder.extend (recorder.delegate.field wrapped).arrayField
    [.field wrapped, .arrayField]).recordWith "array" (quoteOnly wrapped)

/-- Turns to the elements of an array themselves. -/
def arrayField (recorder : Recorder) : Recorder :=
  (recorder.extend recorder.delegate.arrayField [.arrayField]).record ".arrayField()"

/-- Goes to all elements of the present value. -/
def anonymousArray (recorder : Recorder) : Recorder :=
  (recorder.extend recorder.delegate.anonymousArray [.anonymousArray]).record ".array()"

/-- Goes to one element. -/
def elementWithIndex (recorder : Recorder) (index : Nat) : Recorder :=
  (recorder.extend (recorder.delegate.elementWithIndex index) [.elementWithIndex index]).record
    (".elementWithIndex(" ++ toString index ++ ")")

/-- Goes to the elements that are equal to a value, and checks there that there are some. -/
def contains (recorder : Recorder) (value : Json) : Except AssertionError Recorder :=
  let selected := recorder.delegate.contains value
  if recorder.delegate.isAssertingArrayValue then do
    let checked ← selected.isPresent
    .ok (((recorder.finish checked [.contains value, .isPresent]).recordWith "contains"
      value.quotedLabel).record ".value()")
  else
    .ok ((recorder.finish selected [.contains value]).recordWith "contains" value.quotedLabel)

/-! ## Checks -/

/-- Checks that the present value equals a text. -/
def isEqualToText (recorder : Recorder) (text : String) : Except AssertionError Recorder := do
  let delegate ← recorder.delegate.isEqualTo (.string text)
  let checked := recorder.finish delegate [.isEqualTo (.string text)]
  if recorder.delegate.isAssertingArrayValue then
    match recorder.lastRecord? with
    | some ".arrayField()" =>
        .ok ((checked.recordWith "isEqualTo" (javaString text)).record ".value()")
    | some last =>
        if containsText last "array" then
          .ok (checked.recordWith "isEqualTo" (javaString text))
        else
          .ok (checked.record ".value()")
    | none => .ok (checked.recordWith "isEqualTo" (javaString text))
  else
    .ok (checked.recordWith "isEqualTo" (javaString text))

/-- Checks that the present value equals a number. -/
def isEqualToNumber (recorder : Recorder) (number : Number) : Except AssertionError Recorder := do
  let delegate ← recorder.delegate.isEqualTo (.number number)
  let checked := recorder.finish delegate [.isEqualTo (.number number)]
  let followsCheck :=
    match recorder.lastRecord? with
    | none => false
    | some last =>
        containsText last "isEqualTo" || containsText last "matches" || containsText last "isNull"
  if recorder.delegate.isAssertingArrayValue && followsCheck then
    .ok (checked.record ".value()")
  else
    .ok (checked.recordWith "isEqualTo" number.javaLiteral)

/-- Checks that the present value equals a truth value. -/
def isEqualToBool (recorder : Recorder) (flag : Bool) : Except AssertionError Recorder := do
  let delegate ← recorder.delegate.isEqualTo (.bool flag)
  let checked := recorder.finish delegate [.isEqualTo (.bool flag)]
  if recorder.delegate.isAssertingArrayValue then
    .ok (checked.record ".value()")
  else
    .ok (checked.recordWith "isEqualTo" (if flag then "true" else "false"))

/-- Checks that the present value is null. -/
def isNull (recorder : Recorder) : Except AssertionError Recorder := do
  let delegate ← recorder.delegate.isNull
  .ok ((recorder.finish delegate [.isNull]).record ".isNull()")

/-- Checks that the present value equals another one. An array or object is compared by its text. -/
def isEqualTo (recorder : Recorder) (value : Json) : Except AssertionError Recorder :=
  match value with
  | .null => recorder.isNull
  | .bool flag => recorder.isEqualToBool flag
  | .number number => recorder.isEqualToNumber number
  | .string text => recorder.isEqualToText text
  | container => recorder.isEqualToText container.render

/-- Checks that the present values have nothing inside. -/
def isEmpty (recorder : Recorder) : Except AssertionError Recorder := do
  let delegate ← recorder.delegate.isEmpty
  .ok ((recorder.finish delegate [.isEmpty]).record ".isEmpty()")

/-- Checks that the present value matches a pattern. -/
def matching (recorder : Recorder) (pattern : String) : Except AssertionError Recorder := do
  let delegate ← recorder.delegate.matching pattern
  let checked := (recorder.finish delegate [.matching pattern]).recordWith "matches"
    (javaString pattern)
  if recorder.delegate.isAssertingArrayValue then
    .ok (checked.record ".value()")
  else
    .ok checked

/-- Checks that the present values are instances of a class. -/
def isInstanceOf (recorder : Recorder) (className : String) : Except AssertionError Recorder := do
  let delegate ← recorder.delegate.isInstanceOf className
  .ok ((recorder.finish delegate [.isInstanceOf className]).record
    (".isInstanceOf(" ++ className ++ ".class)"))

/-- Checks the number of present values. -/
def hasSize (recorder : Recorder) (size : Nat) : Except AssertionError Recorder := do
  let delegate ← recorder.delegate.hasSize size
  .ok ((recorder.finish delegate [.hasSize size]).record (".hasSize(" ++ toString size ++ ")"))

/-- Checks that there is a present value. Nothing is written for it. -/
def isPresent (recorder : Recorder) : Except AssertionError Recorder := do
  let delegate ← recorder.delegate.isPresent
  .ok (recorder.finish delegate [.isPresent])

/-! ## Questions about the record -/

/-- Whether the text of a call asks for a size. -/
def assertsSize (recorder : Recorder) : Bool :=
  recorder.methods.any fun text => containsText text ".hasSize(" || containsText text ".isEmpty()"

/-- Whether a text is a call of a name with an argument on one line. -/
def isCallWithArgument (name text : String) : Bool :=
  let opening := ("." ++ name ++ "(").toList
  let inside := text.toList.drop opening.length
  opening.isPrefixOf text.toList && inside.getLast? == some ')' && 2 ≤ inside.length &&
    !inside.contains '\n'

/-- Whether a call goes to a member by its name. -/
def assertsConcreteValue (recorder : Recorder) : Bool :=
  recorder.methods.any fun text =>
    isCallWithArgument "field" text || isCallWithArgument "array" text

/-- Takes the recorded steps on another asserter. -/
def replay (recorder : Recorder) (asserter : Asserter) : Except AssertionError Asserter :=
  Call.applyAll recorder.calls asserter

end Recorder

end BodyContract
