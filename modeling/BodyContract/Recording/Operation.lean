import BodyContract.Recording.Recorder
/-!
What can be done with an assertion, as data. An operation can be done with a bare assertion and with
one that is recorded.
-/

namespace BodyContract

/-- A step that is asked for. -/
inductive Operation where
  | field (name : String)
  | traverseField (name : String)
  | fieldPath (names : List String)
  | array (name : String)
  | arrayField
  | arrayFieldNamed (name : String)
  | anonymousArray
  | elementWithIndex (index : Nat)
  /-- Stays where the assertion is. -/
  | stay
  | contains (value : Json)
  | isEqualTo (value : Json)
  | isNull
  | isEmpty
  | matching (pattern : String)
  | isInstanceOf (className : String)
  | hasSize (size : Nat)
  | isPresent
deriving Repr

namespace Operation

/-- Takes the step with a bare assertion. -/
def assert (operation : Operation) (asserter : Asserter) : Except AssertionError Asserter :=
  match operation with
  | .field name => .ok (asserter.field name)
  | .traverseField name => .ok (asserter.field name)
  | .fieldPath names => .ok (asserter.fieldPath names)
  | .array name => .ok (asserter.array name)
  | .arrayField => .ok asserter.arrayField
  | .arrayFieldNamed name => .ok (asserter.field name).arrayField
  | .anonymousArray => .ok asserter.anonymousArray
  | .elementWithIndex index => .ok (asserter.elementWithIndex index)
  | .stay => .ok asserter
  | .contains value => .ok (asserter.contains value)
  | .isEqualTo value => asserter.isEqualTo value
  | .isNull => asserter.isNull
  | .isEmpty => asserter.isEmpty
  | .matching pattern => asserter.matching pattern
  | .isInstanceOf className => asserter.isInstanceOf className
  | .hasSize size => asserter.hasSize size
  | .isPresent => asserter.isPresent

/-- Takes the step with a recorded assertion. -/
def record (operation : Operation) (recorder : Recorder) : Except AssertionError Recorder :=
  match operation with
  | .field name => .ok (recorder.field name)
  | .traverseField name => .ok (recorder.traverseField name)
  | .fieldPath names => .ok (recorder.fieldPath names)
  | .array name => .ok (recorder.array name)
  | .arrayField => .ok recorder.arrayField
  | .arrayFieldNamed name => .ok (recorder.arrayFieldNamed name)
  | .anonymousArray => .ok recorder.anonymousArray
  | .elementWithIndex index => .ok (recorder.elementWithIndex index)
  | .stay => .ok recorder
  | .contains value => recorder.contains value
  | .isEqualTo value => recorder.isEqualTo value
  | .isNull => recorder.isNull
  | .isEmpty => recorder.isEmpty
  | .matching pattern => recorder.matching pattern
  | .isInstanceOf className => recorder.isInstanceOf className
  | .hasSize size => recorder.hasSize size
  | .isPresent => recorder.isPresent

/-- Takes steps with a recorded assertion, up to the first that fails. -/
def recordAll : List Operation → Recorder → Except AssertionError Recorder
  | [], recorder => .ok recorder
  | operation :: rest, recorder => do recordAll rest (← operation.record recorder)

end Operation

end BodyContract
