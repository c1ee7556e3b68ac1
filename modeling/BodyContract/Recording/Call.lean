import BodyContract.Assertion.Asserter
/-!
The steps of an assertion as data, which can be taken on another document.
-/

namespace BodyContract

/-- One step of an assertion. -/
inductive Call where
  | contains (value : Json)
  | field (name : String)
  | array (name : String)
  | anonymousArray
  | arrayField
  | elementWithIndex (index : Nat)
  | isEqualTo (value : Json)
  | isNull
  | isEmpty
  | matching (pattern : String)
  | isInstanceOf (className : String)
  | hasSize (size : Nat)
  | isPresent
deriving Repr

namespace Call

/-- Takes the step. -/
def apply (call : Call) (asserter : Asserter) : Except AssertionError Asserter :=
  match call with
  | .contains value => .ok (asserter.contains value)
  | .field name => .ok (asserter.field name)
  | .array name => .ok (asserter.array name)
  | .anonymousArray => .ok asserter.anonymousArray
  | .arrayField => .ok asserter.arrayField
  | .elementWithIndex index => .ok (asserter.elementWithIndex index)
  | .isEqualTo value => asserter.isEqualTo value
  | .isNull => asserter.isNull
  | .isEmpty => asserter.isEmpty
  | .matching pattern => asserter.matching pattern
  | .isInstanceOf className => asserter.isInstanceOf className
  | .hasSize size => asserter.hasSize size
  | .isPresent => asserter.isPresent

/-- Takes steps one after another, up to the first that fails. -/
def applyAll : List Call → Asserter → Except AssertionError Asserter
  | [], asserter => .ok asserter
  | call :: rest, asserter => do applyAll rest (← call.apply asserter)

end Call

end BodyContract
