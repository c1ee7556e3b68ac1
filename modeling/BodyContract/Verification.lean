import BodyContract.Chain.OfBody
import BodyContract.Matcher.Condition
import BodyContract.Matcher.Removal
/-!
Verifying an actual body by an expected one.

What matchers speak of is removed from the expected body; the rest is checked by chains. Then every
matcher is checked, in order.
-/

namespace BodyContract

/-- The languages of generated tests. -/
inductive TestFramework where
  | java
  | groovy
deriving DecidableEq, Repr, Inhabited

namespace TestFramework

/-- The framework with a name. -/
def ofName? (name : String) : Option TestFramework :=
  match name with
  | "java" => some .java
  | "groovy" => some .groovy
  | _ => none

/-- The name of a framework. -/
def name : TestFramework → String
  | .java => "java"
  | .groovy => "groovy"

/-- What ends a statement. -/
def statementEnd? : TestFramework → Option String
  | .java => some ";"
  | .groovy => none

/-- The line between two groups of checks. -/
def joiner : TestFramework → String
  | .java => "// and:"
  | .groovy => "and:"

end TestFramework

/-- How bodies are verified and tests are written. -/
structure Verifier where
  assertsSize : Bool := false
  usesBrackets : Bool := true
  checksEmptyBody : Bool := false
  framework : TestFramework := .java
deriving DecidableEq, Repr

namespace Verifier

/-- The verifier that nothing else is said about. -/
def default : Verifier := {}

instance : Inhabited Verifier := ⟨default⟩

/-- The verifier that checks sizes, the order of elements and that empty bodies are empty. -/
def strict : Verifier := { assertsSize := true, checksEmptyBody := true }

/-- The names of the fields in the record of a verifier, in their order. -/
def fieldNames : List String :=
  ["assert_json_size", "bracket_notation", "include_empty_check", "test_framework"]

/-- The framework that a field names. -/
def frameworkOfJson? (value : Json) : Option TestFramework :=
  value.choice?.bind TestFramework.ofName?

/-- The verifier that a record describes. A field that is left out has the value it has in
`standard`. -/
def ofJson? (standard : Verifier) (record : Json) : Option Verifier := do
  match ← record.fields? fieldNames with
  | [size, brackets, empty, framework] =>
      some {
        assertsSize := ← Json.withDefault? standard.assertsSize Json.bool? size
        usesBrackets := ← Json.withDefault? standard.usesBrackets Json.bool? brackets
        checksEmptyBody := ← Json.withDefault? standard.checksEmptyBody Json.bool? empty
        framework := ← Json.withDefault? standard.framework frameworkOfJson? framework
      }
  | _ => none

/-- The record of a verifier, with all its fields. -/
def toJson (verifier : Verifier) : Json :=
  .object (fieldNames.zip
    [.bool verifier.assertsSize, .bool verifier.usesBrackets, .bool verifier.checksEmptyBody,
      .string verifier.framework.name])

/-- How this verifier makes chains. -/
def chainOptions (verifier : Verifier) : ChainOptions where
  isOrdered := verifier.assertsSize
  style := if verifier.usesBrackets then .bracketed else .plain
  checksEmptyBody := verifier.checksEmptyBody

/-- The chains for an expected body. -/
def chains (verifier : Verifier) (expected : Json) : Except ContractError Chains :=
  match Chains.ofBody verifier.chainOptions expected with
  | .error error => .error (.assertion error)
  | .ok chains => .ok chains

/-- Checks an actual body by a matcher. A command is not checked here. -/
def checkMatcher (expected actual : Json) (matcher : Matcher) : Except ContractError Unit :=
  match matcher.rule with
  | .command => .ok ()
  | .null =>
      match actual.readElement matcher.path with
      | .error error => .error (.path error)
      | .ok .null => .ok ()
      | .ok _ => .error (.assertion (.noMatch matcher.path actual))
  | _ => do
      let path ← matcher.conditionPath (some expected)
      match (Asserter.ofDocument actual).checkPath path with
      | .error error => .error (.assertion error)
      | .ok _ => .ok ()

/-- Checks an actual body by matchers, up to the first that does not hold. -/
def checkMatchers (expected actual : Json) : List Matcher → Except ContractError Unit
  | [] => .ok ()
  | matcher :: rest => do
      checkMatcher expected actual matcher
      checkMatchers expected actual rest

/-- Verifies an actual body by an expected one with matchers. -/
def verify (verifier : Verifier) (expected actual : Json) (matchers : List Matcher) :
    Except ContractError Unit := do
  let chains ← verifier.chains (Matcher.strip matchers expected)
  match chains.verify actual with
  | .error error => .error (.assertion error)
  | .ok _ => checkMatchers expected actual matchers

end Verifier

end BodyContract
