import BodyContract.Source.Indented
import BodyContract.Verification
/-!
The part of a generated test that checks a body.

The response is read first. A statement follows for each chain, and behind a label of its own a
statement or two for each matcher. Where a matcher cannot be written, what is written in front of it
stays.
-/

namespace BodyContract

/-! ## Values and their classes -/

namespace Number

/-- A number as an argument: a whole number that needs 64 bits and a floating-point number are
marked. -/
def javaArgument (number : Number) : String :=
  match number with
  | .int _ => number.javaLiteral
  | .float _ => number.javaLiteral ++ "D"

/-- The class of numbers like this. -/
def javaClass (number : Number) : String :=
  match number with
  | .int _ => if number.isWide then "Long" else "Integer"
  | .float _ => "Double"

end Number

namespace Json

/-- A value as an argument. An array or object is the literal of its text. -/
def javaArgument : Json → String
  | .string text => javaString text
  | .number value => value.javaArgument
  | .array elements => javaString (Json.array elements).render
  | .object members => javaString (Json.object members).render
  | other => other.render

/-- The class as which a value is read. -/
def javaClass : Json → String
  | .string _ => "String"
  | .bool _ => "Boolean"
  | .number value => value.javaClass
  | .array _ => "java.util.ArrayList"
  | .object _ => "java.util.LinkedHashMap"
  | .null => "Object"

/-- The class of which values of the same type are instances. -/
def javaType : Json → String
  | .string _ => "java.lang.String"
  | .bool _ => "java.lang.Boolean"
  | .number value => "java.lang." ++ value.javaClass
  | .array _ => "java.util.List"
  | .object _ => "java.util.Map"
  | .null => "java.lang.Object"

end Json

/-! ## Statements of matchers -/

namespace Matcher

/-- The path as a string literal. -/
def pathLiteral (matcher : Matcher) : String := javaString matcher.path

/-- Whether the path may select several values. -/
def selectsSeveral (matcher : Matcher) : Bool :=
  containsText matcher.path "[*]" || containsText matcher.path ".."

/-- The value of a body at the path. -/
def bodyValue (matcher : Matcher) (body : Json) : Except ContractError Json :=
  match body.readElement matcher.path with
  | .error _ => .error (.missingBodyValue matcher.path body)
  | .ok value => .ok value

/-- The value that is compared with: the argument, if there is one and the rule is not equality, and
otherwise the value of the body. -/
def comparedValue (matcher : Matcher) (body : Json) : Except ContractError Json :=
  match matcher.rule, matcher.argument with
  | .equality, _ => matcher.bodyValue body
  | _, some argument => .ok (.string argument)
  | _, none => matcher.bodyValue body

/-- The reading of the present value without a class. -/
def reading (matcher : Matcher) : String := "parsedJson.read(" ++ matcher.pathLiteral ++ ")"

/-- The beginning of a statement about the elements that the path selects. -/
def elementsStatement (matcher : Matcher) : String :=
  "assertThat((java.lang.Iterable) parsedJson.read(" ++ matcher.pathLiteral ++
    ", java.util.Collection.class)).as(" ++ matcher.pathLiteral ++ ")."

/-- The call that checks the bounds of a size. -/
def sizeCall (matcher : Matcher) : String :=
  let start := if matcher.selectsSeveral then "hasFlattenedSize" else "hasSize"
  match matcher.leastSize, matcher.mostSize with
  | some least, some most =>
      start ++ "Between(" ++ toString least ++ ", " ++ toString most ++ ")"
  | some least, none => start ++ "GreaterThanOrEqualTo(" ++ toString least ++ ")"
  | none, some most => start ++ "LessThanOrEqualTo(" ++ toString most ++ ")"
  | none, none => start

/-- The statement that the value is null. -/
def nullStatement (matcher : Matcher) : String :=
  "assertThat((Object) " ++ matcher.reading ++ ").isNull()"

/-- The statement of a command, in which `$it` stands for the present value. -/
def commandStatement (matcher : Matcher) : String :=
  replaceAll (matcher.argument.getD "") "$it" matcher.reading

/-- The statements that the value has the type of another one, and a size within bounds. -/
def typeStatements (matcher : Matcher) (value : Json) : List String :=
  let instanceOf :=
    "assertThat((Object) " ++ matcher.reading ++ ").isInstanceOf(" ++ value.javaType ++ ".class)"
  if matcher.leastSize.isSome || matcher.mostSize.isSome then
    [instanceOf, matcher.elementsStatement ++ matcher.sizeCall]
  else
    [instanceOf]

/-- The statement that the value equals another one or, by any other rule, matches it. A marker
stands for its pattern. -/
def comparison (matcher : Matcher) (value : Json) : String :=
  let value :=
    match Placeholder.markedPattern? value with
    | some pattern => Json.string pattern
    | none => value
  if matcher.selectsSeveral && matcher.rule.isPatternRule then
    matcher.elementsStatement ++ "allElementsMatch(" ++ value.javaArgument ++ ")"
  else
    let call := if matcher.rule = .equality then "isEqualTo" else "matches"
    "assertThat(parsedJson.read(" ++ matcher.pathLiteral ++ ", " ++ value.javaClass ++
      ".class))." ++ call ++ "(" ++ value.javaArgument ++ ")"

/-- The statements of a matcher. -/
def statements (matcher : Matcher) (body : Json) : Except ContractError (List String) :=
  match matcher.rule with
  | .null => .ok [matcher.nullStatement]
  | .command => do
      let _ ← matcher.bodyValue body
      .ok [matcher.commandStatement]
  | .sameType => do .ok (matcher.typeStatements (← matcher.comparedValue body))
  | _ => do .ok [matcher.comparison (← matcher.comparedValue body)]

end Matcher

/-! ## Writing -/

namespace Verifier

/-- Writes a statement on a line of its own. -/
def statement (verifier : Verifier) (text : IndentedText) (content : String) : IndentedText :=
  match verifier.framework.statementEnd? with
  | none => text.line content
  | some terminator => (text.line content).endWith terminator

/-- Writes the statements of matchers, up to the first that has none. -/
def writeMatchers (verifier : Verifier) (body : Json) :
    List Matcher → IndentedText → IndentedText × Except ContractError Unit
  | [], text => (text, .ok ())
  | matcher :: rest, text =>
      match matcher.statements body with
      | .error error => (text, .error error)
      | .ok statements =>
          verifier.writeMatchers body rest (statements.foldl verifier.statement text)

/-- Writes the checks of a body. The outcome is the part of the body that no matcher speaks of. -/
def writeBodyCheck (verifier : Verifier) (text : IndentedText) (body : Json)
    (matchers : List Matcher) (response : String) : IndentedText × Except ContractError Json :=
  let text := verifier.statement text
    ("DocumentContext parsedJson = JsonPath.parse(" ++ response ++ ")")
  let stripped := Matcher.strip matchers body
  match verifier.chains stripped with
  | .error error => (text, .error error)
  | .ok chains =>
      let text := chains.methods.foldl
        (fun text method => verifier.statement text ("assertThatJson(parsedJson)" ++ method)) text
      if matchers.isEmpty then
        (text, .ok stripped)
      else
        let text := (text.newline.closeBlock.line verifier.framework.joiner).openBlock
        let (text, outcome) := verifier.writeMatchers body matchers text
        (text, outcome.map fun _ => stripped)

/-- The checks of a body as the inside of a test. -/
def testBody (verifier : Verifier) (body : Json) (matchers : List Matcher) (response : String) :
    Except ContractError String :=
  let text := (IndentedText.empty "\t" (verifier.framework.statementEnd?.getD "")).openBlock
  let (text, outcome) := verifier.writeBodyCheck text body matchers response
  outcome.map fun _ => text.content

end Verifier

end BodyContract
