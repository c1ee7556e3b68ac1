import BodyContract.Matcher.Basic
import BodyContract.Path.Evaluation
import BodyContract.Text.Search
/-!
Matchers as conditions: the path of a matcher is turned into a path that selects something exactly
where the rule of the matcher holds.

The last step of the path, behind its last dot, becomes a condition on what stands in front of it.
-/

namespace BodyContract

namespace Matcher

/-- A path in front of its last dot, and the text behind that dot. A quoted name in brackets belongs
to the step in front of it, with all dots inside. -/
def splitLastStep? (path : List Char) : Option (List Char × List Char) :=
  match splitAtLast? ['[', '\''] path with
  | none => (splitAtLast? ['.'] path).map fun (front, back) => (front, back.drop 1)
  | some (front, brackets) =>
      (splitAtLast? ['.'] front).map fun (front, back) => (front, back.drop 1 ++ brackets)

/-- The present value where a condition is about the text of a last step. -/
def operand : Option (List Char) → String
  | none => "@"
  | some step => "@." ++ String.ofList step

/-- A value as it is compared with: a number as it is, anything else between single quotes. -/
def comparedText : Json → String
  | .number value => String.ofList value.text
  | .string text => "'" ++ text ++ "'"
  | other => "'" ++ other.render ++ "'"

/-- The condition that the value equals that of the expected body, in which samples stand in the
place of markers. -/
def equalityCondition (matcher : Matcher) (operand : String) (body : Option Json) :
    Except ContractError String :=
  match body with
  | none => .error (.bodyRequired matcher.path)
  | some body => do
      let filled ← Placeholder.fill body
      match filled.readElement matcher.path with
      | .error _ => .error (.missingBodyValue matcher.path body)
      | .ok value => .ok (operand ++ " == " ++ comparedText value)

/-- The conditions for the bounds of a size. -/
def sizeConditions (matcher : Matcher) (operand : String) : List String :=
  let condition (sign : String) (size : Nat) : String :=
    operand ++ ".size() " ++ sign ++ " " ++ toString size
  (matcher.leastSize.map (condition ">=")).toList ++
    (matcher.mostSize.map (condition "<=")).toList

/-- The condition that the value matches a pattern. Slashes are escaped, unless one is already. -/
def patternCondition (operand pattern : String) : String :=
  let escaped :=
    if containsText pattern "\\/" then pattern else replaceAll pattern "/" "\\/"
  operand ++ " =~ /(" ++ escaped ++ ")/"

/-- The condition of a matcher, if its rule needs one; otherwise its path alone says all. -/
def condition? (matcher : Matcher) (operand : String) (body : Option Json) :
    Except ContractError (Option String) :=
  match matcher.rule, matcher.argument with
  | .equality, _ => do .ok (some (← matcher.equalityCondition operand body))
  | .sameType, _ =>
      match matcher.sizeConditions operand with
      | [] => .ok none
      | conditions => .ok (some (String.intercalate " && " conditions))
  | _, some pattern => .ok (some (patternCondition operand pattern))
  | _, none => .ok none

/-- The path that selects something exactly where the matcher holds. -/
def conditionPath (matcher : Matcher) (body : Option Json) : Except ContractError String := do
  let split := splitLastStep? matcher.path.toList
  match ← matcher.condition? (operand (split.map (·.2))) body with
  | none => .ok matcher.path
  | some condition =>
      let front :=
        match split with
        | none => "$"
        | some (front, _) => String.ofList front
      .ok (front ++ "[?(" ++ condition ++ ")]")

end Matcher

end BodyContract
