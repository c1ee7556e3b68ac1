import BodyContract.Assertion.Error
import BodyContract.Pattern.Basic
/-!
How the verification of a body, or the writing of its checks, can fail.
-/

namespace BodyContract

/-- Why a body is not verified, or its checks cannot be written. -/
inductive ContractError where
  /-- An assertion does not hold. -/
  | assertion (error : AssertionError)
  /-- A path of a matcher cannot be read, or leads to nothing. -/
  | path (error : PathError)
  /-- The pattern of a placeholder cannot be used. -/
  | pattern (error : PatternError)
  /-- No text of the pattern of a placeholder could be read as a value of its kind. -/
  | generation (patternText kind lastAttempt : String)
  /-- A matcher needs a value that the body does not have. -/
  | missingBodyValue (pathText : String) (body : Json)
  /-- A matcher needs a body, and there is none. -/
  | bodyRequired (pathText : String)
deriving Repr

namespace ContractError

/-- Whether the body is another one than expected, and nothing else is wrong. -/
def isAssertionFailure : ContractError → Bool
  | .assertion _ => true
  | _ => false

/-- The wording of an error. -/
def message : ContractError → String
  | .assertion error => error.message
  | .path error => error.message
  | .pattern error => error.message
  | .generation patternText kind lastAttempt =>
      "cannot generate a " ++ kind ++ " matching \x60" ++ patternText ++
        "\x60, last attempt \x60" ++ lastAttempt ++ "\x60"
  | .missingBodyValue pathText body =>
      "value [" ++ pathText ++ "] not found in JSON [" ++ body.render ++ "]"
  | .bodyRequired pathText => "body hasn't been passed for matcher [" ++ pathText ++ "]"

end ContractError

end BodyContract
