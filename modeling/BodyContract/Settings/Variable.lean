import BodyContract.Number.Text
import BodyContract.Settings.Basic
/-!
Variables of the environment that change settings.

A variable of the scope `APP` that changes the seed of samples has the name `APP__GENERATOR__SEED`.
Variables with other names change nothing.
-/

namespace BodyContract

/-- The settings that variables can change. -/
inductive SettingKey where
  | sampleLimit
  | sampleSeed
  | assertsSize
  | usesBrackets
  | checksEmptyBody
  | framework
  | isLogEnabled
  | logLevel
  | logFormat
deriving DecidableEq, Repr

namespace SettingKey

/-- The key with a name, the name of a variable without its scope. -/
def ofName? (name : String) : Option SettingKey :=
  match name with
  | "GENERATOR__ITERATION_LIMIT" => some .sampleLimit
  | "GENERATOR__SEED" => some .sampleSeed
  | "VERIFIER__ASSERT_JSON_SIZE" => some .assertsSize
  | "VERIFIER__BRACKET_NOTATION" => some .usesBrackets
  | "VERIFIER__INCLUDE_EMPTY_CHECK" => some .checksEmptyBody
  | "VERIFIER__TEST_FRAMEWORK" => some .framework
  | "LOGGING__ENABLED" => some .isLogEnabled
  | "LOGGING__LEVEL" => some .logLevel
  | "LOGGING__FORMAT" => some .logFormat
  | _ => none

/-- The names of all keys. -/
def names : List String :=
  ["GENERATOR__ITERATION_LIMIT", "GENERATOR__SEED", "VERIFIER__ASSERT_JSON_SIZE",
    "VERIFIER__BRACKET_NOTATION", "VERIFIER__INCLUDE_EMPTY_CHECK", "VERIFIER__TEST_FRAMEWORK",
    "LOGGING__ENABLED", "LOGGING__LEVEL", "LOGGING__FORMAT"]

/-- What a variable for the key must hold. -/
def expectation : SettingKey → String
  | .sampleLimit => "expected integer"
  | .sampleSeed => "expected integer or 'none'"
  | .assertsSize => "expected boolean"
  | .usesBrackets => "expected boolean"
  | .checksEmptyBody => "expected boolean"
  | .framework => "expected 'java' or 'groovy'"
  | .isLogEnabled => "expected boolean"
  | .logLevel => "expected text"
  | .logFormat => "expected 'json', 'pretty' or 'compact'"

/-- The key of a variable, if it belongs to a scope. -/
def ofVariable? (scope name : String) : Option SettingKey :=
  let front := (scope ++ "__").toList
  if front.isPrefixOf name.toList then
    ofName? (String.ofList (name.toList.drop front.length))
  else
    none

end SettingKey

namespace Settings

/-- Reads a truth value from one of its spellings. -/
def truthOfText? (text : String) : Option Bool :=
  match lowerText text with
  | "true" | "1" | "yes" | "on" => some true
  | "false" | "0" | "no" | "off" => some false
  | _ => none

/-- Reads a whole number of 64 bits without a sign. -/
def numberOfText? (text : String) : Option Nat :=
  match unsignedWhole? text with
  | none => none
  | some value => if value < twoTo 64 then some value else none

/-- Reads a seed, or that there is none. -/
def seedOfText? (text : String) : Option (Option Nat) :=
  if text.isEmpty || lowerAscii text == "none" then some none else (numberOfText? text).map some

/-- Sets what a key stands for to the value of a text, if the key accepts it. -/
def set? (settings : Settings) (key : SettingKey) (text : String) : Option Settings :=
  let { samples, verifier, logging } := settings
  match key with
  | .sampleLimit => do
      some { settings with samples := { samples with limit := ← numberOfText? text } }
  | .sampleSeed => do some { settings with samples := { samples with seed := ← seedOfText? text } }
  | .assertsSize => do
      some { settings with verifier := { verifier with assertsSize := ← truthOfText? text } }
  | .usesBrackets => do
      some { settings with verifier := { verifier with usesBrackets := ← truthOfText? text } }
  | .checksEmptyBody => do
      some { settings with verifier := { verifier with checksEmptyBody := ← truthOfText? text } }
  | .framework => do
      let framework ← TestFramework.ofName? (lowerText text)
      some { settings with verifier := { verifier with framework } }
  | .isLogEnabled => do
      some { settings with logging := { logging with isEnabled := ← truthOfText? text } }
  | .logLevel => some { settings with logging := { logging with level := text } }
  | .logFormat => do
      some { settings with logging := { logging with format := ← LogFormat.ofText? text } }

/-- Changes settings by a variable of a scope. -/
def setVariable (scope : String) (settings : Settings) (name value : String) :
    Except SettingsError Settings :=
  match SettingKey.ofVariable? scope name with
  | none => .ok settings
  | some key =>
      match settings.set? key value with
      | none => .error (.invalidVariable name key.expectation)
      | some changed => .ok changed

/-- Changes settings by the variables of a scope, one after another. -/
def setVariables (scope : String) (settings : Settings) :
    List (String × String) → Except SettingsError Settings
  | [] => .ok settings
  | (name, value) :: rest => do
      let settings ← settings.setVariable scope name value
      settings.setVariables scope rest

/-- The scope with a name: the name in upper case. -/
def scopeOf (name : String) : String := upperText name

end Settings

end BodyContract
