import BodyContract.CommandLine.Command
import BodyContract.Settings.File
import BodyContract.Source.BodyCheck
import BodyContract.Text.Visible
/-!
Running commands on files that have been looked up.

A failure has a cause and says, from the outside to the inside, during what it came up.
-/

namespace BodyContract

/-- What files hold, by their paths. -/
abbrev Files := String → FileState

/-- Why a command fails. -/
inductive FailureCause where
  | pattern (error : PatternError)
  | contract (error : ContractError)
  | settings (error : SettingsError)
  /-- A text is no JSON, or not of the form that is needed. -/
  | malformedJson
  /-- A file cannot be read. -/
  | unreadableFile
deriving Repr

/-- A failure of a command: what was being done, and the cause. -/
structure Failure where
  contexts : List String
  cause : FailureCause
deriving Repr

/-- The wording of a cause. -/
def FailureCause.message : FailureCause → String
  | .pattern error => error.message
  | .contract error => error.message
  | .settings error => error.message
  | .malformedJson => "invalid JSON"
  | .unreadableFile => "cannot read file"

/-- The lines that report a failure. -/
def Failure.lines (failure : Failure) : List String :=
  failure.contexts ++ [failure.cause.message]

/-- The scope of the variables that change the settings of the program. -/
def variableScope : String := "CONTRACT"

namespace Files

/-- The document in a file. -/
def document (files : Files) (path : String) : Except Failure Json :=
  match files path with
  | .text content =>
      match Json.parse? content with
      | none => .error ⟨["parsing " ++ path], .malformedJson⟩
      | some document => .ok document
  | _ => .error ⟨["reading " ++ path], .unreadableFile⟩

/-- The matchers in a file; without a file, none. -/
def matchers (files : Files) : Option String → Except Failure (List Matcher)
  | none => .ok []
  | some path => do
      match Matcher.listOfJson? (← files.document path) with
      | none => .error ⟨[], .malformedJson⟩
      | some matchers => .ok matchers

/-- The settings for the program: those of a file, if one is named, changed by variables. -/
def settings (files : Files) (assignments : List (String × String)) (path : Option String) :
    Except Failure Settings := do
  let settings ←
    match path with
    | none => .ok Settings.default
    | some path =>
        match Settings.ofFile path (files path) with
        | .error error => .error ⟨["loading " ++ path], .settings error⟩
        | .ok settings => .ok settings
  match (settings.setVariables variableScope assignments).bind Settings.validate with
  | .error error => .error ⟨[], .settings error⟩
  | .ok settings => .ok settings

end Files

namespace Command

/-- Writes samples. The seed is the one that is asked for, that of the settings, or a fresh one. -/
def runSample (settings : Settings) (freshSeed : Nat) (expression : String) (count : Nat)
    (seed limit : Option Nat) : Except Failure String :=
  let seed := (seed.or settings.samples.seed).getD freshSeed
  match Sampler.ofExpression expression (.ofSeed (UInt64.ofNat seed)) with
  | .error error => .error ⟨["compiling " ++ Visible.quoted expression], .pattern error⟩
  | .ok sampler =>
      let texts := ((sampler.withLimit (limit.getD settings.samples.limit)).sampleMany count).1
      .ok (String.join (texts.map fun text => text ++ "\n"))

/-- Writes the checks of a body. -/
def runAssertions (files : Files) (verifier : Verifier) (body : String) (matchers : Option String)
    (response : String) : Except Failure String := do
  let document ← files.document body
  let matchers ← files.matchers matchers
  match verifier.testBody document matchers response with
  | .error error => .error ⟨[], .contract error⟩
  | .ok text => .ok text

/-- Verifies a body. -/
def runVerify (files : Files) (verifier : Verifier) (expected actual : String)
    (matchers : Option String) : Except Failure String := do
  let expectedBody ← files.document expected
  let actualBody ← files.document actual
  let matchers ← files.matchers matchers
  match verifier.verify expectedBody actualBody matchers with
  | .error error => .error ⟨[actual ++ " does not satisfy " ++ expected], .contract error⟩
  | .ok _ => .ok "OK\n"

/-- Runs a command. The outcome is what it writes. -/
def run (command : Command) (files : Files) (settings : Settings) (freshSeed : Nat) :
    Except Failure String :=
  let verifier := settings.verifier
  match command with
  | .sample expression count seed limit =>
      runSample settings freshSeed expression count seed limit
  | .assertions body matchers isOrdered isGroovy checksEmptyBody response =>
      let verifier :=
        { verifier with
          assertsSize := verifier.assertsSize || isOrdered
          checksEmptyBody := verifier.checksEmptyBody || checksEmptyBody
          framework := if isGroovy then .groovy else verifier.framework }
      runAssertions files verifier body matchers response
  | .verify expected actual matchers isOrdered =>
      let verifier := { verifier with assertsSize := verifier.assertsSize || isOrdered }
      runVerify files verifier expected actual matchers

end Command

end BodyContract
