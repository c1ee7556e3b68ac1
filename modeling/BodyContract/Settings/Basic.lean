import BodyContract.Logging
import BodyContract.Sampling.Sampler
import BodyContract.Verification
/-!
The settings of the program, and how loading them can fail.
-/

namespace BodyContract

/-- How samples are made. -/
structure SampleSettings where
  /-- The largest number of characters of a sample. -/
  limit : Nat := Sampler.defaultLimit
  /-- The seed of all samples, if it is fixed. -/
  seed : Option Nat := none
deriving DecidableEq, Repr

/-- What is logged. -/
structure LogSettings where
  isEnabled : Bool := LogOptions.default.isEnabled
  /-- A level or a filter. -/
  level : String := LogOptions.default.level
  format : LogFormat := LogOptions.default.format
deriving DecidableEq, Repr

/-- The options for writing log lines. -/
def LogSettings.options (settings : LogSettings) : LogOptions :=
  { LogOptions.default with
    isEnabled := settings.isEnabled
    level := settings.level
    format := settings.format }

/-- All settings. -/
structure Settings where
  samples : SampleSettings := {}
  verifier : Verifier := {}
  logging : LogSettings := {}
deriving DecidableEq, Repr

/-- Why settings cannot be loaded. -/
inductive SettingsError where
  /-- There is no file at the path. -/
  | fileNotFound (path : String)
  /-- The file cannot be read. -/
  | unreadableFile (path : String)
  /-- The text is no TOML document of settings. -/
  | malformedToml
  /-- The text is no JSON document of settings. -/
  | malformedJson
  /-- A value is none that its field can have. -/
  | invalidValue (field reason : String)
  /-- A variable does not have a value that its setting accepts. -/
  | invalidVariable (name reason : String)
  /-- There is no format of settings of that name. -/
  | unsupportedFormat (name : String)
deriving DecidableEq, Repr

/-- The wording of an error. -/
def SettingsError.message : SettingsError → String
  | .fileNotFound path => "configuration file not found: " ++ path
  | .unreadableFile path => "failed to read configuration file: " ++ path
  | .malformedToml => "failed to parse TOML configuration"
  | .malformedJson => "failed to parse JSON configuration"
  | .invalidValue field reason => "invalid configuration value for " ++ field ++ ": " ++ reason
  | .invalidVariable name reason =>
      "failed to parse environment variable " ++ name ++ ": " ++ reason
  | .unsupportedFormat name => "unsupported configuration format: " ++ name

namespace Settings

/-- The settings that nothing else is said about. -/
def default : Settings := {}

instance : Inhabited Settings := ⟨default⟩

/-- Settings with a strict verifier and many log lines. -/
def strict : Settings := { verifier := .strict, logging := { level := "debug" } }

/-- Whether a text says what is logged: the name of a level, or a filter with an equals sign. -/
def isLogLevel (text : String) : Bool :=
  Log.isLevel text || (text.toList.contains '=' && Log.isFilter text)

/-- Checks settings: samples may have characters, and the level of the log is one. -/
def validate (settings : Settings) : Except SettingsError Settings :=
  if settings.samples.limit = 0 then
    .error (.invalidValue "generator.iteration_limit" "must be greater than zero")
  else if !isLogLevel settings.logging.level then
    .error (.invalidValue "logging.level" ("unknown log level: " ++ settings.logging.level))
  else
    .ok settings

end Settings

end BodyContract
