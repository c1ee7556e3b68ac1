import BodyContract.Json.Reader
import BodyContract.Settings.Basic
import BodyContract.Toml.Reader
/-!
Settings as documents, in TOML or JSON. A document has three sections, and what it leaves out has
its default.
-/

namespace BodyContract

namespace SampleSettings

/-- The names of the fields, in their order. -/
def fieldNames : List String := ["iteration_limit", "seed"]

/-- The settings that a record describes. -/
def ofJson? (record : Json) : Option SampleSettings := do
  match ← record.fields? fieldNames with
  | [limit, seed] =>
      some {
        limit := ← Json.withDefault? Sampler.defaultLimit Json.unsigned64? limit
        seed := ← Json.optional? Json.unsigned64? seed
      }
  | _ => none

/-- The record of the settings. -/
def toJson (settings : SampleSettings) : Json :=
  .object (fieldNames.zip
    [.int (Int.ofNat settings.limit),
      (settings.seed.map fun seed => Json.int (Int.ofNat seed)).getD .null])

end SampleSettings

namespace LogSettings

/-- The names of the fields, in their order. -/
def fieldNames : List String := ["enabled", "level", "format"]

/-- The settings that a record describes. -/
def ofJson? (record : Json) : Option LogSettings := do
  let format? (value : Json) : Option LogFormat := value.choice?.bind LogFormat.ofName?
  match ← record.fields? fieldNames with
  | [isEnabled, level, format] =>
      some {
        isEnabled := ← Json.withDefault? LogOptions.default.isEnabled Json.bool? isEnabled
        level := ← Json.withDefault? LogOptions.default.level Json.text? level
        format := ← Json.withDefault? LogOptions.default.format format? format
      }
  | _ => none

/-- The record of the settings. -/
def toJson (settings : LogSettings) : Json :=
  .object (fieldNames.zip
    [.bool settings.isEnabled, .string settings.level, .string settings.format.name])

end LogSettings

namespace Settings

/-- The names of the sections, in their order. -/
def sectionNames : List String := ["generator", "verifier", "logging"]

/-- The settings that a document describes. -/
def ofJson? (document : Json) : Option Settings := do
  match ← document.fields? sectionNames with
  | [samples, verifier, logging] =>
      some {
        samples := ← Json.withDefault? {} SampleSettings.ofJson? samples
        verifier := ← Json.withDefault? .default (Verifier.ofJson? .default) verifier
        logging := ← Json.withDefault? {} LogSettings.ofJson? logging
      }
  | _ => none

/-- The document of the settings, with all fields. -/
def toJson (settings : Settings) : Json :=
  .object (sectionNames.zip
    [settings.samples.toJson, settings.verifier.toJson, settings.logging.toJson])

/-- A choice in a TOML document, where a table with an empty table inside stands for a choice
without data. -/
def choiceOfTables : Json → Json
  | .object [(name, value)] =>
      .object [(name, if value.isEmptyContainer then .null else value)]
  | other => other

/-- Changes a member of an object wherever it stands. -/
def changeMember (name : String) (change : Json → Json) : Json → Json
  | .object members =>
      .object (members.map fun (other, value) =>
        (other, if other = name then change value else value))
  | other => other

/-- The settings that the tables of a TOML document describe. -/
def ofTables? (document : Json) : Option Settings :=
  ofJson? (changeMember "verifier" (changeMember "test_framework" choiceOfTables)
    (changeMember "logging" (changeMember "format" choiceOfTables) document))

/-- Reads settings from a text in a format, the name of which is in lower case. -/
def parse (format content : String) : Except SettingsError Settings :=
  match format with
  | "toml" =>
      match (Toml.read? content).bind ofTables? with
      | none => .error .malformedToml
      | some settings => .ok settings
  | "json" =>
      match (Json.read? content).bind ofJson? with
      | none => .error .malformedJson
      | some settings => .ok settings
  | other => .error (.unsupportedFormat other)

/-- Reads settings from a text in a format. -/
def ofText (format content : String) : Except SettingsError Settings :=
  parse (lowerText format) content

end Settings

end BodyContract
