import BodyContract.Settings.Document
import BodyContract.Text.Search
/-!
Settings in files. The format of a file is its extension.
-/

namespace BodyContract

/-- What stands at a path. -/
inductive FileState where
  /-- Nothing. -/
  | missing
  /-- Something that cannot be read as a text. -/
  | unreadable
  | text (content : String)
deriving DecidableEq, Repr

/-- The last name of a path. -/
def fileName (path : String) : String :=
  String.ofList (path.toList.reverse.takeWhile (· != '/')).reverse

/-- The extension of a path: what follows the last dot of its last name, if anything stands in front
of that dot. -/
def fileExtension? (path : String) : Option String :=
  let name := fileName path
  if name = ".." then
    none
  else
    match splitAtLast? ['.'] name.toList with
    | none => none
    | some ([], _) => none
    | some (_, behind) => some (String.ofList (behind.drop 1))

namespace Settings

/-- Reads settings from the file at a path. -/
def ofFile (path : String) (file : FileState) : Except SettingsError Settings :=
  match file with
  | .missing => .error (.fileNotFound path)
  | .unreadable => .error (.unreadableFile path)
  | .text content =>
      match fileExtension? path with
      | none => .error (.unsupportedFormat path)
      | some extension => ofText extension content

/-- Reads settings from the file at a path, if there is one; otherwise they stay as they are. -/
def ofOptionalFile (settings : Settings) (path : String) (file : FileState) :
    Except SettingsError Settings :=
  match file with
  | .missing => .ok settings
  | other => ofFile path other

end Settings

end BodyContract
