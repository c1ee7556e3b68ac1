import BodyContract.CommandLine.Run
/-!
The command line of the program: arguments, variables and files are read, and the outcome is
written.
-/

namespace BodyContract

/-- What stands at a path of the file system. -/
def stateOfFile (path : String) : IO FileState := do
  try
    return .text (← IO.FS.readFile path)
  catch error =>
    match error with
    | .noFileOrDirectory .. => return .missing
    | _ => return .unreadable

/-- The variables of the environment that change settings. -/
def settingVariables : IO (List (String × String)) := do
  let found ← SettingKey.names.mapM fun key => do
    let name := variableScope ++ "__" ++ key
    return (← IO.getEnv name).map fun value => (name, value)
  return found.filterMap id

end BodyContract

open BodyContract

/-- Runs the program. Errors in the arguments end it with code 2, other failures with code 1. -/
def main (arguments : List String) : IO UInt32 := do
  match Invocation.parse arguments with
  | .error .versionAsked =>
      IO.println "body-contract 0.1.0"
      return 0
  | .error .helpAsked =>
      IO.println "Usage: body-contract [--config FILE] (xeger | assertions | verify) ARGUMENTS"
      return 0
  | .error error =>
      IO.eprintln ("error: " ++ error.message)
      return 2
  | .ok invocation =>
      let assignments ← settingVariables
      let settingsPath := invocation.settings.or (← IO.getEnv (variableScope ++ "_CONFIG"))
      let states ← (settingsPath.toList ++ invocation.paths).mapM fun path => do
        return (path, ← stateOfFile path)
      let files : Files := fun path => (states.lookup path).getD .missing
      let freshSeed ← IO.rand 0 (twoTo 64 - 1)
      let outcome : Except Failure String := do
        let settings ← files.settings assignments settingsPath
        invocation.command.run files settings freshSeed
      match outcome with
      | .ok text =>
          IO.print text
          return 0
      | .error failure =>
          IO.eprintln ("error: " ++ String.intercalate ": " failure.lines)
          return 1
