import BodyContract.Json.Printer
import BodyContract.Path.Basic
/-!
How an assertion about a document can fail.
-/

namespace BodyContract

/-- Why an assertion does not hold, or cannot be checked. -/
inductive AssertionError where
  /-- Nothing in the document is at the path. -/
  | noMatch (path : String) (document : Json)
  /-- The number of values is another one. -/
  | sizeMismatch (path : String) (expected actual : Nat)
  /-- A value at the path has something inside. -/
  | notEmpty (path : String) (document : Json)
  /-- A value at the path is no instance of the class. -/
  | wrongType (path className : String) (document : Json)
  /-- The path that was built cannot be read. -/
  | invalidPath (error : PathError)
  /-- The text of the document is no JSON. -/
  | invalidJson
  /-- The value at the path does not have the form asked for. -/
  | unreadable (path : String)
deriving Repr

namespace AssertionError

/-- The path that an error speaks of. -/
def path? : AssertionError → Option String
  | .noMatch path _ => some path
  | .sizeMismatch path _ _ => some path
  | .notEmpty path _ => some path
  | .wrongType path _ _ => some path
  | .invalidPath error => error.path?
  | .invalidJson => none
  | .unreadable path => some path

/-- The wording of an error. -/
def message : AssertionError → String
  | .noMatch path document =>
      "parsed JSON [" ++ document.render ++ "] doesn't match the JSON path [" ++ path ++ "]"
  | .sizeMismatch path expected actual =>
      "JSON path [" ++ path ++ "] has size " ++ toString actual ++ ", expected " ++
        toString expected
  | .notEmpty path document =>
      "JSON path [" ++ path ++ "] is not empty in [" ++ document.render ++ "]"
  | .wrongType path className document =>
      "JSON path [" ++ path ++ "] is not an instance of " ++ className ++ " in [" ++
        document.render ++ "]"
  | .invalidPath error => error.message
  | .invalidJson => "invalid JSON document"
  | .unreadable path => "cannot read JSON path [" ++ path ++ "]"

end AssertionError

end BodyContract
