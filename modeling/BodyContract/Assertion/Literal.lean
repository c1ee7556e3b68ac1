import BodyContract.Json.Printer
/-!
Values and patterns as they stand inside the text of a path.
-/

namespace BodyContract

/-- A text between single quotes, with a backslash in front of each backslash and single quote. -/
def quoteForPath (text : String) : String :=
  let escaped := text.toList.flatMap fun c => if c = '\\' || c = '\'' then ['\\', c] else [c]
  String.ofList ('\'' :: escaped ++ ['\''])

namespace Json

/-- A value as the literal of a filter. An array or object is the quoted text of itself. -/
def filterLiteral : Json → String
  | .string text => quoteForPath text
  | .number value => String.ofList value.text
  | .bool true => "true"
  | .bool false => "false"
  | .null => "null"
  | container => quoteForPath container.render

/-- The text of a value: a string without its quotes, any other value as in a document. -/
def label : Json → String
  | .string text => text
  | other => other.render

end Json

/-- Puts a backslash in front of each slash that has none; `isEscaped` tells whether a lone
backslash stands in front. -/
def escapeSlashesAux : Bool → List Char → List Char
  | _, [] => []
  | isEscaped, c :: rest =>
      let behind := escapeSlashesAux (c == '\\' && !isEscaped) rest
      if c = '/' && !isEscaped then '\\' :: c :: behind else c :: behind

/-- A pattern as it stands between the slashes of a filter. -/
def escapeSlashes (pattern : String) : String :=
  String.ofList (escapeSlashesAux false pattern.toList)

end BodyContract
