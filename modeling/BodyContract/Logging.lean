import BodyContract.Text.LetterCase
import BodyContract.Text.Search
/-!
What is logged, and how.

What is logged is a level or a filter: a list of directives, each for a target, a level or a level
of a target.
-/

namespace BodyContract

/-- The forms of log lines. -/
inductive LogFormat where
  /-- A JSON object on each line. -/
  | json
  /-- Several lines for an event. -/
  | pretty
  /-- One line for an event. -/
  | compact
deriving DecidableEq, Repr, Inhabited

namespace LogFormat

/-- The format with a name. -/
def ofName? (name : String) : Option LogFormat :=
  match name with
  | "json" => some .json
  | "pretty" => some .pretty
  | "compact" => some .compact
  | _ => none

/-- The format with a name in upper or lower case. -/
def ofText? (text : String) : Option LogFormat := ofName? (lowerText text)

/-- The name of a format. -/
def name : LogFormat → String
  | .json => "json"
  | .pretty => "pretty"
  | .compact => "compact"

end LogFormat

/-- How log lines are written. -/
structure LogOptions where
  isEnabled : Bool := true
  /-- A level or a filter. -/
  level : String := "warn"
  format : LogFormat := .compact
  /-- Whether the place in the sources is shown. -/
  showsPlace : Bool := false
  /-- Whether the target is shown. -/
  showsTarget : Bool := true
deriving DecidableEq, Repr

namespace LogOptions

/-- Few events, for everyday use. -/
def default : LogOptions := {}

instance : Inhabited LogOptions := ⟨default⟩

/-- Many events at length, for work on the program. -/
def development : LogOptions := { level := "debug", format := .pretty, showsPlace := true }

/-- Lines that another program reads. -/
def json : LogOptions := { level := "info", format := .json }

end LogOptions

/-- Why log lines cannot be written. -/
inductive LogError where
  /-- There is no format of that name. -/
  | unknownFormat (name : String)
  /-- The filter cannot be read. -/
  | malformedFilter (filter : String)
deriving DecidableEq, Repr

/-- The wording of an error. -/
def LogError.message : LogError → String
  | .unknownFormat name =>
      "Invalid log format '" ++ name ++ "': expected 'json', 'pretty' or 'compact'"
  | .malformedFilter filter => "Invalid log filter '" ++ filter ++ "'"

namespace Log

/-- The names of the levels, from none to all. -/
def levels : List String := ["off", "error", "warn", "info", "debug", "trace"]

/-- Whether a text is the name of a level, in upper or lower case. -/
def isLevel (text : String) : Bool := levels.contains (lowerAscii text)

/-- Whether a text names a level or gives its number. -/
def isLevelOrNumber (text : String) : Bool :=
  isLevel text || ["0", "1", "2", "3", "4", "5"].contains text

/-- Whether a character may stand in a target. -/
def isTargetChar (c : Char) : Bool :=
  Category.wordCharacter.contains c || c == ':' || c == '-'

/-- Whether a text is a directive: a target or a level, or a target with a level behind an equals
sign, which may be left out. -/
def isDirective (text : List Char) : Bool :=
  let (target, behind) := text.span isTargetChar
  match behind with
  | [] => !target.isEmpty
  | '=' :: level => !target.isEmpty && (level.isEmpty || isLevelOrNumber (String.ofList level))
  | _ => false

/-- The pieces of a list between its commas. -/
def splitAtCommas (text : List Char) : List (List Char) :=
  text.foldr
    (fun c pieces =>
      match pieces with
      | [] => [[c]]
      | piece :: rest => if c = ',' then [] :: piece :: rest else (c :: piece) :: rest)
    [[]]

/-- Whether a text is a filter: directives with commas between them. -/
def isFilter (text : String) : Bool :=
  (splitAtCommas text.toList).all fun piece => piece.isEmpty || isDirective piece

/-- Checks that a text is a filter. -/
def checkFilter (text : String) : Except LogError Unit :=
  if isFilter text then .ok () else .error (.malformedFilter text)

/-- The format with a name in upper or lower case. -/
def parseFormat (text : String) : Except LogError LogFormat :=
  match LogFormat.ofText? text with
  | none => .error (.unknownFormat text)
  | some format => .ok format

end Log

end BodyContract
