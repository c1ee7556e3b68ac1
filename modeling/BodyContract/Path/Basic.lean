import BodyContract.Json.Basic
import BodyContract.Regex.Basic
/-!
JSON paths.

A path selects values of a document. Its segments lead from the root to members, elements and
descendants, and filters keep the values on which a condition holds. Conditions compare operands,
which are paths again (`@` from the value under test, `$` from the root), literals and regular
expressions.
-/

namespace BodyContract

/-- How a condition compares its operands. -/
inductive Comparison where
  | equal
  | notEqual
  | less
  | lessOrEqual
  | greater
  | greaterOrEqual
  /-- The text on the left matches the regular expression on the right. -/
  | matching
deriving DecidableEq, Repr

/-- The sign of a comparison in a filter. -/
def Comparison.sign : Comparison → String
  | .equal => "=="
  | .notEqual => "!="
  | .less => "<"
  | .lessOrEqual => "<="
  | .greater => ">"
  | .greaterOrEqual => ">="
  | .matching => "=~"

/-- A regular expression that has to match a whole text, with its text. -/
structure FullMatch where
  text : String
  regex : Regex
deriving Repr, Inhabited

mutual

/-- One step of a path. -/
inductive Segment where
  /-- The member of an object. -/
  | child (name : String)
  /-- The element of an array; a negative position counts from the end. -/
  | element (position : Int)
  /-- All members or elements. -/
  | wildcard
  /-- The members of a name, or all members and elements, of the value and of everything inside it.
  -/
  | descendants (name : Option String)
  /-- The elements of an array, or a value that is no array, on which a condition holds. -/
  | filter (condition : Condition)

/-- What a filter tests. -/
inductive Condition where
  | either (left right : Condition)
  | both (left right : Condition)
  | present (operand : Operand)
  | compares (left : Operand) (comparison : Comparison) (right : Operand)

/-- What a condition speaks about. -/
inductive Operand where
  /-- A path from the value under test; with `counts`, the size of what it selects. -/
  | current (segments : List Segment) (counts : Bool)
  /-- A path from the root of the document. -/
  | root (segments : List Segment) (counts : Bool)
  | literal (value : Json)
  | regex (pattern : FullMatch)

end

instance : Inhabited Segment := ⟨.wildcard⟩

instance : Inhabited Operand := ⟨.literal .null⟩

instance : Inhabited Condition := ⟨.present default⟩

namespace Segment

/-- Whether the segment leads to one value at most. -/
def isDefinite : Segment → Bool
  | .child _ => true
  | .element _ => true
  | _ => false

end Segment

/-- A path with the text that it was read from. -/
structure Path where
  text : String
  segments : List Segment

/-- Whether segments lead to one value at most. -/
def areDefinite (segments : List Segment) : Bool := segments.all Segment.isDefinite

namespace Path

/-- Whether the path leads to one value at most. -/
def isDefinite (path : Path) : Bool := areDefinite path.segments

end Path

/-- What can be malformed in a path. -/
inductive PathFault where
  | missingRoot
  | unexpectedCharacter (c : Char)
  | unsupportedDescent
  | expectedName
  | expectedSelector
  | expected (c : Char)
  | unterminatedString
  | unsupportedSlice
  | invalidIndex (text : String)
  | expectedRegex
  | invalidNumber (text : String)
  | expectedOperand
  | unterminatedRegex
deriving DecidableEq, Repr

/-- The wording of a fault. -/
def PathFault.message : PathFault → String
  | .missingRoot => "path must start with '$'"
  | .unexpectedCharacter c => "unexpected character '" ++ c.toString ++ "'"
  | .unsupportedDescent => "unsupported recursive descent"
  | .expectedName => "expected a property name"
  | .expectedSelector => "expected '*', '?(', a quoted name or an index"
  | .expected c => "expected '" ++ c.toString ++ "'"
  | .unterminatedString => "unterminated string"
  | .unsupportedSlice => "slices and unions are not supported"
  | .invalidIndex text => "invalid index '" ++ text ++ "'"
  | .expectedRegex => "'=~' expects a /regex/ operand"
  | .invalidNumber text => "invalid number '" ++ text ++ "'"
  | .expectedOperand => "expected a filter operand"
  | .unterminatedRegex => "unterminated regex"

/-- Why the characters of a path cannot be read. Positions count bytes. -/
inductive PathProblem where
  | malformed (position : Nat) (fault : PathFault)
  | invalidRegex (body : String)
deriving DecidableEq, Repr

/-- Why a path gives no value. -/
inductive PathError where
  /-- The text breaks the grammar. -/
  | malformed (path : String) (position : Nat) (fault : PathFault)
  /-- A filter holds a regular expression that cannot be read. -/
  | invalidRegex (body : String)
  /-- A path that leads to one value at most leads to none. -/
  | notFound (path : String)
deriving DecidableEq, Repr

/-- The error of a path whose characters cannot be read. -/
def PathProblem.inPath (path : String) : PathProblem → PathError
  | .malformed position fault => .malformed path position fault
  | .invalidRegex body => .invalidRegex body

namespace PathError

/-- The path that an error speaks of. -/
def path? : PathError → Option String
  | .malformed path _ _ => some path
  | .invalidRegex _ => none
  | .notFound path => some path

/-- The wording of an error. -/
def message : PathError → String
  | .malformed path position fault =>
      "invalid JSON path \x60" ++ path ++ "\x60 at position " ++ toString position ++ ": " ++
        fault.message
  | .invalidRegex body => "invalid regex \x60" ++ body ++ "\x60 in JSON path"
  | .notFound path => "no value found at JSON path \x60" ++ path ++ "\x60"

end PathError

end BodyContract
