import BodyContract.Error
import BodyContract.Json.Decoding
import BodyContract.Number.Text
import BodyContract.Recording.JavaLiteral
import BodyContract.Sampling.Sampler
/-!
Placeholders: values of which only a pattern and a kind are given.

In a body a placeholder is written as a marker, an object with the member `$regex` that holds the
pattern and, unless the kind is a text, the member `$type` that names the kind. Samples are texts of
the pattern, read as values of the kind.
-/

namespace BodyContract

/-- The kinds of values. -/
inductive ValueKind where
  | text
  | integer
  | double
  | float
  | long
  | short
  | boolean
deriving DecidableEq, Repr, Inhabited

namespace ValueKind

/-- The kinds by their names in a marker. -/
def ofName? (name : String) : Option ValueKind :=
  match name with
  | "string" => some .text
  | "integer" => some .integer
  | "double" => some .double
  | "float" => some .float
  | "long" => some .long
  | "short" => some .short
  | "boolean" => some .boolean
  | _ => none

/-- The name of a kind in a marker. -/
def name : ValueKind → String
  | .text => "string"
  | .integer => "integer"
  | .double => "double"
  | .float => "float"
  | .long => "long"
  | .short => "short"
  | .boolean => "boolean"

/-- The name of a kind in a message. -/
def title : ValueKind → String
  | .text => "String"
  | .integer => "Integer"
  | .double => "Double"
  | .float => "Float"
  | .long => "Long"
  | .short => "Short"
  | .boolean => "Boolean"

/-- Whether values of the kind are numbers. -/
def isNumber : ValueKind → Bool
  | .text => false
  | .boolean => false
  | _ => true

/-- Reads a text as a whole number within limits. -/
def readWhole? (low high : Int) (text : String) : Option Json :=
  (wholeBetween? low high text).map Json.int

/-- Reads a text as a floating-point number of a format, which is then held with 64 bits. -/
def readFloat? (precision : Precision) (text : String) : Option Json :=
  ((Numeral.ofText? text).bind (Numeral.nearest? precision)).map fun value =>
    .number (.float value.widen)

/-- Reads a text as a value of the kind. Every text is a truth value: all but `true` are false. -/
def read? (kind : ValueKind) (text : String) : Option Json :=
  match kind with
  | .text => some (.string text)
  | .integer => readWhole? (-twoTo 31) (twoTo 31 - 1) text
  | .long => readWhole? (-twoTo 63) (twoTo 63 - 1) text
  | .short => readWhole? (-twoTo 15) (twoTo 15 - 1) text
  | .double => readFloat? .double text
  | .float => readFloat? .single text
  | .boolean => some (.bool (text.toList.map Char.toLower == "true".toList))

end ValueKind

/-- A value of which the pattern and the kind are given. -/
structure Placeholder where
  pattern : String
  kind : ValueKind
deriving DecidableEq, Repr, Inhabited

namespace Placeholder

/-- The member of a marker that holds the pattern. -/
def patternMember : String := "$regex"

/-- The member of a marker that names the kind. -/
def kindMember : String := "$type"

/-- A placeholder for texts. -/
def ofPattern (pattern : String) : Placeholder := ⟨pattern, .text⟩

/-- The same pattern with another kind. -/
def withKind (placeholder : Placeholder) (kind : ValueKind) : Placeholder :=
  { placeholder with kind := kind }

/-- The pattern that a value marks, whatever its kind is. -/
def markedPattern? : Json → Option String
  | .object members =>
      match members.lookup patternMember with
      | some (.string pattern) =>
          if members.length = 1 then
            some pattern
          else if members.length = 2 && (members.lookup kindMember).isSome then
            some pattern
          else
            none
      | _ => none
  | _ => none

/-- The placeholder that a value marks. -/
def ofMarker? (value : Json) : Option Placeholder := do
  let pattern ← markedPattern? value
  match value.member? kindMember with
  | none => some (ofPattern pattern)
  | some kind => do
      let name ← kind.choice?
      let kind ← ValueKind.ofName? name
      some ⟨pattern, kind⟩

/-- The marker of a placeholder. -/
def marker (placeholder : Placeholder) : Json :=
  match placeholder.kind with
  | .text => .object [(patternMember, .string placeholder.pattern)]
  | kind => .object [(patternMember, .string placeholder.pattern), (kindMember, .string kind.name)]

/-- How often a sample is made before giving up. -/
def attempts : Nat := 100

/-- Makes texts until one is accepted and can be read as a value of the kind. -/
def generateAux (placeholder : Placeholder) :
    (attempts : Nat) → (last : String) → Sampler → Except ContractError Json
  | 0, last, _ => .error (.generation placeholder.pattern placeholder.kind.title last)
  | attempts + 1, _, sampler =>
      let (text, sampler) := sampler.sample
      let value :=
        if sampler.automaton.accepts text then placeholder.kind.read? text else none
      match value with
      | some value => .ok value
      | none => generateAux placeholder attempts text sampler

/-- The sample that belongs to a seed. -/
def generateSeeded (placeholder : Placeholder) (seed : UInt64) : Except ContractError Json :=
  match Sampler.ofExpression placeholder.pattern (.ofSeed seed) with
  | .error error => .error (.pattern error)
  | .ok sampler => generateAux placeholder attempts "" sampler

/-- A sample where no seed is given. One fixed seed serves for all, so that a body has the same
samples every time. -/
def generate (placeholder : Placeholder) : Except ContractError Json := placeholder.generateSeeded 0

/-- A sample as it stands in a generated test: a number as it is, any other value as the escaped
inside of a string literal. -/
def generateEscaped (placeholder : Placeholder) : Except ContractError Json := do
  let value ← placeholder.generate
  if placeholder.kind.isNumber then
    .ok value
  else
    match value with
    | .string text => .ok (.string (escapeJava text))
    | other => .ok (.string (escapeJava other.render))

mutual

/-- The body with samples in the place of its markers. -/
def fill (body : Json) : Except ContractError Json :=
  match ofMarker? body with
  | some placeholder => placeholder.generateEscaped
  | none =>
      match body with
      | .object members => do .ok (.object (← fillMembers members))
      | .array elements => do .ok (.array (← fillElements elements))
      | other => .ok other

/-- Members with samples in the place of the markers in them. -/
def fillMembers : List (String × Json) → Except ContractError (List (String × Json))
  | [] => .ok []
  | (name, value) :: rest => do
      let filled ← fill value
      let others ← fillMembers rest
      .ok ((name, filled) :: others)

/-- Elements with samples in the place of the markers in them. -/
def fillElements : List Json → Except ContractError (List Json)
  | [] => .ok []
  | value :: rest => do
      let filled ← fill value
      let others ← fillElements rest
      .ok (filled :: others)

end

end Placeholder

end BodyContract
