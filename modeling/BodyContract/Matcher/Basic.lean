import BodyContract.Placeholder.Predefined
/-!
Matchers: values of a body, named by a path, that are checked by a rule and not by their value.

A list of matchers is written as an array of records. The record of a matcher has the fields `path`
and `type` and, where they are needed, `value` and the bounds of a size.
-/

namespace BodyContract

/-- The rules by which a value is checked. -/
inductive MatchRule where
  /-- It equals the value of the expected body. -/
  | equality
  /-- It has the type of the value of the expected body and, where bounds are given, a size between
  them. -/
  | sameType
  /-- It is left to a call in the generated test. -/
  | command
  /-- It matches a pattern. -/
  | pattern
  /-- It is a date. -/
  | date
  /-- It is a time of a day. -/
  | time
  /-- It is a date with a time. -/
  | timestamp
  /-- It is null. -/
  | null
deriving DecidableEq, Repr, Inhabited

namespace MatchRule

/-- The rule with a name. -/
def ofName? (name : String) : Option MatchRule :=
  match name with
  | "equality" => some .equality
  | "type" => some .sameType
  | "command" => some .command
  | "regex" => some .pattern
  | "date" => some .date
  | "time" => some .time
  | "timestamp" => some .timestamp
  | "null" => some .null
  | _ => none

/-- The name of a rule. -/
def name : MatchRule → String
  | .equality => "equality"
  | .sameType => "type"
  | .command => "command"
  | .pattern => "regex"
  | .date => "date"
  | .time => "time"
  | .timestamp => "timestamp"
  | .null => "null"

/-- Whether the rule asks for a match with a pattern. -/
def isPatternRule : MatchRule → Bool
  | .pattern => true
  | .date => true
  | .time => true
  | .timestamp => true
  | _ => false

end MatchRule

/-- A rule for the values at a path. The argument is the pattern or the command, if there is one. -/
structure Matcher where
  path : String
  rule : MatchRule
  argument : Option String := none
  leastSize : Option Nat := none
  mostSize : Option Nat := none
deriving DecidableEq, Repr, Inhabited

namespace Matcher

/-! ## Making matchers -/

/-- The values match a pattern. -/
def byPattern (path pattern : String) : Matcher :=
  { path := path, rule := .pattern, argument := some pattern }

/-- The values are dates. -/
def byDate (path : String) : Matcher :=
  { path := path, rule := .date, argument := some Placeholder.datePattern }

/-- The values are times of a day. -/
def byTime (path : String) : Matcher :=
  { path := path, rule := .time, argument := some Placeholder.timePattern }

/-- The values are dates with a time. -/
def byTimestamp (path : String) : Matcher :=
  { path := path, rule := .timestamp, argument := some Placeholder.dateTimePattern }

/-- The value equals that of the expected body. -/
def byEquality (path : String) : Matcher := { path := path, rule := .equality }

/-- The value has the type of that of the expected body, and a size within bounds. -/
def byType (path : String) (leastSize mostSize : Option Nat) : Matcher :=
  { path := path, rule := .sameType, leastSize := leastSize, mostSize := mostSize }

/-- The value is null. -/
def byNull (path : String) : Matcher := { path := path, rule := .null }

/-- The value is handed to a command. -/
def byCommand (path command : String) : Matcher :=
  { path := path, rule := .command, argument := some command }

/-! ## Records of matchers -/

/-- The names of the fields in the record of a matcher, in their order. -/
def fieldNames : List String :=
  ["path", "type", "value", "min_type_occurrence", "max_type_occurrence"]

/-- The matcher that a record describes. -/
def ofJson? (record : Json) : Option Matcher := do
  match ← record.fields? fieldNames with
  | [some path, some rule, argument, leastSize, mostSize] =>
      some {
        path := ← path.text?
        rule := ← MatchRule.ofName? (← rule.choice?)
        argument := ← Json.optional? Json.text? argument
        leastSize := ← Json.optional? Json.unsigned64? leastSize
        mostSize := ← Json.optional? Json.unsigned64? mostSize
      }
  | _ => none

/-- The matchers that an array of records describes. -/
def listOfJson? : Json → Option (List Matcher)
  | .array records => records.mapM ofJson?
  | _ => none

/-- A size, or null. -/
def sizeJson : Option Nat → Json
  | none => .null
  | some size => .int (Int.ofNat size)

/-- The record of a matcher, with all its fields. -/
def toJson (matcher : Matcher) : Json :=
  .object (fieldNames.zip
    [.string matcher.path, .string matcher.rule.name,
      (matcher.argument.map Json.string).getD .null,
      sizeJson matcher.leastSize, sizeJson matcher.mostSize])

end Matcher

end BodyContract
