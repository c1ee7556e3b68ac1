import BodyContract.Json.Basic
/-!
Documents that describe a record or a choice.

A record is written as an object with some of its fields, each once and no others, or as an array of
its fields in their order, of which the last may be missing. A choice without data is written as its
name, or as an object with the name as its single member and null.
-/

namespace BodyContract

namespace Json

/-- The value of each field, if it is given. -/
def fields? (names : List String) : Json → Option (List (Option Json))
  | .object members =>
      let given := members.map (·.1)
      if given.all names.contains && given.eraseDups.length == given.length then
        some (names.map fun name => members.lookup name)
      else
        none
  | .array elements =>
      if elements.length ≤ names.length then
        some ((List.range names.length).map fun index => elements[index]?)
      else
        none
  | _ => none

/-- The name of a choice without data. -/
def choice? : Json → Option String
  | .string name => some name
  | .object [(name, .null)] => some name
  | _ => none

/-- A field that holds a truth value. -/
def bool? : Json → Option Bool
  | .bool value => some value
  | _ => none

/-- A field that holds a text. -/
def text? : Json → Option String
  | .string text => some text
  | _ => none

/-- A field that holds a whole number of 64 bits without a sign. -/
def unsigned64? : Json → Option Nat
  | .number (.int value) => if 0 ≤ value && value < twoTo 64 then some value.toNat else none
  | _ => none

/-- A field that may be left out or null. -/
def optional? {α : Type} (decode : Json → Option α) : Option Json → Option (Option α)
  | none => some none
  | some .null => some none
  | some value => (decode value).map some

/-- A field that may be left out. -/
def withDefault? {α : Type} (default : α) (decode : Json → Option α) : Option Json → Option α
  | none => some default
  | some value => decode value

end Json

end BodyContract
