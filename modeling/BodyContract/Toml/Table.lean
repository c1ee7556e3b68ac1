import BodyContract.Json.Basic
/-!
Tables of a TOML document while it is being read.

Nothing may be defined twice. What may still be added to a table depends on how it came to be: a
table that a header has opened, or that is written in one piece, is closed to dotted keys; a table
that only stands in the header of another one may get a header of its own later.
-/

namespace BodyContract

namespace Toml

/-- How a table came to be. -/
inductive Origin where
  /-- A header has opened it, or it is the document. -/
  | header
  /-- It stands in front of the last name of a header. -/
  | implied
  /-- It stands in front of the last name of a key. -/
  | dotted
  /-- It is written in one piece. -/
  | inline
deriving DecidableEq, Repr

/-- What a name in a table stands for. -/
inductive Entry where
  | leaf (value : Json)
  | table (origin : Origin) (members : List (String × Entry))
deriving Repr

/-- The members of a table. -/
abbrev Members := List (String × Entry)

/-- Sets the entry of a name: in its place if it is there, at the end otherwise. -/
def setEntry (name : String) (entry : Entry) : Members → Members
  | [] => [(name, entry)]
  | (other, old) :: rest =>
      if other = name then (name, entry) :: rest else (other, old) :: setEntry name entry rest

/-- Defines a dotted key: the names of tables in front of its last name, that name, and what it
stands for. -/
def define? (tables : List String) (name : String) (entry : Entry) (members : Members) :
    Option Members :=
  match tables with
  | [] => if (members.lookup name).isSome then none else some (members ++ [(name, entry)])
  | table :: inner =>
      match members.lookup table with
      | none => do
          let found ← define? inner name entry []
          some (members ++ [(table, .table .dotted found)])
      | some (.table .dotted found) => do
          let found ← define? inner name entry found
          some (setEntry table (.table .dotted found) members)
      | some (.table .implied found) =>
          if inner.isEmpty then
            none
          else do
            let found ← define? inner name entry found
            some (setEntry table (.table .implied found) members)
      | some _ => none

/-- Opens the table of a header, given by the names in front of its last one and that name. -/
def openTable? (tables : List String) (name : String) (members : Members) : Option Members :=
  match tables with
  | [] =>
      match members.lookup name with
      | none => some (members ++ [(name, .table .header [])])
      | some (.table .implied found) => some (setEntry name (.table .header found) members)
      | some _ => none
  | table :: inner =>
      match members.lookup table with
      | none => do
          let found ← openTable? inner name []
          some (members ++ [(table, .table .implied found)])
      | some (.table .inline _) => none
      | some (.table origin found) => do
          let found ← openTable? inner name found
          some (setEntry table (.table origin found) members)
      | some (.leaf _) => none

/-- Changes the members of the table that a path leads to. -/
def within? (change : Members → Option Members) : (path : List String) → Members → Option Members
  | [], members => change members
  | table :: inner, members =>
      match members.lookup table with
      | some (.table origin found) => do
          let found ← within? change inner found
          some (setEntry table (.table origin found) members)
      | _ => none

mutual

/-- An entry as a document. -/
def Entry.toJson : Entry → Json
  | .leaf value => value
  | .table _ members => .object (membersToJson members)

/-- The members of a table as the members of an object. -/
def membersToJson : List (String × Entry) → List (String × Json)
  | [] => []
  | (name, entry) :: rest => (name, entry.toJson) :: membersToJson rest

end

end Toml

end BodyContract
