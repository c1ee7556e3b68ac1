/-!
A place in a text that is being read: the characters still to come, and how many bytes of UTF-8 lie
before them. Both grammars of this library (expressions and paths) report their faults by such byte
positions.
-/

namespace BodyContract

/-- The characters that are still to be read, and the byte position of the first of them. -/
structure Cursor where
  position : Nat
  rest : List Char
deriving DecidableEq, Repr, Inhabited

namespace Cursor

/-- The start of a text. -/
def ofString (text : String) : Cursor := ⟨0, text.toList⟩

/-- The next character, which stays unread. -/
def peek? (cursor : Cursor) : Option Char := cursor.rest.head?

/-- Reads one character. At the end of the text the cursor stays where it is. -/
def skip (cursor : Cursor) : Cursor :=
  match cursor.rest with
  | [] => cursor
  | c :: rest => ⟨cursor.position + c.utf8Size, rest⟩

/-- Reads `count` characters, or as many as are left. -/
def skipMany (cursor : Cursor) : Nat → Cursor
  | 0 => cursor
  | count + 1 => cursor.skip.skipMany count

/-- Reads the character `expected` if it comes next. -/
def eat? (cursor : Cursor) (expected : Char) : Option Cursor :=
  if cursor.peek? = some expected then some cursor.skip else none

/-- Reads the longest run of characters of a class. -/
def span (cursor : Cursor) (member : Char → Bool) : List Char × Cursor :=
  let run := cursor.rest.takeWhile member
  (run, cursor.skipMany run.length)

end Cursor

end BodyContract
