import BodyContract.Number.Power
import BodyContract.Regex.Category
/-!
Regular expressions that a filter matches texts with.

They differ from a `Pattern`, which describes texts to be made: they know places in a text (its
ends, the ends of lines and words), flags and the Unicode classes, and they search.
-/

namespace BodyContract

/-- A condition on a place in a text. Word conditions know whether they speak of Unicode words. -/
inductive Look where
  | textStart
  | textEnd
  | lineStart
  | lineEnd
  /-- The start of a line that ends with a line feed, a carriage return or both. -/
  | anyLineStart
  /-- The end of a line that ends with a line feed, a carriage return or both. -/
  | anyLineEnd
  | wordBoundary (isUnicode : Bool)
  | noWordBoundary (isUnicode : Bool)
  | wordStart (isUnicode : Bool)
  | wordEnd (isUnicode : Bool)
  | noWordBefore (isUnicode : Bool)
  | noWordAfter (isUnicode : Bool)
deriving DecidableEq, Repr

/-- The tree of a regular expression. -/
inductive Regex where
  | empty
  | look (condition : Look)
  | oneOf (set : CharSet)
  | group (body : Regex)
  | sequence (items : List Regex)
  | choice (branches : List Regex)
  | repeated (body : Regex) (least : Nat) (most : Option Nat)
deriving Repr, Inhabited

namespace Regex

/-- The items one behind the other, without a node of their own where there is only one. -/
def ofSequence : List Regex → Regex
  | [] => .empty
  | [only] => only
  | items => .sequence items

/-- Any of the branches, without a node of their own where there is only one. -/
def ofChoice : List Regex → Regex
  | [only] => only
  | branches => .choice branches

mutual

/-- How deep groups, repetitions, sequences and choices are nested. -/
def height : Regex → Nat
  | .empty => 0
  | .look _ => 0
  | .oneOf _ => 0
  | .group body => 1 + body.height
  | .sequence items => 1 + heightOfList items
  | .choice branches => 1 + heightOfList branches
  | .repeated body _ _ => 1 + body.height

/-- The greatest height in a list. -/
def heightOfList : List Regex → Nat
  | [] => 0
  | item :: rest => max item.height (heightOfList rest)

end

/-- The least number of bytes that a state of a matching machine takes. -/
def stateBytes : Nat := 32

/-- The bytes of the states that read one character of a set: a byte range for each range of ASCII
characters, and a few states for each range beyond. -/
def setBytes (set : CharSet) : Nat :=
  match set.ranges with
  | [] => stateBytes
  | [only] => if only.high < 0x80 then stateBytes else 10 * stateBytes
  | ranges =>
      if ranges.all (·.high < 0x80) then
        stateBytes + 8 * ranges.length
      else
        80 * ranges.length + 8 * stateBytes

mutual

/-- An estimate of the bytes of a machine for the expression. A repetition takes a copy of its body
for each time that its counts speak of. -/
def bytes : Regex → Nat
  | .empty => stateBytes
  | .look _ => stateBytes
  | .oneOf set => setBytes set
  | .group body => 2 * stateBytes + body.bytes
  | .sequence items => bytesOfList items
  | .choice branches => 2 * stateBytes + bytesOfList branches
  | .repeated body least most =>
      match most with
      | none => max least 1 * body.bytes + 2 * stateBytes
      | some bound =>
          least * body.bytes + (bound - least) * (body.bytes + 2 * stateBytes) + stateBytes

/-- The bytes for all expressions of a list. -/
def bytesOfList : List Regex → Nat
  | [] => 0
  | item :: rest => item.bytes + bytesOfList rest

end

/-- The greatest height of an expression. -/
def heightLimit : Nat := 250

/-- The largest machine that is built. -/
def bytesLimit : Nat := 10 * twoTo 20

end Regex

end BodyContract
