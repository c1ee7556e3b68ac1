import BodyContract.Regex.Basic
/-!
Matching a regular expression.

`Regex.advance` takes a set of places in a text, as an ascending list, to the set of places at which
a match that begins in one of them can end. It is computed along the tree of the expression, for all
places at once, so no text makes it run for long.
-/

namespace BodyContract

/-- The union of two ascending lists of places. -/
def mergePlaces : List Nat → List Nat → List Nat
  | [], right => right
  | left, [] => left
  | a :: left, b :: right =>
      if a < b then a :: mergePlaces left (b :: right)
      else if b < a then b :: mergePlaces (a :: left) right
      else a :: mergePlaces left right
termination_by left right => left.length + right.length

namespace Look

/-- Whether a character is part of a word. -/
def isWordCharacter (isUnicode : Bool) (c : Option Char) : Bool :=
  match c with
  | none => false
  | some c => (if isUnicode then Category.wordCharacter else CharSet.word).contains c

/-- Whether a condition holds between the characters `before` and `after`; at the ends of the text
one of them is missing. -/
def holds (condition : Look) (before after : Option Char) : Bool :=
  match condition with
  | .textStart => before.isNone
  | .textEnd => after.isNone
  | .lineStart => before.isNone || before == some '\n'
  | .lineEnd => after.isNone || after == some '\n'
  | .anyLineStart =>
      before.isNone || before == some '\n' || (before == some '\r' && after != some '\n')
  | .anyLineEnd =>
      after.isNone || after == some '\r' || (after == some '\n' && before != some '\r')
  | .wordBoundary isUnicode => isWordCharacter isUnicode before != isWordCharacter isUnicode after
  | .noWordBoundary isUnicode => isWordCharacter isUnicode before == isWordCharacter isUnicode after
  | .wordStart isUnicode => !isWordCharacter isUnicode before && isWordCharacter isUnicode after
  | .wordEnd isUnicode => isWordCharacter isUnicode before && !isWordCharacter isUnicode after
  | .noWordBefore isUnicode => !isWordCharacter isUnicode before
  | .noWordAfter isUnicode => !isWordCharacter isUnicode after

/-- Whether a condition holds at a place of a text. -/
def holdsAt (condition : Look) (text : Array Char) (place : Nat) : Bool :=
  condition.holds (if place = 0 then none else text[place - 1]?) text[place]?

end Look

/-- Takes `count` steps; a step that changes nothing ends them. -/
def stepTimes (step : List Nat → List Nat) : (count : Nat) → List Nat → List Nat
  | 0, places => places
  | count + 1, places =>
      let next := step places
      if next = places then places else stepTimes step count next

/-- All places that at most `count` steps lead to; `fresh` are those of `found` from which no step
has been taken. -/
def stepUpTo (step : List Nat → List Nat) :
    (count : Nat) → (found fresh : List Nat) → List Nat
  | 0, found, _ => found
  | count + 1, found, fresh =>
      let next := (step fresh).filter fun place => !found.contains place
      if next.isEmpty then found else stepUpTo step count (mergePlaces found next) next

namespace Regex

mutual

/-- The places at which a match that begins in one of the given places can end. -/
def advance (text : Array Char) : Regex → List Nat → List Nat
  | .empty, places => places
  | .look condition, places => places.filter (condition.holdsAt text)
  | .oneOf set, places =>
      places.filterMap fun place =>
        match text[place]? with
        | none => none
        | some c => if set.contains c then some (place + 1) else none
  | .group body, places => advance text body places
  | .sequence items, places => advanceThrough text items places
  | .choice branches, places => advanceAny text branches places
  | .repeated body least most, places =>
      let required := stepTimes (fun current => advance text body current) least places
      let optional :=
        match most with
        | none => text.size + 1
        | some bound => bound - least
      stepUpTo (fun current => advance text body current) optional required required

/-- The places behind all items, one behind the other. -/
def advanceThrough (text : Array Char) : List Regex → List Nat → List Nat
  | [], places => places
  | item :: rest, places => advanceThrough text rest (advance text item places)

/-- The places behind one of the branches. -/
def advanceAny (text : Array Char) : List Regex → List Nat → List Nat
  | [], _ => []
  | branch :: rest, places =>
      mergePlaces (advance text branch places) (advanceAny text rest places)

end

/-- Whether some part of the text matches the expression. -/
def isMatch (regex : Regex) (text : String) : Bool :=
  let chars := text.toList.toArray
  !(advance chars regex (List.range (chars.size + 1))).isEmpty

end Regex

end BodyContract
