/-!
Sets of characters, held as ranges of code points.

The universe is every character, that is every code point up to `U+10FFFF` outside the surrogate
block `U+D800..U+DFFF`. A set that the operations of this module build is *canonical*: its ranges
are non-empty, ascend, neither overlap nor touch, and stay inside the universe, so two sets with the
same members are equal.

* `CharSet.ofRanges` takes any list of ranges, in any order, and cuts it to the universe.
* `CharSet.union`, `CharSet.inter` and `CharSet.compl` are the Boolean operations.
-/

namespace BodyContract

/-- The code points from `low` to `high`, both included; none at all if `high` lies below `low`. -/
structure Interval where
  low : Nat
  high : Nat
deriving DecidableEq, Repr, Inhabited

namespace Interval

/-- Whether a code point lies between the two ends. -/
def contains (interval : Interval) (point : Nat) : Bool :=
  interval.low ≤ point && point ≤ interval.high

/-- Whether the interval holds a code point. -/
def inhabited (interval : Interval) : Bool :=
  interval.low ≤ interval.high

/-- Intervals are ordered by their lower ends, then by their upper ends. -/
def before (left right : Interval) : Bool :=
  left.low < right.low || (left.low == right.low && left.high ≤ right.high)

end Interval

/-- A set of characters as a list of ranges. -/
structure CharSet where
  ranges : List Interval
deriving DecidableEq, Repr, Inhabited

namespace CharSet

/-- The last code point of the universe. -/
def maxCodePoint : Nat := 0x10FFFF

/-- No character. -/
def empty : CharSet := ⟨[]⟩

/-- Every character: the code points on both sides of the surrogate block. -/
def univ : CharSet := ⟨[⟨0, 0xD7FF⟩, ⟨0xE000, maxCodePoint⟩]⟩

/-- Whether the set has no member. -/
def isEmpty (set : CharSet) : Bool := set.ranges.isEmpty

/-- Whether a code point lies in one of the ranges. -/
def containsPoint (set : CharSet) (point : Nat) : Bool :=
  set.ranges.any (·.contains point)

/-- Whether the character is a member. -/
def contains (set : CharSet) (c : Char) : Bool := set.containsPoint c.toNat

/-- Joins `current` with the intervals behind it that overlap or touch it, in a list that ascends.
-/
def joinAux (current : Interval) : List Interval → List Interval
  | [] => [current]
  | next :: rest =>
      if next.low ≤ current.high + 1 then
        joinAux ⟨current.low, max current.high next.high⟩ rest
      else
        current :: joinAux next rest

/-- Joins the intervals of an ascending list that overlap or touch. -/
def join : List Interval → List Interval
  | [] => []
  | first :: rest => joinAux first rest

/-- Drops the empty intervals, puts the others in order and joins those that overlap or touch. -/
def normalize (ranges : List Interval) : List Interval :=
  join ((ranges.filter Interval.inhabited).mergeSort Interval.before)

/-- The common parts of two ascending lists of intervals, walking along both at once: of the two
intervals in front, the one that ends first is used up. -/
def meet : List Interval → List Interval → List Interval
  | [], _ => []
  | _ :: _, [] => []
  | a :: as, b :: bs =>
      let common : Interval := ⟨max a.low b.low, min a.high b.high⟩
      let others := if a.high < b.high then meet as (b :: bs) else meet (a :: as) bs
      if common.inhabited then common :: others else others
termination_by left right => left.length + right.length

/-- What an ascending list of intervals leaves out from the code point `next` on. -/
def gapsAux (next : Nat) : List Interval → List Interval
  | [] => if next ≤ maxCodePoint then [⟨next, maxCodePoint⟩] else []
  | range :: rest =>
      if next < range.low then
        ⟨next, range.low - 1⟩ :: gapsAux (range.high + 1) rest
      else
        gapsAux (range.high + 1) rest

/-- The characters in both sets. -/
def inter (left right : CharSet) : CharSet := ⟨meet left.ranges right.ranges⟩

/-- The characters in one of the sets at least. -/
def union (left right : CharSet) : CharSet := ⟨normalize (left.ranges ++ right.ranges)⟩

/-- The characters outside the set. -/
def compl (set : CharSet) : CharSet := inter ⟨gapsAux 0 set.ranges⟩ univ

/-- The characters whose code points lie in one of the given ranges, which may be empty, overlap,
stand in any order and reach outside the universe. -/
def ofRanges (ranges : List Interval) : CharSet := inter ⟨normalize ranges⟩ univ

/-- The characters from `low` to `high`. -/
def range (low high : Char) : CharSet := ofRanges [⟨low.toNat, high.toNat⟩]

/-- One character. -/
def single (c : Char) : CharSet := range c c

/-- The ASCII digits. -/
def digit : CharSet := range '0' '9'

/-- The ASCII letters and digits and the low line. -/
def word : CharSet :=
  ofRanges
    [⟨'0'.toNat, '9'.toNat⟩, ⟨'A'.toNat, 'Z'.toNat⟩, ⟨'_'.toNat, '_'.toNat⟩, ⟨'a'.toNat, 'z'.toNat⟩]

/-- Tab, line feed, carriage return and blank. -/
def space : CharSet := ofRanges [⟨0x09, 0x0A⟩, ⟨0x0D, 0x0D⟩, ⟨0x20, 0x20⟩]

/-- The characters with the Unicode property `White_Space`. -/
def whiteSpace : CharSet :=
  ofRanges
    [⟨0x09, 0x0D⟩, ⟨0x20, 0x20⟩, ⟨0x85, 0x85⟩, ⟨0xA0, 0xA0⟩, ⟨0x1680, 0x1680⟩, ⟨0x2000, 0x200A⟩,
      ⟨0x2028, 0x2029⟩, ⟨0x202F, 0x202F⟩, ⟨0x205F, 0x205F⟩, ⟨0x3000, 0x3000⟩]

/-- The characters that are no white space. It is not the complement of `space`: a vertical tab or a
no-break space is in neither. -/
def nonSpace : CharSet := whiteSpace.compl

/-- The member of a set that has exactly one. -/
def only? (set : CharSet) : Option Char :=
  match set.ranges with
  | [one] => if one.low = one.high then some (Char.ofNat one.low) else none
  | _ => none

end CharSet

end BodyContract
