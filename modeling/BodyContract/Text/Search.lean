/-!
Looking for a text inside another one.
-/

namespace BodyContract

/-- Whether `needle` stands somewhere in a list. -/
def hasInfix {α : Type} [BEq α] (needle : List α) : List α → Bool
  | [] => needle.isEmpty
  | item :: rest => needle.isPrefixOf (item :: rest) || hasInfix needle rest

/-- Whether `needle` stands somewhere in a text. -/
def containsText (text needle : String) : Bool := hasInfix needle.toList text.toList

/-- Splits a list at the first place where it goes on with `separator`. -/
def splitAtFirst? {α : Type} [BEq α] (separator : List α) : List α → Option (List α × List α)
  | [] => none
  | item :: rest =>
      if separator.isPrefixOf (item :: rest) then
        some ([], (item :: rest).drop separator.length)
      else
        (splitAtFirst? separator rest).map fun (front, back) => (item :: front, back)

/-- Replaces the places where a list goes on with `pattern`, from the front, none of them
overlapping; `skipped` items still belong to the last of them. -/
def replaceAllAux {α : Type} [BEq α] (pattern replacement : List α) : Nat → List α → List α
  | _, [] => []
  | skipped + 1, _ :: rest => replaceAllAux pattern replacement skipped rest
  | 0, item :: rest =>
      if pattern.isPrefixOf (item :: rest) then
        replacement ++ replaceAllAux pattern replacement (pattern.length - 1) rest
      else
        item :: replaceAllAux pattern replacement 0 rest

/-- Replaces every place where `pattern`, which is not empty, stands in a text. -/
def replaceAll (text pattern replacement : String) : String :=
  String.ofList (replaceAllAux pattern.toList replacement.toList 0 text.toList)

/-- Splits a list in front of the last place where it goes on with `separator`; the back begins with
it. -/
def splitAtLast? {α : Type} [BEq α] (separator : List α) : List α → Option (List α × List α)
  | [] => none
  | item :: rest =>
      match splitAtLast? separator rest with
      | some (front, back) => some (item :: front, back)
      | none =>
          if separator.isPrefixOf (item :: rest) then some ([], item :: rest) else none

end BodyContract
