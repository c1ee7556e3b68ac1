import BodyContract.Matcher.Basic
import BodyContract.Path.Evaluation
import BodyContract.Text.Search
/-!
The part of a body that no matcher speaks of.

First the values at the paths of the matchers are removed. Then, for each path that has removed
something and in descending order of the paths, the containers are removed that have nothing but
empty containers left inside: what the path names without its last brackets, what stands in front of
its last dot, and so on up to the root. The root itself stays.
-/

namespace BodyContract

namespace Json

/-- Whether a value is a container in which there are only empty containers. -/
def isHollow : Json → Bool
  | .object members => members.all fun (_, value) => value.isEmptyContainer
  | .array elements => elements.all isEmptyContainer
  | _ => false

/-- Whether a value is an array in which there are only hollow containers. -/
def isArrayOfHollow : Json → Bool
  | .array elements => elements.all isHollow
  | _ => false

/-- The document without the values at a path; the same document if the path cannot be read. -/
def deleteIfReadable (document : Json) (path : String) : Json :=
  match document.delete path with
  | .error _ => document
  | .ok (_, smaller) => smaller

end Json

namespace Json

mutual

/-- The number of values in a document, the document included. -/
def valueCount : Json → Nat
  | .array elements => 1 + valueCountOfElements elements
  | .object members => 1 + valueCountOfMembers members
  | _ => 1

/-- The number of values in some elements. -/
def valueCountOfElements : List Json → Nat
  | [] => 0
  | element :: rest => element.valueCount + valueCountOfElements rest

/-- The number of values in some members. -/
def valueCountOfMembers : List (String × Json) → Nat
  | [] => 0
  | (_, value) :: rest => value.valueCount + valueCountOfMembers rest

end

end Json

/-- The path of the elements of the root. -/
def rootElements : String := "$[*]"

/-- The text behind the bracket that closes one opened just before, if that is on the same line. -/
def skipBrackets? : List Char → Option (List Char)
  | [] => none
  | c :: rest => if c = ']' then some rest else if c = '\n' then none else skipBrackets? rest

/-- The number of characters behind the opening of the last pair of brackets, the opening included.
Pairs are looked for from the front and do not overlap. -/
def lastBrackets? (fuel : Nat) (text : List Char) : Option Nat :=
  match fuel, text with
  | 0, _ => none
  | _, [] => none
  | fuel + 1, c :: rest =>
      match if c = '[' then skipBrackets? rest else none with
      | none => lastBrackets? fuel rest
      | some behind => some ((lastBrackets? fuel behind).getD (rest.length + 1))

/-- A path without its last pair of brackets and what follows. -/
def withoutLastBrackets (path : String) : String :=
  let chars := path.toList
  match lastBrackets? chars.length chars with
  | none => path
  | some count => String.ofList (chars.take (chars.length - count))

/-- What stands in front of the last dot of a path. -/
def withoutLastDot? (path : String) : Option String :=
  (splitAtLast? ['.'] path.toList).map fun (front, _) => String.ofList front

/-- Removes the container at `target` and goes on there. -/
def removeContainer (target : String) (body : Json) : Json × Option String :=
  match body.delete target with
  | .error _ => (body, none)
  | .ok (_, smaller) => (smaller, some target)

/-- One step of removing hollow containers around a path from which something has been removed: the
smaller body and the path at which to go on, if there is one. -/
def pruneStep (path : String) (body : Json) : Json × Option String :=
  let container := withoutLastBrackets path
  let isHollowThere :=
    match body.readElement container with
    | .error _ => false
    | .ok value => value.isHollow
  if isHollowThere && path != rootElements then
    let target := if container = "$" then rootElements else container
    if containsText target ".." then
      (if body.isArrayOfHollow then body.deleteIfReadable rootElements else body, none)
    else
      removeContainer target body
  else
    match withoutLastDot? path with
    | none => (body, none)
    | some parent =>
        match body.readElement parent with
        | .error _ => (body, none)
        | .ok value =>
            if value.isHollow && parent != "$" then removeContainer parent body else (body, none)

/-- Removes hollow containers around a path, in at most `fuel` steps. -/
def pruneAux : (fuel : Nat) → (path : String) → Json → Json
  | 0, _, body => body
  | fuel + 1, path, body =>
      let step := pruneStep path body
      step.2.elim step.1 fun next => pruneAux fuel next step.1

/-- Removes hollow containers around a path. Where the steps come to an end, every one makes the path
shorter or the body smaller, but for one from the root to its elements. A path that ends in a
wildcard without brackets is hollow for ever once nothing is left there; the bound ends such
steps. -/
def prune (body : Json) (path : String) : Json :=
  pruneAux (path.length + body.valueCount + 2) path body

/-- Removes hollow containers around a path, if at most `fuel` steps bring it to an end. -/
def pruneAux? : (fuel : Nat) → (path : String) → Json → Option Json
  | 0, _, _ => none
  | fuel + 1, path, body =>
      let step := pruneStep path body
      step.2.elim (some step.1) fun next => pruneAux? fuel next step.1

/-- Removes hollow containers around a path, if that comes to an end. -/
def prune? (body : Json) (path : String) : Option Json :=
  pruneAux? (path.length + body.valueCount + 2) path body

namespace Matcher

/-- Removes the values at the paths of matchers, and collects the paths that have removed something.
-/
def removeEach : List Matcher → Json → List String × Json
  | [], body => ([], body)
  | matcher :: rest, body =>
      match body.delete matcher.path with
      | .error _ => removeEach rest body
      | .ok (count, smaller) =>
          let (paths, last) := removeEach rest smaller
          if count = 0 then (paths, last) else (matcher.path :: paths, last)

/-- What is left of a body without the values that matchers speak of. -/
def strip (matchers : List Matcher) (body : Json) : Json :=
  let (paths, rest) := removeEach matchers body
  (paths.mergeSort fun left right => right ≤ left).foldl prune rest

/-- What is left of a body without the values that matchers speak of, if removing hollow containers
comes to an end. -/
def strip? (matchers : List Matcher) (body : Json) : Option Json :=
  let (paths, rest) := removeEach matchers body
  (paths.mergeSort fun left right => right ≤ left).foldlM prune? rest

end Matcher

end BodyContract
