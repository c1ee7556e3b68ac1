import Std.Data.TreeSet
/-!
Reachability in a finite graph, given by the successors of each of its numbered vertices.
-/

namespace BodyContract

/-- Adds the vertices of `todo` and all that can be reached from them through vertices outside
`seen`. Every vertex is expanded once at most, so the number of vertices to start from plus the
number of all links is enough `fuel`. -/
def reachAux (next : Nat → List Nat) : Nat → List Nat → Std.TreeSet Nat → Std.TreeSet Nat
  | 0, _, seen => seen
  | _ + 1, [], seen => seen
  | fuel + 1, vertex :: todo, seen =>
      if seen.contains vertex then
        reachAux next fuel todo seen
      else
        reachAux next fuel (next vertex ++ todo) (seen.insert vertex)

/-- The vertices that can be reached from those of a list, in ascending order, in a graph with
`links` links. -/
def reach (next : Nat → List Nat) (links : Nat) (start : List Nat) : List Nat :=
  (reachAux next (links + start.length) start ∅).toList

end BodyContract
