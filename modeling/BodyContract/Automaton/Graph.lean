import BodyContract.Pattern.Basic
import BodyContract.Automaton.Reach
/-!
The graph of a pattern: states that are joined by silent links and by links that read a character.

The states of a pattern fill a block of `Pattern.size` consecutive numbers. The first of them is the
entry of the block and the last one its exit, and the texts of the pattern are what the paths from
entry to exit read. The blocks of the parts of a pattern lie inside its own block.

* `Pattern.takeStates` counts the states as they are taken and fails at the first one that is too
  many, so a pattern that is far too large is not counted to its end.
-/

namespace BodyContract

/-- A link of a graph. -/
inductive Link where
  /-- Can be followed without reading. -/
  | silent (source dest : Nat)
  /-- Reads one character of the set. -/
  | reads (source : Nat) (set : CharSet) (dest : Nat)
deriving DecidableEq, Repr

/-- The largest number of states of a graph. -/
def stateLimit : Nat := 200000

namespace Pattern

/-- Takes one more state if there may be one. -/
def takeState (taken : Nat) : Except PatternError Nat :=
  if stateLimit ≤ taken then .error (.tooComplex stateLimit) else .ok (taken + 1)

/-- Takes the states of `count` copies of a block one behind the other. -/
def takeCopies (take : Nat → Except PatternError Nat) : Nat → Nat → Except PatternError Nat
  | 0, taken => .ok taken
  | count + 1, taken => do takeCopies take count (← take taken)

mutual

/-- Takes the states of a pattern when `taken` of them have been taken before. -/
def takeStates : Pattern → Nat → Except PatternError Nat
  | .empty, taken => do takeState (← takeState taken)
  | .oneOf _, taken => do takeState (← takeState taken)
  | .sequence items, taken =>
      if items.isEmpty then do takeState (← takeState taken) else takeStatesOfAll items taken
  | .choice branches, taken => do takeStatesOfAll branches (← takeState (← takeState taken))
  | .repeated body least most, taken => do
      let needed ← takeCopies (fun taken => body.takeStates taken) least (← takeState taken)
      match most with
      | none => takeState (← body.takeStates needed)
      | some most =>
          takeCopies (fun taken => body.takeStates taken) (most - least) (← takeState needed)

/-- Takes the states of all patterns of a list. -/
def takeStatesOfAll : List Pattern → Nat → Except PatternError Nat
  | [], taken => .ok taken
  | pattern :: rest, taken => do takeStatesOfAll rest (← pattern.takeStates taken)

end

mutual

/-- The links of a pattern whose block begins at `base`. -/
def links : Pattern → Nat → List Link
  | .empty, base => [.silent base (base + 1)]
  | .oneOf set, base => [.reads base set (base + 1)]
  | .sequence items, base =>
      if items.isEmpty then [.silent base (base + 1)] else linksInSequence items base
  | .choice branches, base =>
      linksOfBranches branches base (base + 1 + sizeList branches) (base + 1)
  | .repeated body least most, base =>
      let width := body.size
      let count := copies least most
      let exit := base + 1 + count * width
      let chain := (List.range count).flatMap fun index =>
        .silent (base + index * width) (base + 1 + index * width) ::
          body.links (base + 1 + index * width)
      let stops := (List.range' least (count + 1 - least)).map fun index =>
        .silent (base + index * width) exit
      let loop :=
        match most with
        | none => [.silent (base + count * width) (base + 1 + least * width)]
        | some _ => []
      chain ++ stops ++ loop

/-- The links of items whose blocks stand one behind the other from `base` on, with a silent link
from each to the next. -/
def linksInSequence : List Pattern → Nat → List Link
  | [], _ => []
  | item :: rest, base =>
      let next := base + item.size
      let step := if rest.isEmpty then [] else [.silent (next - 1) next]
      item.links base ++ step ++ linksInSequence rest next

/-- The links of branches whose blocks stand one behind the other from `base` on, each joined by
silent links to the common entry and exit. -/
def linksOfBranches : List Pattern → Nat → Nat → Nat → List Link
  | [], _, _, _ => []
  | branch :: rest, entry, exit, base =>
      let next := base + branch.size
      .silent entry base :: .silent (next - 1) exit ::
        (branch.links base ++ linksOfBranches rest entry exit next)

end

end Pattern

/-- What leaves a state of a graph. -/
structure Exits where
  silent : List Nat
  reading : List (Interval × Nat)
deriving Repr, Inhabited

/-- A graph by its states. -/
structure Graph where
  exits : Array Exits
  linkCount : Nat

namespace Graph

/-- Adds a link to the state that it leaves. -/
def addLink (exits : Array Exits) : Link → Array Exits
  | .silent source dest =>
      exits.modify source fun state => { state with silent := dest :: state.silent }
  | .reads source set dest =>
      exits.modify source fun state =>
        { state with reading := set.ranges.map (·, dest) ++ state.reading }

/-- The graph of a pattern. -/
def ofPattern (pattern : Pattern) : Graph :=
  let links := pattern.links 0
  ⟨links.foldl addLink (Array.replicate pattern.size ⟨[], []⟩), links.length⟩

/-- The states that a silent link leads to. -/
def silentFrom (graph : Graph) (state : Nat) : List Nat :=
  match graph.exits[state]? with
  | none => []
  | some exits => exits.silent

/-- The labels and ends of the links that read a character. -/
def readingFrom (graph : Graph) (state : Nat) : List (Interval × Nat) :=
  match graph.exits[state]? with
  | none => []
  | some exits => exits.reading

/-- All states that can be reached without reading, in ascending order. -/
def closure (graph : Graph) (states : List Nat) : List Nat :=
  reach graph.silentFrom graph.linkCount states

end Graph

end BodyContract
