import Std.Data.HashMap
import BodyContract.Automaton.Basic
import BodyContract.Automaton.Graph
/-!
The deterministic automaton of a pattern.

Its states are the sets of graph states that reading some text can lead to, numbered as they are
found breadth-first, the ways on from a set being taken in ascending order of their characters. Then
the states from which no accepting one can be reached are dropped.

* `Automaton.ofPattern` fails if the graph would have more than `stateLimit` states, or if more than
  `subsetLimit` sets are found.
-/

namespace BodyContract

/-- The largest number of sets of states. -/
def subsetLimit : Nat := 10000

/-- Sets of states, numbered in the order of their discovery. A set is an ascending list. -/
structure Subsets where
  members : Array (List Nat)
  numbers : Std.HashMap (List Nat) Nat

namespace Subsets

/-- One set, with the number zero. -/
def singleton (set : List Nat) : Subsets := ⟨#[set], {(set, 0)}⟩

/-- The number of a set, which is a new one if the set has not been seen. -/
def intern (subsets : Subsets) (set : List Nat) : Nat × Subsets :=
  match subsets.numbers[set]? with
  | some number => (number, subsets)
  | none =>
      let number := subsets.members.size
      (number, ⟨subsets.members.push set, subsets.numbers.insert set number⟩)

end Subsets

/-- Leaves one of each run of equal numbers. -/
def dropRepeats : List Nat → List Nat
  | [] => []
  | [point] => [point]
  | point :: next :: rest =>
      if point = next then dropRepeats (next :: rest) else point :: dropRepeats (next :: rest)

/-- The stretches between neighbours of an ascending list of code points. -/
def stretches : List Nat → List Interval
  | low :: next :: rest => ⟨low, next - 1⟩ :: stretches (next :: rest)
  | _ => []

/-- The stretches of code points on which no label begins or ends but at the ends of the stretch. -/
def elementary (labels : List Interval) : List Interval :=
  let cuts := labels.flatMap fun label => [label.low, label.high + 1]
  stretches (dropRepeats (cuts.mergeSort (fun left right => left ≤ right)))

/-- Joins neighbours that touch and lead to the same state. -/
def joinTransitions : List Transition → List Transition
  | [] => []
  | step :: rest =>
      match joinTransitions rest with
      | [] => [step]
      | next :: others =>
          if step.dest = next.dest && step.label.high + 1 = next.label.low then
            ⟨⟨step.label.low, next.label.high⟩, step.dest⟩ :: others
          else
            step :: next :: others

namespace Graph

/-- The states that reading a character of an elementary stretch leads to, before silent links. -/
def targets (reading : List (Interval × Nat)) (stretch : Interval) : List Nat :=
  (reading.filter fun (label, _) => label.low ≤ stretch.low && stretch.high ≤ label.high).map
    (·.2)

/-- The steps out of a set of states, one for each stretch, numbering the sets that they lead to. -/
def stepsAux (graph : Graph) (limit : Nat) (reading : List (Interval × Nat)) :
    List Interval → Subsets → Except PatternError (List Transition × Subsets)
  | [], subsets => .ok ([], subsets)
  | stretch :: rest, subsets =>
      match targets reading stretch with
      | [] => graph.stepsAux limit reading rest subsets
      | reached =>
          let (dest, grown) := subsets.intern (graph.closure reached)
          if limit < grown.members.size then
            .error (.tooComplex limit)
          else do
            let (others, last) ← graph.stepsAux limit reading rest grown
            .ok (⟨stretch, dest⟩ :: others, last)

/-- The state for a set of graph states, numbering the sets that its transitions lead to. -/
def expand (graph : Graph) (limit accepting : Nat) (set : List Nat) (subsets : Subsets) :
    Except PatternError (State × Subsets) := do
  let reading := set.flatMap graph.readingFrom
  let (steps, grown) ← graph.stepsAux limit reading (elementary (reading.map (·.1))) subsets
  .ok (⟨set.contains accepting, joinTransitions steps⟩, grown)

/-- Expands the sets that have been found but have no state yet. There are never more sets than the
limit, so the limit is enough fuel. -/
def exploreAux (graph : Graph) (limit accepting : Nat) :
    Nat → Array State → Subsets → Except PatternError (Array State)
  | 0, states, _ => .ok states
  | fuel + 1, states, subsets =>
      match subsets.members[states.size]? with
      | none => .ok states
      | some set => do
          let (state, grown) ← graph.expand limit accepting set subsets
          graph.exploreAux limit accepting fuel (states.push state) grown

/-- The automaton whose states are the sets found from the entry of a graph on. -/
def explore (graph : Graph) (limit accepting : Nat) : Except PatternError Automaton := do
  let states ← graph.exploreAux limit accepting limit #[] (.singleton (graph.closure [0]))
  .ok ⟨states⟩

end Graph

namespace Automaton

/-- For each state the states with a transition to it. -/
def sources (automaton : Automaton) : Array (List Nat) :=
  let pairs := automaton.states.toList.zipIdx.flatMap fun (state, number) =>
    state.transitions.map fun step => (number, step.dest)
  pairs.foldl (fun found (number, dest) => found.modify dest (number :: ·))
    (Array.replicate automaton.states.size [])

/-- The states from which an accepting one can be reached, in ascending order. -/
def liveStates (automaton : Automaton) : List Nat :=
  let sources := automaton.sources
  let links := sources.foldl (fun count incoming => count + incoming.length) 0
  let accepting := (automaton.states.toList.zipIdx.filter (·.1.isAccepting)).map (·.2)
  reach (fun state => sources[state]?.getD []) links accepting

/-- The new number of each state that is kept. -/
def renumbering (count : Nat) (kept : List Nat) : Array (Option Nat) :=
  kept.zipIdx.foldl (fun numbers (old, new) => numbers.set! old (some new))
    (Array.replicate count none)

/-- Keeps the states of a list, numbered by their places in it, and the transitions between them. -/
def restrict (automaton : Automaton) (kept : List Nat) : Automaton :=
  let numbers := renumbering automaton.states.size kept
  ⟨(kept.filterMap fun old => do
    let state ← automaton.states[old]?
    let transitions := state.transitions.filterMap fun step =>
      (numbers[step.dest]?.join).map (Transition.mk step.label)
    some { state with transitions }).toArray⟩

/-- Drops the states from which no accepting one can be reached. If that leaves no initial state, no
text is accepted. -/
def prune (automaton : Automaton) : Automaton :=
  let live := automaton.liveStates
  if live.contains initial then automaton.restrict live else ofNothing

/-- The automaton that accepts the texts of a pattern. -/
def ofPattern (pattern : Pattern) : Except PatternError Automaton := do
  let count ← pattern.takeStates 0
  let automaton ← (Graph.ofPattern pattern).explore subsetLimit (count - 1)
  .ok automaton.prune

end Automaton

end BodyContract
