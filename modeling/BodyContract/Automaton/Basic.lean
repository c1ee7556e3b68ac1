import BodyContract.CharSet
/-!
Deterministic automata over characters.

An automaton starts in its first state and reads a text character by character; a character that no
transition of the current state accepts ends the run. A state with neither a transition nor the
right to stop appears only as the single state of an automaton that accepts no text.
-/

namespace BodyContract

/-- A step that reads one character of the interval and leads to the state `dest`. -/
structure Transition where
  label : Interval
  dest : Nat
deriving DecidableEq, Repr, Inhabited

/-- A state: whether a text may end here, and the ways on, in ascending order of their labels. -/
structure State where
  isAccepting : Bool
  transitions : List Transition
deriving DecidableEq, Repr, Inhabited

/-- A deterministic automaton. Its first state is the initial one. -/
structure Automaton where
  states : Array State
deriving DecidableEq, Repr, Inhabited

namespace State

/-- The state behind one character. -/
def next? (state : State) (c : Char) : Option Nat :=
  (state.transitions.find? (·.label.contains c.toNat)).map (·.dest)

end State

namespace Automaton

/-- The state in which every run begins. -/
def initial : Nat := 0

/-- The number of states. -/
def stateCount (automaton : Automaton) : Nat := automaton.states.size

/-- The automaton that accepts no text. -/
def ofNothing : Automaton := ⟨#[⟨false, []⟩]⟩

/-- Whether no text is accepted, for an automaton in which every other state leads to an accepting
one. -/
def isEmptyLanguage (automaton : Automaton) : Bool :=
  match automaton.states[initial]? with
  | none => true
  | some state => !state.isAccepting && state.transitions.isEmpty

/-- Whether the characters lead from a state to one in which a text may end. -/
def acceptsFrom (automaton : Automaton) (current : Nat) : List Char → Bool
  | [] =>
      match automaton.states[current]? with
      | none => false
      | some state => state.isAccepting
  | c :: rest =>
      match automaton.states[current]? with
      | none => false
      | some state =>
          match state.next? c with
          | none => false
          | some dest => automaton.acceptsFrom dest rest

/-- Whether the text is in the language of the automaton. -/
def accepts (automaton : Automaton) (text : String) : Bool :=
  automaton.acceptsFrom initial text.toList

end Automaton

end BodyContract
