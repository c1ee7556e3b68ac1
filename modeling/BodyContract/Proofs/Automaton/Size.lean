import BodyContract.Automaton.Subsets
import BodyContract.Proofs.Outcome

/-!
# The states of a pattern

States are taken one by one, and the first one that is too many ends the
construction of a graph.  However deep the pattern, this happens exactly if it
takes more states than allowed, and otherwise the states are as many as the
blocks of the pattern have room for.
-/

namespace BodyContract

namespace Pattern

/-- Whether exactly `width` states are taken if there may be as many, and none
if not. -/
def Takes (width : Nat) (take : Nat → Except PatternError Nat) : Prop :=
  ∀ taken, taken ≤ stateLimit → take taken =
    if taken + width ≤ stateLimit then .ok (taken + width) else .error (.tooComplex stateLimit)

theorem takes_nothing : Takes 0 .ok := by
  intro taken inRange
  rw [Nat.add_zero, if_pos inRange]

theorem takes_takeState : Takes 1 takeState := by
  intro taken inRange
  rw [takeState]
  by_cases full : stateLimit ≤ taken
  · rw [if_pos full, if_neg (by omega)]
  · rw [if_neg full, if_pos (by omega)]

/-- States that are taken one after the other add up. -/
theorem Takes.bind {width other : Nat} {take next : Nat → Except PatternError Nat}
    (first : Takes width take) (second : Takes other next) :
    Takes (width + other) fun taken => take taken >>= next := by
  intro taken inRange
  dsimp only
  rw [first taken inRange]
  by_cases fits : taken + width ≤ stateLimit
  · rw [if_pos fits, ← Nat.add_assoc]
    exact second (taken + width) fits
  · rw [if_neg fits, if_neg (by omega)]
    rfl

theorem takes_takeCopies {width : Nat} {take : Nat → Except PatternError Nat}
    (own : Takes width take) (count : Nat) : Takes (count * width) (takeCopies take count) := by
  induction count with
  | zero =>
      rw [Nat.zero_mul]
      exact takes_nothing
  | succ count inductionHypothesis =>
      rw [Nat.succ_mul, Nat.add_comm]
      exact own.bind inductionHypothesis

theorem takes_two : Takes 2 fun taken => takeState taken >>= takeState :=
  takes_takeState.bind takes_takeState

theorem takes_repeated {body : Pattern} (own : Takes body.size body.takeStates) (least : Nat)
    (most : Option Nat) :
    Takes (size (.repeated body least most)) (takeStates (.repeated body least most)) := by
  have needed : Takes (1 + least * body.size)
      fun taken => takeState taken >>= takeCopies (fun taken => body.takeStates taken) least :=
    takes_takeState.bind (takes_takeCopies own least)
  intro taken inRange
  cases most with
  | none =>
      have whole := needed.bind (own.bind takes_takeState) taken inRange
      have width : 1 + least * body.size + (body.size + 1) =
          size (.repeated body least none) := by
        rw [size, copies, Nat.succ_mul]
        omega
      dsimp only at whole
      rw [width, bind_assoc] at whole
      rw [takeStates, ← whole]
  | some bound =>
      have others := takes_takeCopies own (bound - least)
      have whole := needed.bind (takes_takeState.bind others) taken inRange
      have width : 1 + least * body.size + (1 + (bound - least) * body.size) =
          size (.repeated body least (some bound)) := by
        have split : max least bound = least + (bound - least) := by omega
        rw [size, copies, split, Nat.add_mul]
        omega
      dsimp only at whole
      rw [width, bind_assoc] at whole
      rw [takeStates, ← whole]

mutual

/-- A pattern takes as many states as its size says. -/
theorem takes_takeStates : ∀ pattern : Pattern, Takes pattern.size pattern.takeStates
  | .empty => by
      intro taken inRange
      rw [takeStates, size]
      exact takes_two taken inRange
  | .oneOf set => by
      intro taken inRange
      rw [takeStates, size]
      exact takes_two taken inRange
  | .sequence items => by
      intro taken inRange
      rw [takeStates, size]
      split
      · exact takes_two taken inRange
      · exact takes_takeStatesOfAll items taken inRange
  | .choice branches => by
      intro taken inRange
      have whole := takes_two.bind (takes_takeStatesOfAll branches) taken inRange
      dsimp only at whole
      rw [bind_assoc] at whole
      rw [takeStates, size]
      exact whole
  | .repeated body least most => takes_repeated (takes_takeStates body) least most

theorem takes_takeStatesOfAll : ∀ patterns : List Pattern,
    Takes (sizeList patterns) (takeStatesOfAll patterns)
  | [] => by
      intro taken inRange
      rw [takeStatesOfAll, sizeList]
      exact takes_nothing taken inRange
  | pattern :: rest => by
      intro taken inRange
      rw [takeStatesOfAll, sizeList]
      exact (takes_takeStates pattern).bind (takes_takeStatesOfAll rest) taken inRange

end

end Pattern

/-- An automaton is built exactly if the pattern is not too large. -/
theorem Automaton.ofPattern_eq (pattern : Pattern) :
    ofPattern pattern =
      if stateLimit < pattern.size then
        .error (.tooComplex stateLimit)
      else
        (do
          let automaton ← (Graph.ofPattern pattern).explore subsetLimit (pattern.size - 1)
          .ok automaton.prune) := by
  rw [ofPattern, Pattern.takes_takeStates pattern 0 (Nat.zero_le _), Nat.zero_add]
  by_cases large : stateLimit < pattern.size
  · rw [if_pos large, if_neg (Nat.not_le_of_lt large)]
    rfl
  · rw [if_neg large, if_pos (Nat.le_of_not_lt large)]
    rfl

theorem Automaton.exists_explored_of_ofPattern {pattern : Pattern} {automaton : Automaton}
    (built : ofPattern pattern = .ok automaton) :
    ∃ full, (Graph.ofPattern pattern).explore subsetLimit (pattern.size - 1) = .ok full ∧
      full.prune = automaton := by
  rw [ofPattern_eq] at built
  split at built
  · cases built
  · obtain ⟨full, explored, whole⟩ := bind_eq_ok_iff.mp built
    exact ⟨full, explored, Except.ok.inj whole⟩

end BodyContract
