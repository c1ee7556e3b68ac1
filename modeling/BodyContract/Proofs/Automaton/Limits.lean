import Mathlib.Data.List.Sort
import Mathlib.Data.Set.Card
import BodyContract.Proofs.Automaton.Trim

/-!
# The limits of an automaton

An automaton is refused for two reasons only, and exactly when they hold: its
graph would have too many states, or texts lead to too many different sets of
them.  The sets that the exploration numbers are those that some text leads
to, each of them once, so it can neither give up early nor go on too long.
-/

namespace BodyContract

namespace Graph

open Subsets

variable {graph : Graph} {limit accepting : Nat} {subsets : Subsets}

/-- The sets of states that some text leads to, if it leads to any. -/
def reachedSets (graph : Graph) : Set (Set Nat) :=
  {set | set.Nonempty ∧ ∃ text, set = {state | graph.Walks 0 text state}}

/-- The set with a number. -/
def memberSet (subsets : Subsets) (number : Fin subsets.members.size) : Set Nat :=
  {state | state ∈ subsets.members[number]}

theorem getElem?_members (number : Fin subsets.members.size) :
    subsets.members[number.val]? = some subsets.members[number] :=
  Array.getElem?_eq_getElem number.isLt

/-- No two numbers belong to the same set. -/
theorem Found.injective (found : graph.Found subsets) :
    Function.Injective (memberSet subsets) := by
  intro left right same
  have isLeft := getElem?_members left
  have isRight := getElem?_members right
  have equal : subsets.members[left] = subsets.members[right] :=
    List.Pairwise.eq_of_mem_iff (found.reached _ _ isLeft).ascending
      (found.reached _ _ isRight).ascending fun state => Set.ext_iff.mp same state
  have known := found.listed _ _ isLeft
  rw [equal, found.listed _ _ isRight] at known
  exact Fin.ext (Option.some.inj known).symm

theorem Found.encard_range (found : graph.Found subsets) :
    (Set.range (memberSet subsets)).encard = subsets.members.size := by
  rw [← Set.image_univ, found.injective.encard_image, Set.encard_univ,
    ENat.card_eq_coe_fintype_card, Fintype.card_fin]

theorem Found.range_subset (found : graph.Found subsets) :
    Set.range (memberSet subsets) ⊆ graph.reachedSets := by
  rintro set ⟨number, rfl⟩
  have reached := found.reached _ _ (getElem?_members number)
  obtain ⟨text, read⟩ := reached.read
  exact ⟨List.exists_mem_of_ne_nil _ reached.filled, text, Set.ext read⟩

theorem Found.size_le_encard (found : graph.Found subsets) :
    (subsets.members.size : ℕ∞) ≤ graph.reachedSets.encard := by
  rw [← found.encard_range]
  exact Set.encard_le_encard found.range_subset

/-- The set that a text leads to is numbered when the exploration has ended. -/
theorem Explores.exists_member (bounded : graph.IsBounded) {states : Array State}
    (explores : graph.Explores limit accepting subsets states)
    (covers : subsets.members.size ≤ states.size) {text : List Char} {state : Nat}
    (walk : graph.Walks 0 text state) :
    ∃ (number : Nat) (start : List Nat), subsets.members[number]? = some (graph.closure start) ∧
      graph.ReachedBy text (graph.closure start) := by
  induction text using List.reverseRecOn generalizing state with
  | nil => exact ⟨Automaton.initial, [0], explores.start, reachedBy_start bounded⟩
  | append_singleton front c inductionHypothesis =>
      obtain ⟨middle, first, -⟩ := walks_append_iff.mp walk
      obtain ⟨number, start, isSet, reached⟩ := inductionHypothesis first
      have onward := reached.step bounded c
      have somewhere : graph.readTargets (graph.closure start) c.toNat ≠ [] := by
        intro nowhere
        obtain ⟨source, impossible, -⟩ :=
          (mem_closure_iff bounded _ state).mp ((onward state).mpr walk)
        rw [nowhere] at impossible
        exact absurd impossible List.not_mem_nil
      obtain ⟨own, -, stands⟩ := explores.explored.state_of_member covers isSet
      obtain ⟨dest, leads⟩ := stands.complete c.toNat somewhere
      exact ⟨dest, _, stands.leads c.toNat dest leads, onward⟩

theorem Explores.encard_le (bounded : graph.IsBounded) {states : Array State}
    (explores : graph.Explores limit accepting subsets states)
    (covers : subsets.members.size ≤ states.size) : graph.reachedSets.encard ≤ limit := by
  have numbered : graph.reachedSets ⊆ Set.range (memberSet subsets) := by
    rintro set ⟨⟨state, member⟩, text, rfl⟩
    obtain ⟨number, start, isSet, reached⟩ := explores.exists_member bounded covers member
    obtain ⟨inRange, same⟩ := Array.getElem?_eq_some_iff.mp isSet
    refine ⟨⟨number, inRange⟩, ?_⟩
    ext other
    rw [← same] at reached
    exact reached other
  calc graph.reachedSets.encard
      ≤ (Set.range (memberSet subsets)).encard := Set.encard_le_encard numbered
    _ = subsets.members.size := explores.found.encard_range
    _ ≤ limit := Nat.cast_le.mpr explores.small

/-- An exploration gives up exactly if there are more sets than allowed, and else numbers no
more. -/
theorem explore_limit (bounded : graph.IsBounded) (solid : graph.HasSolidLabels)
    (positive : 0 < limit) (accepting : Nat) :
    (graph.explore limit accepting = .error (.tooComplex limit) ∧
        (limit : ℕ∞) < graph.reachedSets.encard) ∨
      ∃ automaton, graph.explore limit accepting = .ok automaton ∧
        automaton.states.size ≤ limit ∧ graph.reachedSets.encard ≤ limit := by
  have settles := explore_settles bounded solid positive accepting
  cases outcome : graph.explore limit accepting with
  | error failure =>
      rw [outcome] at settles
      obtain ⟨rfl, grown, found, tooMany⟩ := settles
      exact Or.inl ⟨rfl, lt_of_lt_of_le (Nat.cast_lt.mpr tooMany) found.size_le_encard⟩
  | ok automaton =>
      rw [outcome] at settles
      obtain ⟨last, explores, covers⟩ := settles
      exact Or.inr ⟨automaton, rfl, Nat.le_trans explores.covered explores.small,
        explores.encard_le bounded covers⟩

end Graph

namespace Automaton

/-- Pruning adds no state, but for the one of an automaton that accepts nothing. -/
theorem size_prune_le (automaton : Automaton) :
    automaton.prune.states.size ≤ max 1 automaton.states.size := by
  have keeps := keepsLive_liveStates automaton
  rw [prune]
  split
  · have inRange : automaton.liveStates ⊆ List.range automaton.states.size := by
      intro number member
      exact List.mem_range.mpr (keeps.inRange number member)
    have few := (List.subperm_of_subset keeps.nodup inRange).length_le
    rw [List.length_range] at few
    rw [restrict, List.size_toArray]
    exact Nat.le_trans (List.length_filterMap_le _ _) (Nat.le_trans few (Nat.le_max_right _ _))
  · exact Nat.le_max_left _ _

/-- The limits are raised exactly when they are exceeded: the one on the states of the graph if
there are more of them, the other one if texts lead to more sets of states, and otherwise there is
an automaton within the limit. -/
theorem ofPattern_limits {pattern : Pattern} (isBuilt : pattern.IsBuilt) :
    (ofPattern pattern = .error (.tooComplex stateLimit) ↔ stateLimit < pattern.size) ∧
      (pattern.size ≤ stateLimit →
        (ofPattern pattern = .error (.tooComplex subsetLimit) ↔
            (subsetLimit : ℕ∞) < (Graph.ofPattern pattern).reachedSets.encard) ∧
          ((Graph.ofPattern pattern).reachedSets.encard ≤ subsetLimit →
            ∃ automaton, ofPattern pattern = .ok automaton ∧
              automaton.states.size ≤ subsetLimit)) := by
  have positive : 0 < subsetLimit := by decide
  rw [ofPattern_eq]
  by_cases large : stateLimit < pattern.size
  · rw [if_pos large]
    exact ⟨iff_of_true rfl large, fun small => absurd large (Nat.not_lt_of_le small)⟩
  · rw [if_neg large]
    rcases Graph.explore_limit (Graph.isBounded_ofPattern pattern)
      (Graph.hasSolidLabels_ofPattern isBuilt.solid) positive (pattern.size - 1) with
      ⟨failed, exceeds⟩ | ⟨full, explored, few, fits⟩
    · rw [failed]
      refine ⟨iff_of_false ?_ large, fun _ => ⟨iff_of_true rfl exceeds, ?_⟩⟩
      · intro same
        have limits : subsetLimit = stateLimit := PatternError.tooComplex.inj (Except.error.inj same)
        exact absurd limits (by decide)
      · intro fits
        exact absurd exceeds (not_lt_of_ge fits)
    · rw [explored]
      refine ⟨iff_of_false ?_ large, fun _ => ⟨iff_of_false ?_ (not_lt_of_ge fits), fun _ => ?_⟩⟩
      · intro impossible
        cases impossible
      · intro impossible
        cases impossible
      · exact ⟨full.prune, rfl,
          Nat.le_trans (size_prune_le full) (Nat.max_le.mpr ⟨positive, few⟩)⟩

/-- A character a thousand times, and that a thousand times. -/
def thousandfold : Pattern :=
  .repeated (.repeated (.oneOf (.single 'a')) 1000 none) 1000 (some 1000)

theorem isBuilt_thousandfold : thousandfold.IsBuilt := by
  intro set member
  have own : set = .single 'a' := by
    simpa [thousandfold, Pattern.sets] using member
  rw [own]
  exact CharSet.IsBuilt.single 'a'

theorem thousandfold_and_letters_limits :
    ofPattern thousandfold = .error (.tooComplex stateLimit) ∧
      oneOrTwoLetters.IsBuilt ∧ oneOrTwoLetters.size ≤ stateLimit ∧
        (Graph.ofPattern oneOrTwoLetters).reachedSets.encard ≤ subsetLimit := by
  have small : oneOrTwoLetters.size ≤ stateLimit := by decide
  have atMost := ((ofPattern_limits isBuilt_oneOrTwoLetters).2 small).1
  refine ⟨(ofPattern_limits isBuilt_thousandfold).1.mpr (by decide), isBuilt_oneOrTwoLetters, small,
    ?_⟩
  rw [ofPattern_oneOrTwoLetters] at atMost
  refine not_lt.mp fun exceeds => ?_
  cases atMost.mpr exceeds

end Automaton

end BodyContract
