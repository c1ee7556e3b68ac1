import BodyContract.Proofs.Automaton.Characters
import BodyContract.Proofs.Automaton.Pruning
import BodyContract.Proofs.Automaton.Size

/-!
# No dead ends

After pruning a text is accepted from every state, and every transition leads
to a state, unless nothing is accepted at all.  A run that has not ended can
therefore always be carried on to an accepted text.
-/

namespace BodyContract.Automaton

/-- From every state a text is accepted, and every transition leads to a state. -/
structure IsLive (automaton : Automaton) : Prop where
  ordered : automaton.IsOrdered
  onward : ∀ (number : Nat) (state : State), automaton.states[number]? = some state →
    ∀ step ∈ state.transitions, ∃ next, automaton.states[step.dest]? = some next
  alive : ∀ (number : Nat) (state : State), automaton.states[number]? = some state →
    ∃ text, automaton.acceptsFrom number text = true

theorem accepts_ofNothing (text : String) : ofNothing.accepts text = false := by
  rw [accepts]
  cases text.toList with
  | nil => rfl
  | cons c rest => rfl

/-- One character leads along a transition with a solid label. -/
theorem exists_acceptsFrom_of_stepsTo {automaton : Automaton} (ordered : automaton.IsOrdered)
    (solid : automaton.HasSolidLabels) {number dest : Nat} {text : List Char}
    (step : automaton.StepsTo number dest) (accepted : automaton.acceptsFrom dest text = true) :
    ∃ c, automaton.acceptsFrom number (c :: text) = true := by
  obtain ⟨state, isState, transition, member, same⟩ := step
  obtain ⟨c, inside⟩ := (solid state (Array.mem_of_getElem? isState) transition member).exists_char
  have way : state.next? c = some dest :=
    (State.next?_eq_some_iff (ordered number state isState) c dest).mpr
      ⟨transition, member, inside, same⟩
  refine ⟨c, ?_⟩
  rw [acceptsFrom, isState]
  dsimp only
  rw [way]
  exact accepted

theorem exists_acceptsFrom_of_mem_liveStates {automaton : Automaton}
    (ordered : automaton.IsOrdered) (solid : automaton.HasSolidLabels) {number : Nat}
    (live : number ∈ automaton.liveStates) :
    ∃ text, automaton.acceptsFrom number text = true := by
  obtain ⟨accepting, state, isState, stops, path⟩ := (mem_liveStates_iff automaton number).mp live
  clear live
  -- The path runs against the transitions, from the accepting state back to this one.
  have reached : number ∈ automaton.liveStates ∧
      ∃ text, automaton.acceptsFrom number text = true := by
    induction path with
    | refl =>
        refine ⟨(keepsLive_liveStates automaton).accepting accepting state isState stops, [], ?_⟩
        rw [acceptsFrom, isState]
        exact stops
    | tail _ linked inductionHypothesis =>
        obtain ⟨live, text, accepted⟩ := inductionHypothesis
        have step := (mem_sources_iff automaton _ _ (lt_size_of_mem_liveStates live)).mp linked
        obtain ⟨c, accepted⟩ := exists_acceptsFrom_of_stepsTo ordered solid step accepted
        exact ⟨(keepsLive_liveStates automaton).backward _ _ step live, c :: text, accepted⟩
  exact reached.2

theorem exists_of_states_restrict {automaton : Automaton} {kept : List Nat}
    (inRange : ∀ number ∈ kept, number < automaton.states.size) {new : Nat} {state : State}
    (isState : (automaton.restrict kept).states[new]? = some state) :
    ∃ old original, kept[new]? = some old ∧ automaton.states[old]? = some original ∧
      state = restrictState (renumbering automaton.states.size kept) original := by
  cases found : kept[new]? with
  | none =>
      rw [restrict, List.getElem?_toArray, getElem?_filterMap, found] at isState
      · cases isState
      · intro number member
        simp only [Array.getElem?_eq_getElem (inRange number member)]
        rfl
  | some old =>
      have original := Array.getElem?_eq_getElem (inRange old (List.mem_of_getElem? found))
      rw [states_restrict inRange found original] at isState
      cases isState
      exact ⟨old, _, rfl, original, rfl⟩

theorem isLive_restrict {automaton : Automaton} (ordered : automaton.IsOrdered)
    (solid : automaton.HasSolidLabels) :
    (automaton.restrict automaton.liveStates).IsLive where
  ordered := by
    intro number state isState
    obtain ⟨old, original, -, isOriginal, rfl⟩ :=
      exists_of_states_restrict (keepsLive_liveStates automaton).inRange isState
    exact ascending_restrictState (ordered old original isOriginal)
  onward := by
    have keeps := keepsLive_liveStates automaton
    intro number state isState step member
    obtain ⟨old, original, -, -, rfl⟩ := exists_of_states_restrict keeps.inRange isState
    simp only [restrictState, List.mem_filterMap, Option.map_eq_some_iff] at member
    obtain ⟨transition, -, new, numbered, rfl⟩ := member
    have place := (keeps.number_iff _ _).mp numbered
    have isDest := Array.getElem?_eq_getElem (keeps.inRange _ (List.mem_of_getElem? place))
    exact ⟨_, states_restrict keeps.inRange place isDest⟩
  alive := by
    have keeps := keepsLive_liveStates automaton
    intro number state isState
    obtain ⟨old, original, found, -, -⟩ := exists_of_states_restrict keeps.inRange isState
    obtain ⟨text, accepted⟩ :=
      exists_acceptsFrom_of_mem_liveStates ordered solid (List.mem_of_getElem? found)
    refine ⟨text, ?_⟩
    rw [acceptsFrom_restrict ordered keeps found]
    exact accepted

/-- Pruning leaves no dead ends, or an automaton that accepts nothing. -/
theorem isLive_prune {automaton : Automaton} (ordered : automaton.IsOrdered)
    (solid : automaton.HasSolidLabels) :
    automaton.prune = ofNothing ∨
      automaton.prune.IsLive ∧ ∃ state, automaton.prune.states[initial]? = some state := by
  rw [prune]
  by_cases live : automaton.liveStates.contains initial = true
  · rw [if_pos live]
    have keeps := keepsLive_liveStates automaton
    refine Or.inr ⟨isLive_restrict ordered solid, ?_⟩
    have place := keeps.initial_place (List.contains_iff_mem.mp live)
    have isFirst := Array.getElem?_eq_getElem (keeps.inRange _ (List.mem_of_getElem? place))
    exact ⟨_, states_restrict keeps.inRange place isFirst⟩
  · rw [if_neg live]
    exact Or.inl rfl

theorem isLive_of_ofPattern {pattern : Pattern} (solid : pattern.IsSolid)
    {automaton : Automaton} (built : ofPattern pattern = .ok automaton) :
    automaton = ofNothing ∨
      automaton.IsLive ∧ ∃ state, automaton.states[initial]? = some state := by
  obtain ⟨full, explored, rfl⟩ := exists_explored_of_ofPattern built
  have positive : 0 < subsetLimit := by decide
  have ordered : full.IsOrdered := fun number state isState =>
    Graph.ascending_of_explore positive explored isState
  exact isLive_prune ordered
    (hasSolidLabels_of_explore (Graph.hasSolidLabels_ofPattern solid) explored)

end BodyContract.Automaton
