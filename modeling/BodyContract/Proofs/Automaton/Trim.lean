import BodyContract.Proofs.Automaton.Construction
import BodyContract.Proofs.Automaton.Exploration
import BodyContract.Proofs.Automaton.Liveness
import BodyContract.Proofs.CharSet.Algebra

/-!
# Trim automata

The automaton of a pattern has nothing to spare.  The exploration reaches
every state and joins what touches, and pruning keeps both: whatever leads to
a state that is kept is kept as well, and different states keep different
numbers.  What is left of a pattern without texts is one state from which
nothing leads anywhere.
-/

namespace BodyContract

/-- The ways on hold characters, lead to existing states, and are as few as they can be: the labels
ascend without overlapping, and those that touch lead to different states. -/
structure State.IsTight (state : State) (count : Nat) : Prop where
  solid : ∀ step ∈ state.transitions, step.label.IsSolid
  onward : ∀ step ∈ state.transitions, step.dest < count
  ascending : state.transitions.Pairwise fun left right => left.label.high < right.label.low
  joined : Joined state.transitions

/-- A pattern over sets that operations on sets have built. -/
def Pattern.IsBuilt (pattern : Pattern) : Prop :=
  ∀ set ∈ pattern.sets, set.IsBuilt

theorem Pattern.IsBuilt.solid {pattern : Pattern} (built : pattern.IsBuilt) : pattern.IsSolid :=
  fun set member => (CharSet.IsCanonical.ofIsBuilt (built set member)).solid

namespace Automaton

/-- A text may end in some state that transitions lead to from this one. -/
def CanFinish (automaton : Automaton) (number : Nat) : Prop :=
  ∃ last state, automaton.Reaches number last ∧ automaton.states[last]? = some state ∧
    state.isAccepting = true

/-- The whole automaton is reachable. -/
def IsConnected (automaton : Automaton) : Prop :=
  ∀ number, number < automaton.states.size → automaton.Reaches initial number

/-- The transitions to one state never touch. -/
def IsJoined (automaton : Automaton) : Prop :=
  ∀ (number : Nat) (state : State),
    automaton.states[number]? = some state → Joined state.transitions

variable {automaton : Automaton} {kept : List Nat}

/-! ## Restricted automata -/

/-- Transitions to the same state under its new number led to the same one before. -/
theorem joined_restrictState (keeps : automaton.KeepsLive kept) {state : State}
    (joined : Joined state.transitions) :
    Joined (restrictState (renumbering automaton.states.size kept) state).transitions := by
  rw [Joined, restrictState, List.pairwise_filterMap]
  refine List.Pairwise.imp ?_ joined
  intro left right apart first isFirst second isSecond same
  obtain ⟨leftNumber, leftNumbered, rfl⟩ := Option.map_eq_some_iff.mp isFirst
  obtain ⟨rightNumber, rightNumbered, rfl⟩ := Option.map_eq_some_iff.mp isSecond
  rw [keeps.number_iff] at leftNumbered rightNumbered
  change leftNumber = rightNumber at same
  rw [same, rightNumbered] at leftNumbered
  exact apart (Option.some.inj leftNumbered).symm

theorem isJoined_restrict (keeps : automaton.KeepsLive kept) (joined : automaton.IsJoined) :
    (automaton.restrict kept).IsJoined := by
  intro number state isState
  obtain ⟨old, original, -, isOriginal, rfl⟩ := exists_of_states_restrict keeps.inRange isState
  exact joined_restrictState keeps (joined old original isOriginal)

theorem hasSolidLabels_restrict (keeps : automaton.KeepsLive kept)
    (solid : automaton.HasSolidLabels) : (automaton.restrict kept).HasSolidLabels := by
  intro state isState step member
  obtain ⟨number, isState⟩ := Array.mem_iff_getElem?.mp isState
  obtain ⟨old, original, -, isOriginal, rfl⟩ := exists_of_states_restrict keeps.inRange isState
  simp only [restrictState, List.mem_filterMap, Option.map_eq_some_iff] at member
  obtain ⟨transition, isStep, new, -, rfl⟩ := member
  exact solid original (Array.mem_of_getElem? isOriginal) transition isStep

/-- A step between states that are kept is one between their places. -/
theorem stepsTo_restrict (keeps : automaton.KeepsLive kept) {number dest place next : Nat}
    (found : kept[place]? = some number) (target : kept[next]? = some dest)
    (step : automaton.StepsTo number dest) : (automaton.restrict kept).StepsTo place next := by
  obtain ⟨state, isState, transition, member, rfl⟩ := step
  have numbered := (keeps.number_iff _ _).mpr target
  refine ⟨_, states_restrict keeps.inRange found isState, ⟨transition.label, next⟩, ?_, rfl⟩
  rw [restrictState, List.mem_filterMap]
  refine ⟨transition, member, ?_⟩
  rw [numbered, Option.map_some]

/-- A path to a state that is kept runs through such states only. -/
theorem reaches_restrict (keeps : automaton.KeepsLive kept) (first : initial ∈ kept)
    {number place : Nat} (path : automaton.Reaches initial number)
    (found : kept[place]? = some number) : (automaton.restrict kept).Reaches initial place := by
  induction path generalizing place with
  | refl =>
      have same : place = initial :=
        (List.getElem?_inj (List.getElem?_eq_some_iff.mp found).1 keeps.nodup).mp
          (found.trans (keeps.initial_place first).symm)
      rw [same]
      exact Relation.ReflTransGen.refl
  | tail _ step inductionHypothesis =>
      have live := keeps.backward _ _ step (List.mem_of_getElem? found)
      obtain ⟨before, isPlace⟩ := List.mem_iff_getElem?.mp live
      exact (inductionHypothesis isPlace).tail (stepsTo_restrict keeps isPlace found step)

theorem isConnected_restrict (keeps : automaton.KeepsLive kept) (first : initial ∈ kept)
    (connected : automaton.IsConnected) : (automaton.restrict kept).IsConnected := by
  intro number inRange
  obtain ⟨old, original, found, isOriginal, -⟩ :=
    exists_of_states_restrict keeps.inRange (Array.getElem?_eq_getElem inRange)
  exact reaches_restrict keeps first
    (connected old (Array.getElem?_eq_some_iff.mp isOriginal).1) found

/-! ## The automaton without texts -/

theorem eq_of_mem_ofNothing {state : State} (isState : state ∈ ofNothing.states) :
    state = ⟨false, []⟩ := by
  rw [ofNothing, List.mem_toArray, List.mem_singleton] at isState
  exact isState

theorem hasSolidLabels_ofNothing : ofNothing.HasSolidLabels := by
  intro state isState step member
  rw [eq_of_mem_ofNothing isState] at member
  exact absurd member List.not_mem_nil

theorem isJoined_ofNothing : ofNothing.IsJoined := by
  intro number state isState
  rw [eq_of_mem_ofNothing (Array.mem_of_getElem? isState)]
  exact List.Pairwise.nil

theorem isConnected_ofNothing : ofNothing.IsConnected := by
  intro number inRange
  have first : number = initial := Nat.lt_one_iff.mp inRange
  rw [first]
  exact Relation.ReflTransGen.refl

/-! ## Pruned automata -/

theorem hasSolidLabels_prune (solid : automaton.HasSolidLabels) :
    automaton.prune.HasSolidLabels := by
  rw [prune]
  split
  · exact hasSolidLabels_restrict (keepsLive_liveStates automaton) solid
  · exact hasSolidLabels_ofNothing

theorem isJoined_prune (joined : automaton.IsJoined) : automaton.prune.IsJoined := by
  rw [prune]
  split
  · exact isJoined_restrict (keepsLive_liveStates automaton) joined
  · exact isJoined_ofNothing

theorem isConnected_prune (connected : automaton.IsConnected) : automaton.prune.IsConnected := by
  rw [prune]
  split
  · rename_i live
    exact isConnected_restrict (keepsLive_liveStates automaton) (List.contains_iff_mem.mp live)
      connected
  · exact isConnected_ofNothing

/-! ## Live automata -/

/-- What a run accepts leads it to an accepting state. -/
theorem canFinish_of_acceptsFrom (ordered : automaton.IsOrdered) {number : Nat}
    {text : List Char} (accepted : automaton.acceptsFrom number text = true) :
    automaton.CanFinish number := by
  induction text generalizing number with
  | nil =>
      rw [acceptsFrom] at accepted
      split at accepted
      · cases accepted
      · rename_i state isState
        exact ⟨number, state, Relation.ReflTransGen.refl, isState, accepted⟩
  | cons c text inductionHypothesis =>
      rw [acceptsFrom] at accepted
      split at accepted
      · cases accepted
      · rename_i state isState
        split at accepted
        · cases accepted
        · rename_i dest way
          obtain ⟨step, member, -, same⟩ :=
            (State.next?_eq_some_iff (ordered number state isState) c dest).mp way
          obtain ⟨last, final, path, isFinal, stops⟩ := inductionHypothesis accepted
          exact ⟨last, final, Relation.ReflTransGen.head ⟨state, isState, step, member, same⟩ path,
            isFinal, stops⟩

theorem IsLive.isEmptyLanguage {state : State} (live : automaton.IsLive)
    (isState : automaton.states[initial]? = some state) : automaton.isEmptyLanguage = false := by
  obtain ⟨text, accepted⟩ := live.alive initial state isState
  rw [Automaton.isEmptyLanguage, isState]
  cases text with
  | nil =>
      rw [acceptsFrom, isState] at accepted
      dsimp only at accepted ⊢
      rw [accepted]
      rfl
  | cons c rest =>
      rw [acceptsFrom, isState] at accepted
      cases transitions : state.transitions with
      | nil =>
          simp [State.next?, transitions] at accepted
      | cons step others =>
          dsimp only
          rw [transitions, List.isEmpty_cons, Bool.and_false]

/-! ## The automaton of a pattern -/

theorem isTight_of_ofPattern {pattern : Pattern} (solid : pattern.IsSolid)
    (built : ofPattern pattern = .ok automaton) :
    automaton.IsConnected ∧ ∀ (number : Nat) (state : State),
      automaton.states[number]? = some state → state.IsTight automaton.states.size := by
  obtain ⟨full, explored, rfl⟩ := exists_explored_of_ofPattern built
  have solidLinks := Graph.hasSolidLabels_ofPattern solid
  have settles := Graph.explore_settles (Graph.isBounded_ofPattern pattern) solidLinks
    (by decide : 0 < subsetLimit) (pattern.size - 1)
  rw [explored] at settles
  obtain ⟨subsets, explores, -⟩ := settles
  have joined : full.IsJoined := fun number state isState =>
    explores.joined state (Array.mem_of_getElem? isState)
  have connected : full.IsConnected := fun number inRange =>
    explores.connected number (Nat.lt_of_lt_of_le inRange explores.covered)
  have solidLabels := hasSolidLabels_prune (hasSolidLabels_of_explore solidLinks explored)
  refine ⟨isConnected_prune connected, ?_⟩
  intro number state isState
  have isMember := Array.mem_of_getElem? isState
  rcases isLive_of_ofPattern solid built with nothing | ⟨live, -⟩
  · rw [nothing] at isMember
    rw [eq_of_mem_ofNothing isMember]
    exact ⟨by simp, by simp, List.Pairwise.nil, List.Pairwise.nil⟩
  · refine ⟨solidLabels state isMember, ?_, (live.ordered number state isState).ordered,
      isJoined_prune joined number state isState⟩
    intro step member
    obtain ⟨next, isNext⟩ := live.onward number state isState step member
    exact (Array.getElem?_eq_some_iff.mp isNext).1

/-- The automaton of a pattern is trim: every state is tight and can be reached, and from every
state a text can be finished, unless the automaton is the one state without transitions that
accepts nothing.  Whether it is that one can be read off. -/
theorem ofPattern_isTrim {pattern : Pattern} (isBuilt : pattern.IsBuilt)
    (built : ofPattern pattern = .ok automaton) :
    (∀ (number : Nat) (state : State), automaton.states[number]? = some state →
        state.IsTight automaton.states.size ∧ automaton.Reaches initial number) ∧
      ((∀ number, number < automaton.states.size → automaton.CanFinish number) ∨
        automaton = ofNothing ∧ ∀ text, automaton.accepts text = false) ∧
        (automaton.isEmptyLanguage = true ↔ automaton = ofNothing) ∧
          (automaton.isEmptyLanguage = true ↔ ∀ text, automaton.accepts text = false) := by
  have solid := isBuilt.solid
  obtain ⟨connected, tight⟩ := isTight_of_ofPattern solid built
  refine ⟨?_, ?_⟩
  · intro number state isState
    exact ⟨tight number state isState,
      connected number (Array.getElem?_eq_some_iff.mp isState).1⟩
  rcases isLive_of_ofPattern solid built with nothing | ⟨live, first, isFirst⟩
  · subst nothing
    exact ⟨Or.inr ⟨rfl, accepts_ofNothing⟩, iff_of_true rfl rfl,
      iff_of_true rfl accepts_ofNothing⟩
  · have lively := live.isEmptyLanguage isFirst
    obtain ⟨text, finishes⟩ := live.alive initial first isFirst
    have accepted : automaton.accepts (String.ofList text) = true := by
      rw [accepts, String.toList_ofList]
      exact finishes
    refine ⟨Or.inl ?_, ?_, ?_⟩
    · intro number inRange
      obtain ⟨own, finishes⟩ := live.alive number _ (Array.getElem?_eq_getElem inRange)
      exact canFinish_of_acceptsFrom live.ordered finishes
    · refine iff_of_false (by simp [lively]) ?_
      rintro rfl
      rw [accepts_ofNothing] at accepted
      cases accepted
    · refine iff_of_false (by simp [lively]) ?_
      intro refused
      rw [refused] at accepted
      cases accepted

theorem isBuilt_oneOrTwoLetters : oneOrTwoLetters.IsBuilt := by
  have letters : (CharSet.range 'a' 'z') = ⟨[⟨97, 122⟩]⟩ := by decide +kernel
  intro set member
  have own : set = ⟨[⟨97, 122⟩]⟩ := by
    simpa [oneOrTwoLetters, Pattern.sets] using member
  rw [own, ← letters]
  exact CharSet.IsBuilt.range 'a' 'z'

/-- From the state behind one letter a text can be finished. -/
theorem oneOrTwoLetters_isTrim :
    oneOrTwoLetters.IsBuilt ∧ ofPattern oneOrTwoLetters = .ok oneOrTwoLettersAutomaton ∧
      oneOrTwoLettersAutomaton.Reaches initial 2 ∧ oneOrTwoLettersAutomaton.CanFinish 1 ∧
        oneOrTwoLettersAutomaton ≠ ofNothing := by
  obtain ⟨states, finish, nothing, -⟩ :=
    ofPattern_isTrim isBuilt_oneOrTwoLetters ofPattern_oneOrTwoLetters
  have different : oneOrTwoLettersAutomaton ≠ ofNothing := by decide
  refine ⟨isBuilt_oneOrTwoLetters, ofPattern_oneOrTwoLetters, (states 2 ⟨true, []⟩ rfl).2, ?_,
    different⟩
  rcases finish with live | ⟨nothing, -⟩
  · exact live 1 (by decide)
  · exact absurd nothing different

end Automaton

end BodyContract
