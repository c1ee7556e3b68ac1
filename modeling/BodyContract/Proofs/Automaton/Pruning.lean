import BodyContract.Proofs.Automaton.Reachability
import BodyContract.Proofs.Automaton.Stretches

/-!
# Dropping dead states

A state from which no accepting one can be reached accepts no text.  Dropping
such states and numbering the others anew leaves what a run accepts as it is:

* the live states include every accepting one and are closed under going back
  along a transition;
* the new number of a state is its place among those that are kept.
-/

namespace BodyContract.Automaton

/-- The labels of every state are inhabited and follow each other. -/
def IsOrdered (automaton : Automaton) : Prop :=
  ∀ (number : Nat) (state : State),
    automaton.states[number]? = some state → Ascending state.transitions

/-- A state with some of its transitions into another one. -/
def StepsTo (automaton : Automaton) (number dest : Nat) : Prop :=
  ∃ state, automaton.states[number]? = some state ∧ ∃ step ∈ state.transitions, step.dest = dest

/-! ## Sources -/

/-- Adds a state to those from which another one is reached in one step. -/
def addSource (found : Array (List Nat)) (pair : Nat × Nat) : Array (List Nat) :=
  found.modify pair.2 (pair.1 :: ·)

theorem mem_foldl_addSource (pairs : List (Nat × Nat)) (found : Array (List Nat))
    (number dest : Nat) (inRange : dest < found.size) :
    number ∈ (pairs.foldl addSource found)[dest]?.getD [] ↔
      (number, dest) ∈ pairs ∨ number ∈ found[dest]?.getD [] := by
  induction pairs generalizing found with
  | nil => simp
  | cons pair rest inductionHypothesis =>
      obtain ⟨source, target⟩ := pair
      rw [List.foldl_cons, inductionHypothesis _ (by rwa [addSource, Array.size_modify]),
        List.mem_cons, Prod.mk.injEq, addSource, Array.getElem?_modify,
        Array.getElem?_eq_getElem inRange]
      by_cases same : target = dest
      · rw [if_pos same]
        simp only [Option.map_some, Option.getD_some, List.mem_cons]
        tauto
      · rw [if_neg same]
        have different : ¬ dest = target := fun equal => same equal.symm
        tauto

theorem mem_sources_iff (automaton : Automaton) (number dest : Nat)
    (inRange : dest < automaton.states.size) :
    number ∈ automaton.sources[dest]?.getD [] ↔ automaton.StepsTo number dest := by
  have found := mem_foldl_addSource
    (automaton.states.toList.zipIdx.flatMap fun entry =>
      entry.1.transitions.map fun step => (entry.2, step.dest))
    (Array.replicate automaton.states.size []) number dest (by rwa [Array.size_replicate])
  refine Iff.trans found ?_
  simp only [Array.getElem?_replicate, if_pos inRange, Option.getD_some, List.not_mem_nil,
    or_false, List.mem_flatMap, List.mem_map, Prod.mk.injEq, Prod.exists,
    List.mk_mem_zipIdx_iff_getElem?, Array.getElem?_toList, StepsTo]
  constructor
  · rintro ⟨state, place, isState, step, member, rfl, same⟩
    exact ⟨state, isState, step, member, same⟩
  · rintro ⟨state, isState, step, member, same⟩
    exact ⟨state, number, isState, step, member, rfl, same⟩

theorem sum_lengths (lists : List (List Nat)) :
    ∑ place ∈ Finset.range lists.length, (lists[place]?.getD []).length =
      (lists.map List.length).sum := by
  induction lists with
  | nil => rfl
  | cons first rest inductionHypothesis =>
      rw [List.length_cons, Finset.sum_range_succ']
      simp only [List.getElem?_cons_succ, List.getElem?_cons_zero, Option.getD_some]
      rw [inductionHypothesis, List.map_cons, List.sum_cons, Nat.add_comm]

/-- The sources are few enough for all live states to be found. -/
theorem linkBound_sources (sources : Array (List Nat)) :
    LinkBound (fun state => sources[state]?.getD []) (Finset.range sources.size)
      (sources.foldl (fun count incoming => count + incoming.length) 0) where
  outside := by
    intro state outside
    rw [Finset.mem_range] at outside
    rw [Array.getElem?_eq_none (Nat.le_of_not_lt outside), Option.getD_none]
  total := by
    have all := sum_lengths sources.toList
    simp only [Array.length_toList, Array.getElem?_toList] at all
    rw [all, List.sum_eq_foldl, List.foldl_map, Array.foldl_toList]

/-! ## Live states -/

theorem mem_liveStates_iff (automaton : Automaton) (number : Nat) :
    number ∈ automaton.liveStates ↔
      ∃ accepting state, automaton.states[accepting]? = some state ∧ state.isAccepting = true ∧
        LeadsTo (fun state => automaton.sources[state]?.getD []) accepting number := by
  rw [liveStates, mem_reach_iff (linkBound_sources automaton.sources)]
  simp only [List.mem_map, List.mem_filter, Prod.exists, List.mk_mem_zipIdx_iff_getElem?,
    Array.getElem?_toList]
  constructor
  · rintro ⟨accepting, ⟨state, place, ⟨isState, stops⟩, rfl⟩, path⟩
    exact ⟨place, state, isState, stops, path⟩
  · rintro ⟨accepting, state, isState, stops, path⟩
    exact ⟨accepting, ⟨state, accepting, ⟨isState, stops⟩, rfl⟩, path⟩

theorem lt_size_of_mem_liveStates {automaton : Automaton} {number : Nat}
    (live : number ∈ automaton.liveStates) : number < automaton.states.size := by
  obtain ⟨accepting, state, isState, -, path⟩ := (mem_liveStates_iff automaton number).mp live
  clear live
  induction path with
  | refl => exact (Array.getElem?_eq_some_iff.mp isState).1
  | tail _ linked inductionHypothesis =>
      obtain ⟨source, isSource, -⟩ :=
        (mem_sources_iff automaton _ _ inductionHypothesis).mp linked
      exact (Array.getElem?_eq_some_iff.mp isSource).1

/-- What makes it safe to keep just the states of a list. -/
structure KeepsLive (automaton : Automaton) (kept : List Nat) : Prop where
  inRange : ∀ number ∈ kept, number < automaton.states.size
  ascending : kept.Pairwise fun left right => left < right
  accepting : ∀ (number : Nat) (state : State), automaton.states[number]? = some state →
    state.isAccepting = true → number ∈ kept
  backward : ∀ number dest, automaton.StepsTo number dest → dest ∈ kept → number ∈ kept

theorem keepsLive_liveStates (automaton : Automaton) :
    automaton.KeepsLive automaton.liveStates where
  inRange := fun _ live => lt_size_of_mem_liveStates live
  ascending := by
    refine List.Pairwise.imp (fun before => Nat.compare_eq_lt.mp before) ?_
    exact Std.TreeSet.ordered_toList
  accepting := by
    intro number state isState stops
    exact (mem_liveStates_iff automaton number).mpr
      ⟨number, state, isState, stops, Relation.ReflTransGen.refl⟩
  backward := by
    intro number dest step live
    have source := (mem_sources_iff automaton number dest (lt_size_of_mem_liveStates live)).mpr step
    obtain ⟨accepting, state, isState, stops, path⟩ := (mem_liveStates_iff automaton dest).mp live
    exact (mem_liveStates_iff automaton number).mpr
      ⟨accepting, state, isState, stops, path.tail source⟩

theorem KeepsLive.nodup {automaton : Automaton} {kept : List Nat}
    (keeps : automaton.KeepsLive kept) : kept.Nodup :=
  keeps.ascending.imp Nat.ne_of_lt

/-- The list ascends, so the initial state can only stand in front. -/
theorem KeepsLive.initial_place {automaton : Automaton} {kept : List Nat}
    (keeps : automaton.KeepsLive kept) (member : initial ∈ kept) :
    kept[initial]? = some initial := by
  cases kept with
  | nil => exact absurd member List.not_mem_nil
  | cons first rest =>
      rcases List.mem_cons.mp member with same | later
      · rw [← same]
        rfl
      · exact absurd (List.rel_of_pairwise_cons keeps.ascending later) (Nat.not_lt_zero first)

/-! ## New numbers -/

/-- Gives a state its new number. -/
def setNumber (numbers : Array (Option Nat)) (pair : Nat × Nat) : Array (Option Nat) :=
  numbers.set! pair.1 (some pair.2)

theorem foldl_setNumber_of_notMem {kept : List Nat} {old : Nat} (dropped : old ∉ kept)
    (offset : Nat) (numbers : Array (Option Nat)) :
    ((kept.zipIdx offset).foldl setNumber numbers)[old]? = numbers[old]? := by
  induction kept generalizing offset numbers with
  | nil => rfl
  | cons first rest inductionHypothesis =>
      rw [List.mem_cons, not_or] at dropped
      rw [List.zipIdx_cons, List.foldl_cons, inductionHypothesis dropped.2, setNumber,
        Array.set!_eq_setIfInBounds, Array.getElem?_setIfInBounds_ne (Ne.symm dropped.1)]

theorem foldl_setNumber_of_place {kept : List Nat} {old place : Nat} (nodup : kept.Nodup)
    (found : kept[place]? = some old) (offset : Nat) (numbers : Array (Option Nat))
    (inRange : old < numbers.size) :
    ((kept.zipIdx offset).foldl setNumber numbers)[old]? = some (some (place + offset)) := by
  induction kept generalizing place offset numbers with
  | nil => cases found
  | cons first rest inductionHypothesis =>
      obtain ⟨fresh, restNodup⟩ := List.nodup_cons.mp nodup
      rw [List.zipIdx_cons, List.foldl_cons]
      cases place with
      | zero =>
          cases found
          rw [foldl_setNumber_of_notMem fresh, setNumber, Array.set!_eq_setIfInBounds,
            Array.getElem?_setIfInBounds_self_of_lt inRange, Nat.zero_add]
      | succ place =>
          rw [inductionHypothesis restNodup found (offset + 1) _
            (by rwa [setNumber, Array.set!_eq_setIfInBounds, Array.size_setIfInBounds])]
          congr 2
          omega

/-- The new number of a state is its place in the list. -/
theorem renumbering_iff {count : Nat} {kept : List Nat} (nodup : kept.Nodup)
    (inRange : ∀ number ∈ kept, number < count) (old new : Nat) :
    (renumbering count kept)[old]?.join = some new ↔ kept[new]? = some old := by
  constructor
  · intro numbered
    by_cases member : old ∈ kept
    · obtain ⟨place, found⟩ := List.mem_iff_getElem?.mp member
      have placed := foldl_setNumber_of_place nodup found 0 (Array.replicate count none)
        (by rw [Array.size_replicate]; exact inRange old member)
      have same : some place = some new := by
        rw [← numbered]
        exact (congrArg Option.join placed).symm
      cases same
      exact found
    · have dropped := foldl_setNumber_of_notMem member 0 (Array.replicate count none)
      have nothing : (none : Option Nat) = some new := by
        rw [← numbered]
        refine Eq.trans ?_ (congrArg Option.join dropped).symm
        rw [Array.getElem?_replicate]
        split <;> rfl
      cases nothing
  · intro found
    have placed := foldl_setNumber_of_place nodup found 0 (Array.replicate count none)
      (by rw [Array.size_replicate]; exact inRange old (List.mem_of_getElem? found))
    exact congrArg Option.join placed

theorem KeepsLive.number_iff {automaton : Automaton} {kept : List Nat}
    (keeps : automaton.KeepsLive kept) (old new : Nat) :
    (renumbering automaton.states.size kept)[old]?.join = some new ↔ kept[new]? = some old :=
  renumbering_iff keeps.nodup keeps.inRange old new

/-! ## Restricted automata -/

/-- A state without the transitions to states that are dropped. -/
def restrictState (numbers : Array (Option Nat)) (state : State) : State :=
  { state with
    transitions := state.transitions.filterMap fun step =>
      (numbers[step.dest]?.join).map (Transition.mk step.label) }

/-- Where nothing is dropped, places stay. -/
theorem getElem?_filterMap {α β : Type} {list : List α} {f : α → Option β}
    (total : ∀ item ∈ list, (f item).isSome = true) (place : Nat) :
    (list.filterMap f)[place]? = list[place]?.bind f := by
  induction list generalizing place with
  | nil => rfl
  | cons first rest inductionHypothesis =>
      obtain ⟨image, same⟩ := Option.isSome_iff_exists.mp (total first List.mem_cons_self)
      rw [List.filterMap_cons, same]
      cases place with
      | zero => exact same.symm
      | succ place =>
          exact inductionHypothesis
            (fun item member => total item (List.mem_cons_of_mem first member)) place

theorem states_restrict {automaton : Automaton} {kept : List Nat}
    (inRange : ∀ number ∈ kept, number < automaton.states.size) {old new : Nat} {state : State}
    (found : kept[new]? = some old) (isState : automaton.states[old]? = some state) :
    (automaton.restrict kept).states[new]? =
      some (restrictState (renumbering automaton.states.size kept) state) := by
  rw [restrict, List.getElem?_toArray, getElem?_filterMap, found]
  · simp only [Option.bind_some, isState]
    rfl
  · intro number member
    simp only [Array.getElem?_eq_getElem (inRange number member)]
    rfl

theorem leads_restrictState_iff (numbers : Array (Option Nat)) (state : State)
    (point new : Nat) :
    Leads (restrictState numbers state).transitions point new ↔
      ∃ old, Leads state.transitions point old ∧ numbers[old]?.join = some new := by
  simp only [Leads, restrictState, List.mem_filterMap, Option.map_eq_some_iff]
  constructor
  · rintro ⟨step, ⟨original, member, number, numbered, rfl⟩, inside, rfl⟩
    exact ⟨original.dest, ⟨original, member, inside, rfl⟩, numbered⟩
  · rintro ⟨old, ⟨original, member, inside, rfl⟩, numbered⟩
    exact ⟨⟨original.label, new⟩, ⟨original, member, new, numbered, rfl⟩, inside, rfl⟩

theorem ascending_restrictState {numbers : Array (Option Nat)} {state : State}
    (ascending : Ascending state.transitions) :
    Ascending (restrictState numbers state).transitions where
  inhabited := by
    intro step member
    simp only [restrictState, List.mem_filterMap, Option.map_eq_some_iff] at member
    obtain ⟨original, isStep, number, -, rfl⟩ := member
    exact ascending.inhabited original isStep
  ordered := by
    rw [restrictState, List.pairwise_filterMap]
    refine ascending.ordered.imp ?_
    intro left right order first isFirst second isSecond
    obtain ⟨-, -, rfl⟩ := Option.map_eq_some_iff.mp isFirst
    obtain ⟨-, -, rfl⟩ := Option.map_eq_some_iff.mp isSecond
    exact order

/-- A state that is not kept accepts no text. -/
theorem mem_kept_of_acceptsFrom {automaton : Automaton} {kept : List Nat}
    (ordered : automaton.IsOrdered) (keeps : automaton.KeepsLive kept) {number : Nat}
    {text : List Char} (accepted : automaton.acceptsFrom number text = true) : number ∈ kept := by
  induction text generalizing number with
  | nil =>
      rw [acceptsFrom] at accepted
      split at accepted
      · cases accepted
      · rename_i state isState
        exact keeps.accepting number state isState accepted
  | cons c text inductionHypothesis =>
      rw [acceptsFrom] at accepted
      split at accepted
      · cases accepted
      · rename_i state isState
        split at accepted
        · cases accepted
        · rename_i dest way
          obtain ⟨step, member, -, same⟩ :=
            (State.next?_eq_some_iff (ordered number state isState) c dest).mp way
          exact keeps.backward number dest ⟨state, isState, step, member, same⟩
            (inductionHypothesis accepted)

/-- A state that is kept accepts the same texts under its new number. -/
theorem acceptsFrom_restrict {automaton : Automaton} {kept : List Nat}
    (ordered : automaton.IsOrdered) (keeps : automaton.KeepsLive kept) {old new : Nat}
    (found : kept[new]? = some old) (text : List Char) :
    (automaton.restrict kept).acceptsFrom new text = automaton.acceptsFrom old text := by
  induction text generalizing old new with
  | nil =>
      have isState := Array.getElem?_eq_getElem (keeps.inRange old (List.mem_of_getElem? found))
      rw [acceptsFrom, acceptsFrom, states_restrict keeps.inRange found isState, isState]
      rfl
  | cons c text inductionHypothesis =>
      have inRange := keeps.inRange old (List.mem_of_getElem? found)
      have isState := Array.getElem?_eq_getElem inRange
      have ascending := ordered old _ isState
      rw [acceptsFrom, acceptsFrom, states_restrict keeps.inRange found isState, isState]
      dsimp only
      cases way : (restrictState (renumbering automaton.states.size kept)
          automaton.states[old]).next? c with
      | some next =>
          rw [State.next?_eq_some_iff (ascending_restrictState ascending)] at way
          obtain ⟨dest, step, numbered⟩ := (leads_restrictState_iff _ _ _ _).mp way
          rw [keeps.number_iff] at numbered
          rw [(State.next?_eq_some_iff ascending c dest).mpr step]
          exact inductionHypothesis numbered
      | none =>
          dsimp only
          split
          · rfl
          · rename_i dest step
            rw [State.next?_eq_some_iff ascending] at step
            cases accepted : automaton.acceptsFrom dest text with
            | false => rfl
            | true =>
                obtain ⟨next, place⟩ := List.mem_iff_getElem?.mp
                  (mem_kept_of_acceptsFrom ordered keeps accepted)
                rw [← keeps.number_iff] at place
                have possible := (leads_restrictState_iff _ _ _ _).mpr ⟨dest, step, place⟩
                rw [← State.next?_eq_some_iff (ascending_restrictState ascending), way] at possible
                cases possible

/-- Pruning keeps what an automaton accepts. -/
theorem acceptsFrom_prune {automaton : Automaton} (ordered : automaton.IsOrdered)
    (text : List Char) :
    automaton.prune.acceptsFrom initial text = automaton.acceptsFrom initial text := by
  have keeps := keepsLive_liveStates automaton
  rw [prune]
  split
  · rename_i live
    rw [List.contains_iff_mem] at live
    exact acceptsFrom_restrict ordered keeps (keeps.initial_place live) text
  · rename_i dead
    rw [List.contains_iff_mem] at dead
    cases accepted : automaton.acceptsFrom initial text with
    | true => exact absurd (mem_kept_of_acceptsFrom ordered keeps accepted) dead
    | false =>
        cases text with
        | nil => rfl
        | cons c rest => rfl

end BodyContract.Automaton
