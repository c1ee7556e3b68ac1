import BodyContract.Proofs.Automaton.Adjacency
import BodyContract.Proofs.Automaton.Stretches
import BodyContract.Proofs.Outcome

/-!
# The subset construction

Each state of the automaton that `Graph.explore` builds stands for the set of
graph states with the same number.  A character leads from a set to the
closure of what the links out of the set read it to, and a set has a way on
for every character that one of its links reads.  So a run of the automaton
accepts a text exactly if the graph has a walk to the accepting state.
-/

namespace BodyContract

namespace Subsets

/-- Whatever has a number is the set with that number. -/
def Numbered (subsets : Subsets) : Prop :=
  ∀ (set : List Nat) (number : Nat),
    subsets.numbers[set]? = some number → subsets.members[number]? = some set

/-- No set of the first numbering has another number in the second one. -/
def GrowsTo (subsets grown : Subsets) : Prop :=
  ∀ (number : Nat) (set : List Nat),
    subsets.members[number]? = some set → grown.members[number]? = some set

theorem GrowsTo.refl (subsets : Subsets) : subsets.GrowsTo subsets :=
  fun _ _ found => found

theorem GrowsTo.trans {first second third : Subsets} (left : first.GrowsTo second)
    (right : second.GrowsTo third) : first.GrowsTo third :=
  fun number set found => right number set (left number set found)

theorem numbered_singleton (set : List Nat) : (singleton set).Numbered := by
  intro other number found
  rw [singleton, Std.HashMap.singleton_eq_insert] at found
  simp only [Std.HashMap.getElem?_insert] at found
  split at found
  · rename_i same
    rw [beq_iff_eq] at same
    cases found
    rw [singleton, same]
    rfl
  · rw [Std.HashMap.getElem?_empty] at found
    cases found

/-- A set that is interned has the number that is returned, and every other set
keeps its own. -/
theorem intern_spec {subsets grown : Subsets} {set : List Nat} {number : Nat}
    (numbered : subsets.Numbered) (interned : subsets.intern set = (number, grown)) :
    grown.Numbered ∧ subsets.GrowsTo grown ∧ grown.members[number]? = some set := by
  rw [intern] at interned
  split at interned
  · rename_i known found
    cases interned
    exact ⟨numbered, GrowsTo.refl subsets, numbered _ _ found⟩
  · cases interned
    have grows : subsets.GrowsTo
        ⟨subsets.members.push set, subsets.numbers.insert set subsets.members.size⟩ := by
      intro number other found
      have inRange : number < subsets.members.size := (Array.getElem?_eq_some_iff.mp found).1
      simp only [Array.getElem?_push]
      rw [if_neg (Nat.ne_of_lt inRange), found]
    have last : (subsets.members.push set)[subsets.members.size]? = some set := by simp
    refine ⟨?_, grows, last⟩
    intro other number found
    simp only [Std.HashMap.getElem?_insert] at found
    split at found
    · rename_i same
      rw [beq_iff_eq] at same
      cases found
      rw [← same]
      exact last
    · exact grows number other (numbered other number found)

end Subsets

namespace Graph

open Subsets

/-- The states that reading a code point leads to from a set of states, before
silent links. -/
def readTargets (graph : Graph) (set : List Nat) (point : Nat) : List Nat :=
  ((set.flatMap graph.readingFrom).filter fun (label, _) => label.contains point).map (·.2)

theorem mem_readTargets (graph : Graph) (set : List Nat) (point dest : Nat) :
    dest ∈ graph.readTargets set point ↔
      ∃ source ∈ set, ∃ label, (label, dest) ∈ graph.readingFrom source ∧
        label.contains point = true := by
  simp only [readTargets, List.mem_map, List.mem_filter, List.mem_flatMap]
  constructor
  · rintro ⟨⟨label, found⟩, ⟨⟨source, member, linked⟩, inside⟩, rfl⟩
    exact ⟨source, member, label, linked, inside⟩
  · rintro ⟨source, member, label, linked, inside⟩
    exact ⟨(label, dest), ⟨⟨source, member, linked⟩, inside⟩, rfl⟩

/-- All points of an elementary stretch lead to the same states. -/
theorem targets_eq_readTargets (graph : Graph) (set : List Nat) {stretch : Interval}
    {point : Nat}
    (member : stretch ∈ elementary ((set.flatMap graph.readingFrom).map (·.1)))
    (inside : stretch.contains point = true) :
    targets (set.flatMap graph.readingFrom) stretch = graph.readTargets set point := by
  rw [targets, readTargets]
  congr 1
  refine List.filter_congr ?_
  rintro ⟨label, dest⟩ linked
  have labelled : label ∈ (set.flatMap graph.readingFrom).map (·.1) :=
    List.mem_map.mpr ⟨(label, dest), linked, rfl⟩
  rw [Bool.eq_iff_iff, contains_iff_of_mem_elementary labelled member inside]
  simp

/-! ## Steps -/

/-- What `stepsAux` returns for a list of stretches. -/
structure StepsFor (graph : Graph) (reading : List (Interval × Nat)) (list : List Interval)
    (grown : Subsets) (steps : List Transition) : Prop where
  labels : (steps.map (·.label)).Sublist list
  leads : ∀ step ∈ steps,
    grown.members[step.dest]? = some (graph.closure (targets reading step.label))
  complete : ∀ stretch ∈ list, targets reading stretch ≠ [] →
    ∃ step ∈ steps, step.label = stretch

theorem stepsAux_spec {graph : Graph} {limit : Nat} {reading : List (Interval × Nat)} :
    ∀ {list : List Interval} {subsets grown : Subsets} {steps : List Transition},
      subsets.Numbered → subsets.members.size ≤ limit →
        graph.stepsAux limit reading list subsets = .ok (steps, grown) →
          grown.Numbered ∧ subsets.GrowsTo grown ∧ grown.members.size ≤ limit ∧
            graph.StepsFor reading list grown steps
  | [], subsets, grown, steps, numbered, small, built => by
      rw [stepsAux] at built
      cases built
      refine ⟨numbered, GrowsTo.refl subsets, small, List.Sublist.refl [], ?_, ?_⟩
      · intro step member
        exact absurd member List.not_mem_nil
      · intro stretch member
        exact absurd member List.not_mem_nil
  | stretch :: rest, subsets, grown, steps, numbered, small, built => by
      rw [stepsAux] at built
      split at built
      · rename_i nowhere
        obtain ⟨laterNumbered, grows, laterSmall, steps⟩ := stepsAux_spec numbered small built
        refine ⟨laterNumbered, grows, laterSmall, steps.labels.cons stretch, steps.leads, ?_⟩
        intro other member somewhere
        rcases List.mem_cons.mp member with rfl | member
        · exact absurd nowhere somewhere
        · exact steps.complete other member somewhere
      · cases interned : subsets.intern (graph.closure (targets reading stretch)) with
        | mk dest middle =>
            obtain ⟨middleNumbered, middleGrows, found⟩ := intern_spec numbered interned
            simp only [interned] at built
            split at built
            · cases built
            · rename_i fits
              obtain ⟨⟨others, last⟩, later, whole⟩ := bind_eq_ok_iff.mp built
              cases whole
              obtain ⟨laterNumbered, grows, laterSmall, steps⟩ :=
                stepsAux_spec middleNumbered (Nat.le_of_not_lt fits) later
              refine ⟨laterNumbered, middleGrows.trans grows, laterSmall,
                steps.labels.cons_cons stretch, ?_, ?_⟩
              · intro step member
                rcases List.mem_cons.mp member with rfl | member
                · exact grows _ _ found
                · exact steps.leads step member
              · intro other member somewhere
                rcases List.mem_cons.mp member with rfl | member
                · exact ⟨_, List.mem_cons_self, rfl⟩
                · obtain ⟨step, inside, same⟩ := steps.complete other member somewhere
                  exact ⟨step, List.mem_cons_of_mem _ inside, same⟩

/-! ## States -/

/-- The state of the automaton that stands for a set of graph states. -/
structure StandsFor (graph : Graph) (accepting : Nat) (subsets : Subsets) (set : List Nat)
    (state : State) : Prop where
  accepts : state.isAccepting = set.contains accepting
  ascending : Ascending state.transitions
  leads : ∀ point dest, Leads state.transitions point dest →
    subsets.members[dest]? = some (graph.closure (graph.readTargets set point))
  complete : ∀ point, graph.readTargets set point ≠ [] →
    ∃ dest, Leads state.transitions point dest

theorem StandsFor.grow {graph : Graph} {accepting : Nat} {subsets grown : Subsets}
    {set : List Nat} {state : State} (stands : graph.StandsFor accepting subsets set state)
    (grows : subsets.GrowsTo grown) : graph.StandsFor accepting grown set state where
  accepts := stands.accepts
  ascending := stands.ascending
  leads := fun point dest step => grows _ _ (stands.leads point dest step)
  complete := stands.complete

theorem ascending_of_stepsFor {graph : Graph} {reading : List (Interval × Nat)}
    {labels : List Interval} {grown : Subsets} {steps : List Transition}
    (built : graph.StepsFor reading (elementary labels) grown steps) : Ascending steps where
  inhabited := by
    intro step member
    exact low_le_high_of_mem_elementary
      (built.labels.subset (List.mem_map.mpr ⟨step, member, rfl⟩))
  ordered := List.pairwise_map.mp ((pairwise_elementary labels).sublist built.labels)

theorem expand_spec {graph : Graph} {limit accepting : Nat} {set : List Nat}
    {subsets grown : Subsets} {state : State} (numbered : subsets.Numbered)
    (small : subsets.members.size ≤ limit)
    (built : graph.expand limit accepting set subsets = .ok (state, grown)) :
    grown.Numbered ∧ subsets.GrowsTo grown ∧ grown.members.size ≤ limit ∧
      graph.StandsFor accepting grown set state := by
  rw [expand] at built
  obtain ⟨⟨steps, last⟩, walked, whole⟩ := bind_eq_ok_iff.mp built
  cases whole
  obtain ⟨laterNumbered, grows, laterSmall, steps⟩ := stepsAux_spec numbered small walked
  have ascending := ascending_of_stepsFor steps
  refine ⟨laterNumbered, grows, laterSmall, rfl, ascending.join, ?_, ?_⟩
  · intro point dest leads
    rw [leads_joinTransitions_iff ascending] at leads
    obtain ⟨step, member, inside, rfl⟩ := leads
    have stretch := steps.labels.subset (List.mem_map.mpr ⟨step, member, rfl⟩)
    rw [steps.leads step member, targets_eq_readTargets graph set stretch inside]
  · intro point somewhere
    obtain ⟨dest, member⟩ := List.exists_mem_of_ne_nil _ somewhere
    obtain ⟨source, inSet, label, linked, inside⟩ := (mem_readTargets graph set point dest).mp member
    have labelled : label ∈ (set.flatMap graph.readingFrom).map (·.1) :=
      List.mem_map.mpr ⟨(label, dest), List.mem_flatMap.mpr ⟨source, inSet, linked⟩, rfl⟩
    obtain ⟨stretch, isStretch, holds⟩ := exists_elementary labelled inside
    rw [← targets_eq_readTargets graph set isStretch holds] at somewhere
    obtain ⟨step, isStep, same⟩ := steps.complete stretch isStretch somewhere
    refine ⟨step.dest, ?_⟩
    rw [leads_joinTransitions_iff ascending]
    exact ⟨step, isStep, by rw [same]; exact holds, rfl⟩

/-- Every number below the end belongs both to a set and to the state for it. -/
structure Explored (graph : Graph) (accepting : Nat) (subsets : Subsets)
    (states : Array State) : Prop where
  stands : ∀ (number : Nat) (state : State), states[number]? = some state →
    ∃ set, subsets.members[number]? = some set ∧ graph.StandsFor accepting subsets set state

theorem Explored.push {graph : Graph} {accepting : Nat} {subsets grown : Subsets}
    {states : Array State} {set : List Nat} {state : State}
    (explored : graph.Explored accepting subsets states) (grows : subsets.GrowsTo grown)
    (found : grown.members[states.size]? = some set)
    (stands : graph.StandsFor accepting grown set state) :
    graph.Explored accepting grown (states.push state) where
  stands := by
    intro number other isState
    rw [Array.getElem?_push] at isState
    split at isState
    · rename_i same
      cases isState
      subst same
      exact ⟨set, found, stands⟩
    · obtain ⟨old, isSet, stands⟩ := explored.stands number other isState
      exact ⟨old, grows _ _ isSet, stands.grow grows⟩

/-- When the exploration ends, every set that has been numbered has a state. -/
theorem exploreAux_spec {graph : Graph} {limit accepting : Nat} :
    ∀ {fuel : Nat} {states result : Array State} {subsets : Subsets},
      subsets.Numbered → subsets.members.size ≤ limit → limit ≤ states.size + fuel →
        graph.Explored accepting subsets states →
          graph.exploreAux limit accepting fuel states subsets = .ok result →
            ∃ last, subsets.GrowsTo last ∧ last.members.size ≤ result.size ∧
              graph.Explored accepting last result
  | 0, states, result, subsets, _, small, enough, explored, built => by
      rw [exploreAux] at built
      cases built
      exact ⟨subsets, GrowsTo.refl subsets, by omega, explored⟩
  | fuel + 1, states, result, subsets, numbered, small, enough, explored, built => by
      rw [exploreAux] at built
      split at built
      · rename_i finished
        cases built
        exact ⟨subsets, GrowsTo.refl subsets, Array.getElem?_eq_none_iff.mp finished, explored⟩
      · rename_i set found
        obtain ⟨⟨state, grown⟩, expanded, later⟩ := bind_eq_ok_iff.mp built
        obtain ⟨grownNumbered, grows, grownSmall, stands⟩ := expand_spec numbered small expanded
        obtain ⟨last, laterGrows, covers, explored⟩ :=
          exploreAux_spec grownNumbered grownSmall (by rw [Array.size_push]; omega)
            (explored.push grows (grows _ _ found) stands) later
        exact ⟨last, grows.trans laterGrows, covers, explored⟩

/-! ## Runs -/

theorem leadsTo_closed {graph : Graph} (bounded : graph.IsBounded) {states : List Nat}
    {source dest : Nat} (member : source ∈ graph.closure states)
    (silent : LeadsTo graph.silentFrom source dest) : dest ∈ graph.closure states := by
  rw [mem_closure_iff bounded] at member ⊢
  obtain ⟨start, begins, path⟩ := member
  exact ⟨start, begins, path.trans silent⟩

/-- A walk from the closure of a list of states is one from the list itself. -/
theorem walks_closure_iff {graph : Graph} (bounded : graph.IsBounded) (states : List Nat)
    (text : List Char) (last : Nat) :
    (∃ source ∈ graph.closure states, graph.Walks source text last) ↔
      ∃ source ∈ states, graph.Walks source text last := by
  constructor
  · rintro ⟨source, member, walk⟩
    obtain ⟨start, begins, path⟩ := (mem_closure_iff bounded states source).mp member
    exact ⟨start, begins, walks_of_leadsTo path walk⟩
  · rintro ⟨source, member, walk⟩
    exact ⟨source, (mem_closure_iff bounded states source).mpr
      ⟨source, member, Relation.ReflTransGen.refl⟩, walk⟩

/-- A walk from a closed set that reads a character goes on from what the set
leads to. -/
theorem walks_cons_closure_iff {graph : Graph} (bounded : graph.IsBounded) (start : List Nat)
    (c : Char) (text : List Char) (last : Nat) :
    (∃ source ∈ graph.closure start, graph.Walks source (c :: text) last) ↔
      ∃ dest ∈ graph.readTargets (graph.closure start) c.toNat, graph.Walks dest text last := by
  constructor
  · rintro ⟨source, member, walk⟩
    obtain ⟨middle, label, dest, silent, linked, inside, walk⟩ := walks_cons_iff.mp walk
    exact ⟨dest, (mem_readTargets _ _ _ _).mpr
      ⟨middle, leadsTo_closed bounded member silent, label, linked, inside⟩, walk⟩
  · rintro ⟨dest, reached, walk⟩
    obtain ⟨source, member, label, linked, inside⟩ := (mem_readTargets _ _ _ _).mp reached
    exact ⟨source, member, Walks.reads linked inside walk⟩

/-- Every numbered set has its state if there are enough states. -/
theorem Explored.state_of_member {graph : Graph} {accepting : Nat} {subsets : Subsets}
    {states : Array State} (explored : graph.Explored accepting subsets states)
    (covers : subsets.members.size ≤ states.size) {number : Nat} {set : List Nat}
    (found : subsets.members[number]? = some set) :
    ∃ state, states[number]? = some state ∧ graph.StandsFor accepting subsets set state := by
  have inRange : number < states.size :=
    Nat.lt_of_lt_of_le (Array.getElem?_eq_some_iff.mp found).1 covers
  have isState := Array.getElem?_eq_getElem inRange
  obtain ⟨other, isSet, stands⟩ := explored.stands number _ isState
  cases found.symm.trans isSet
  exact ⟨_, isState, stands⟩

/-- From the state of a closed set a run accepts what the graph reads on its
walks from the set to the accepting state. -/
theorem acceptsFrom_iff {graph : Graph} {accepting : Nat} {subsets : Subsets}
    {states : Array State} (bounded : graph.IsBounded)
    (explored : graph.Explored accepting subsets states)
    (covers : subsets.members.size ≤ states.size) {number : Nat} {start : List Nat}
    (found : subsets.members[number]? = some (graph.closure start)) (text : List Char) :
    (Automaton.mk states).acceptsFrom number text = true ↔
      ∃ source ∈ graph.closure start, graph.Walks source text accepting := by
  induction text generalizing number start with
  | nil =>
      obtain ⟨state, isState, stands⟩ := explored.state_of_member covers found
      rw [Automaton.acceptsFrom, isState]
      simp only [stands.accepts, List.contains_iff_mem]
      constructor
      · intro member
        exact ⟨accepting, member, Walks.stay accepting⟩
      · rintro ⟨source, member, walk⟩
        exact leadsTo_closed bounded member (leadsTo_of_walks_nil walk)
  | cons c text inductionHypothesis =>
      obtain ⟨state, isState, stands⟩ := explored.state_of_member covers found
      rw [walks_cons_closure_iff bounded, Automaton.acceptsFrom, isState]
      dsimp only
      cases way : state.next? c with
      | none =>
          constructor
          · intro impossible
            exact absurd impossible Bool.false_ne_true
          · rintro ⟨dest, reached, -⟩
            obtain ⟨next, leads⟩ := stands.complete c.toNat (List.ne_nil_of_mem reached)
            rw [← State.next?_eq_some_iff stands.ascending, way] at leads
            cases leads
      | some next =>
          have leads := (State.next?_eq_some_iff stands.ascending c next).mp way
          rw [inductionHypothesis (stands.leads c.toNat next leads),
            walks_closure_iff bounded]

theorem explore_spec {graph : Graph} {limit accepting : Nat} {automaton : Automaton}
    (positive : 0 < limit) (built : graph.explore limit accepting = .ok automaton) :
    ∃ subsets : Subsets,
      subsets.members[Automaton.initial]? = some (graph.closure [0]) ∧
        subsets.members.size ≤ automaton.states.size ∧
          graph.Explored accepting subsets automaton.states := by
  rw [explore] at built
  obtain ⟨states, explored, whole⟩ := bind_eq_ok_iff.mp built
  cases whole
  have nothing : graph.Explored accepting (Subsets.singleton (graph.closure [0])) #[] :=
    ⟨by simp⟩
  obtain ⟨last, grows, covers, explored⟩ :=
    exploreAux_spec (numbered_singleton _) positive (by simp) nothing explored
  exact ⟨last, grows _ _ rfl, covers, explored⟩

/-- The automaton of a graph accepts what the graph reads from its first state
to the accepting one. -/
theorem explore_accepts_iff {graph : Graph} {limit accepting : Nat} {automaton : Automaton}
    (bounded : graph.IsBounded) (positive : 0 < limit)
    (built : graph.explore limit accepting = .ok automaton) (text : List Char) :
    automaton.acceptsFrom Automaton.initial text = true ↔ graph.Walks 0 text accepting := by
  obtain ⟨subsets, first, covers, explored⟩ := explore_spec positive built
  rw [acceptsFrom_iff bounded explored covers first, walks_closure_iff bounded]
  simp

theorem ascending_of_explore {graph : Graph} {limit accepting : Nat} {automaton : Automaton}
    (positive : 0 < limit) (built : graph.explore limit accepting = .ok automaton)
    {number : Nat} {state : State} (isState : automaton.states[number]? = some state) :
    Ascending state.transitions := by
  obtain ⟨subsets, -, -, explored⟩ := explore_spec positive built
  obtain ⟨set, -, stands⟩ := explored.stands number state isState
  exact stands.ascending

end Graph

end BodyContract
