import BodyContract.Proofs.Automaton.Characters
import BodyContract.Proofs.Automaton.Pruning
import BodyContract.Proofs.Automaton.SubsetConstruction

/-!
# What the exploration finds

Every set that is numbered is the set of states that some text leads to, no
set is numbered twice, and every number can be reached along the transitions.
So an exploration that gives up has found more sets of this kind than are
allowed, and one that does not has found all of them.
-/

namespace BodyContract

/-- A state that transitions lead to from another one. -/
def Automaton.Reaches (automaton : Automaton) : Nat → Nat → Prop :=
  Relation.ReflTransGen automaton.StepsTo

/-! ## Joined transitions -/

/-- No two transitions to the same state touch. -/
def Joined (steps : List Transition) : Prop :=
  steps.Pairwise fun left right =>
    left.dest = right.dest → left.label.high + 1 ≠ right.label.low

/-- The first label that is left begins where the first one began. -/
theorem head_joinTransitions {step first : Transition} {rest others : List Transition}
    (joined : joinTransitions (step :: rest) = first :: others) :
    first.label.low = step.label.low ∧ first.dest = step.dest := by
  rw [joinTransitions] at joined
  split at joined
  · cases joined
    exact ⟨rfl, rfl⟩
  · split at joined
    · cases joined
      exact ⟨rfl, rfl⟩
    · cases joined
      exact ⟨rfl, rfl⟩

theorem joined_joinTransitions {steps : List Transition} (ascending : Ascending steps) :
    Joined (joinTransitions steps) := by
  induction steps with
  | nil => exact List.Pairwise.nil
  | cons step rest inductionHypothesis =>
      have later := inductionHypothesis ascending.tail
      have sorted := ascending.tail.join
      rw [joinTransitions]
      split
      · exact List.pairwise_singleton _ step
      · rename_i next others same
        rw [same] at later sorted
        have beyond : ∀ other ∈ others, next.label.high < other.label.low :=
          (List.pairwise_cons.mp sorted.ordered).1
        have proper := sorted.inhabited next List.mem_cons_self
        split
        · -- The joined transition ends where the next one ended, and leads there.
          rename_i joins
          rw [Bool.and_eq_true, decide_eq_true_eq, decide_eq_true_eq] at joins
          obtain ⟨apart, restJoined⟩ := List.pairwise_cons.mp later
          refine List.Pairwise.cons ?_ restJoined
          intro other member equal
          exact apart other member (joins.1.symm.trans equal)
        · rename_i separate
          rw [Bool.and_eq_true, decide_eq_true_eq, decide_eq_true_eq] at separate
          have before : step.label.high < next.label.low := by
            cases rest with
            | nil => cases same
            | cons second tail =>
                rw [(head_joinTransitions same).1]
                exact (List.pairwise_cons.mp ascending.ordered).1 second List.mem_cons_self
          refine List.Pairwise.cons ?_ later
          intro other member equal
          rcases List.mem_cons.mp member with rfl | member
          · exact fun touch => separate ⟨equal, touch⟩
          · have := beyond other member
            omega

/-- Joining loses no state that is led to. -/
theorem exists_dest_joinTransitions {steps : List Transition} {step : Transition}
    (member : step ∈ steps) : ∃ joined ∈ joinTransitions steps, joined.dest = step.dest := by
  induction steps with
  | nil => exact absurd member List.not_mem_nil
  | cons head rest inductionHypothesis =>
      rw [joinTransitions]
      cases same : joinTransitions rest with
      | nil =>
          rw [same] at inductionHypothesis
          rcases List.mem_cons.mp member with rfl | member
          · exact ⟨step, List.mem_cons_self, rfl⟩
          · obtain ⟨joined, impossible, -⟩ := inductionHypothesis member
            exact absurd impossible List.not_mem_nil
      | cons next others =>
          rw [same] at inductionHypothesis
          dsimp only
          split
          · rename_i joins
            rw [Bool.and_eq_true, decide_eq_true_eq] at joins
            rcases List.mem_cons.mp member with rfl | member
            · exact ⟨_, List.mem_cons_self, rfl⟩
            · obtain ⟨joined, inside, leads⟩ := inductionHypothesis member
              rcases List.mem_cons.mp inside with rfl | inside
              · exact ⟨_, List.mem_cons_self, joins.1.trans leads⟩
              · exact ⟨joined, List.mem_cons_of_mem _ inside, leads⟩
          · rcases List.mem_cons.mp member with rfl | member
            · exact ⟨step, List.mem_cons_self, rfl⟩
            · obtain ⟨joined, inside, leads⟩ := inductionHypothesis member
              exact ⟨joined, List.mem_cons_of_mem _ inside, leads⟩

namespace Graph

open Subsets

variable {graph : Graph}

/-! ## Sets that a text leads to -/

/-- The list holds the states that a text leads to from the first one. -/
def ReachedBy (graph : Graph) (text : List Char) (set : List Nat) : Prop :=
  ∀ state, state ∈ set ↔ graph.Walks 0 text state

/-- The ascending list of the states that some text leads to, if it leads to any. -/
structure IsReached (graph : Graph) (set : List Nat) : Prop where
  filled : set ≠ []
  ascending : set.Pairwise fun left right => left < right
  read : ∃ text, graph.ReachedBy text set

theorem walks_append_iff {source last : Nat} {front back : List Char} :
    graph.Walks source (front ++ back) last ↔
      ∃ middle, graph.Walks source front middle ∧ graph.Walks middle back last := by
  induction front generalizing source with
  | nil =>
      constructor
      · intro walk
        exact ⟨source, Walks.stay source, walk⟩
      · rintro ⟨middle, silent, walk⟩
        exact walks_of_leadsTo (leadsTo_of_walks_nil silent) walk
  | cons c front inductionHypothesis =>
      rw [List.cons_append, walks_cons_iff]
      constructor
      · rintro ⟨place, label, dest, silent, linked, inside, walk⟩
        obtain ⟨middle, first, second⟩ := inductionHypothesis.mp walk
        exact ⟨middle, walks_cons_iff.mpr ⟨place, label, dest, silent, linked, inside, first⟩,
          second⟩
      · rintro ⟨middle, first, second⟩
        obtain ⟨place, label, dest, silent, linked, inside, walk⟩ := walks_cons_iff.mp first
        exact ⟨place, label, dest, silent, linked, inside,
          inductionHypothesis.mpr ⟨middle, walk, second⟩⟩

theorem reachedBy_start (bounded : graph.IsBounded) : graph.ReachedBy [] (graph.closure [0]) := by
  intro state
  rw [mem_closure_iff bounded]
  constructor
  · rintro ⟨source, member, silent⟩
    rw [List.mem_singleton] at member
    rw [member] at silent
    exact walks_of_leadsTo silent (Walks.stay state)
  · intro walk
    exact ⟨0, List.mem_singleton.mpr rfl, leadsTo_of_walks_nil walk⟩

/-- One more character leads to the closure of what it leads to from a set. -/
theorem ReachedBy.step (bounded : graph.IsBounded) {text : List Char} {set : List Nat}
    (reached : graph.ReachedBy text set) (c : Char) :
    graph.ReachedBy (text ++ [c]) (graph.closure (graph.readTargets set c.toNat)) := by
  intro state
  rw [mem_closure_iff bounded, walks_append_iff]
  constructor
  · rintro ⟨dest, target, silent⟩
    obtain ⟨source, member, label, linked, inside⟩ := (mem_readTargets _ _ _ _).mp target
    exact ⟨source, (reached source).mp member,
      Walks.reads linked inside (walks_of_leadsTo silent (Walks.stay state))⟩
  · rintro ⟨middle, walk, last⟩
    obtain ⟨source, label, dest, silent, linked, inside, rest⟩ := walks_cons_iff.mp last
    have arrives : graph.Walks 0 (text ++ []) source :=
      walks_append_iff.mpr ⟨middle, walk, walks_of_leadsTo silent (Walks.stay source)⟩
    rw [List.append_nil] at arrives
    exact ⟨dest, (mem_readTargets _ _ _ _).mpr
      ⟨source, (reached source).mpr arrives, label, linked, inside⟩, leadsTo_of_walks_nil rest⟩

theorem ascending_closure (states : List Nat) :
    (graph.closure states).Pairwise fun left right => left < right := by
  refine List.Pairwise.imp (fun before => Nat.compare_eq_lt.mp before) ?_
  exact Std.TreeSet.ordered_toList

theorem closure_ne_nil (bounded : graph.IsBounded) {states : List Nat} (filled : states ≠ []) :
    graph.closure states ≠ [] := by
  obtain ⟨state, member⟩ := List.exists_mem_of_ne_nil _ filled
  exact List.ne_nil_of_mem ((mem_closure_iff bounded states state).mpr
    ⟨state, member, Relation.ReflTransGen.refl⟩)

theorem isReached_start (bounded : graph.IsBounded) : graph.IsReached (graph.closure [0]) where
  filled := closure_ne_nil bounded (List.cons_ne_nil 0 [])
  ascending := ascending_closure [0]
  read := ⟨[], reachedBy_start bounded⟩

/-- A stretch on which a solid link can be followed holds a character. -/
theorem exists_char_of_targets (solid : graph.HasSolidLabels) {set : List Nat}
    {stretch : Interval} (inhabited : stretch.low ≤ stretch.high)
    (somewhere : targets (set.flatMap graph.readingFrom) stretch ≠ []) :
    ∃ c : Char, stretch.contains c.toNat = true := by
  obtain ⟨dest, member⟩ := List.exists_mem_of_ne_nil _ somewhere
  simp only [targets, List.mem_map, List.mem_filter, List.mem_flatMap, Bool.and_eq_true,
    decide_eq_true_eq] at member
  obtain ⟨⟨label, target⟩, ⟨⟨source, -, linked⟩, begins, ends⟩, -⟩ := member
  have own : Interval.IsSolid stretch := by
    refine ⟨inhabited, ?_⟩
    intro point inside
    rw [Interval.contains_iff] at inside
    apply (solid source label target linked).valid
    rw [Interval.contains_iff]
    exact ⟨Nat.le_trans begins inside.1, Nat.le_trans inside.2 ends⟩
  exact own.exists_char

theorem IsReached.step (bounded : graph.IsBounded) (solid : graph.HasSolidLabels)
    {set : List Nat} {stretch : Interval} (reached : graph.IsReached set)
    (member : stretch ∈ elementary ((set.flatMap graph.readingFrom).map (·.1)))
    (somewhere : targets (set.flatMap graph.readingFrom) stretch ≠ []) :
    graph.IsReached (graph.closure (targets (set.flatMap graph.readingFrom) stretch)) where
  filled := closure_ne_nil bounded somewhere
  ascending := ascending_closure _
  read := by
    obtain ⟨text, read⟩ := reached.read
    obtain ⟨c, inside⟩ :=
      exists_char_of_targets solid (low_le_high_of_mem_elementary member) somewhere
    rw [targets_eq_readTargets graph set member inside]
    exact ⟨text ++ [c], read.step bounded c⟩

/-! ## Numbered sets -/

/-- Every set has one number, and some text leads to it. -/
structure Found (graph : Graph) (subsets : Subsets) : Prop where
  numbered : subsets.Numbered
  listed : ∀ (number : Nat) (set : List Nat),
    subsets.members[number]? = some set → subsets.numbers[set]? = some number
  reached : ∀ (number : Nat) (set : List Nat),
    subsets.members[number]? = some set → graph.IsReached set

theorem member_singleton {first set : List Nat} {number : Nat}
    (isSet : (singleton first).members[number]? = some set) : number = 0 ∧ set = first := by
  rw [Subsets.singleton, List.getElem?_toArray, List.getElem?_singleton] at isSet
  split at isSet
  · rename_i isFirst
    exact ⟨isFirst, (Option.some.inj isSet).symm⟩
  · cases isSet

theorem found_start (bounded : graph.IsBounded) :
    graph.Found (singleton (graph.closure [0])) where
  numbered := numbered_singleton _
  listed := by
    intro number set isSet
    obtain ⟨rfl, rfl⟩ := member_singleton isSet
    rw [Subsets.singleton, Std.HashMap.singleton_eq_insert, Std.HashMap.getElem?_insert_self]
  reached := by
    intro number set isSet
    obtain ⟨rfl, rfl⟩ := member_singleton isSet
    exact isReached_start bounded

/-- A reached set can be numbered; only its own number can be a new one. -/
theorem Found.intern {subsets grown : Subsets} {set : List Nat} {number : Nat}
    (found : graph.Found subsets) (reached : graph.IsReached set)
    (interned : subsets.intern set = (number, grown)) :
    graph.Found grown ∧ subsets.members.size ≤ grown.members.size ∧
      ∀ other, subsets.members.size ≤ other → other < grown.members.size → other = number := by
  have numbered := (intern_spec found.numbered interned).1
  rw [Subsets.intern] at interned
  split at interned
  · cases interned
    refine ⟨found, Nat.le_refl _, ?_⟩
    intro other outside inside
    omega
  · rename_i fresh
    cases interned
    refine ⟨⟨numbered, ?_, ?_⟩, ?_, ?_⟩
    · intro other member isSet
      rw [Array.getElem?_push] at isSet
      split at isSet
      · rename_i last
        cases isSet
        rw [Std.HashMap.getElem?_insert_self, last]
      · have known := found.listed other member isSet
        have different : (set == member) = false := by
          rw [beq_eq_false_iff_ne]
          rintro rfl
          rw [fresh] at known
          cases known
        rw [Std.HashMap.getElem?_insert, different]
        exact known
    · intro other member isSet
      rw [Array.getElem?_push] at isSet
      split at isSet
      · cases isSet
        exact reached
      · exact found.reached other member isSet
    · rw [Array.size_push]
      exact Nat.le_succ _
    · intro other outside inside
      rw [Array.size_push] at inside
      omega

/-- The failure of an exploration that has found too many sets. -/
def Exceeds (graph : Graph) (limit : Nat) (failure : PatternError) : Prop :=
  failure = .tooComplex limit ∧ ∃ grown, graph.Found grown ∧ limit < grown.members.size

/-- A walk along the stretches ends with numbered sets, or with too many of them. Every new number
is where one of the steps leads. -/
theorem stepsAux_settles {limit : Nat} {reading : List (Interval × Nat)} {list : List Interval}
    (onward : ∀ stretch ∈ list, targets reading stretch ≠ [] →
      graph.IsReached (graph.closure (targets reading stretch)))
    {subsets : Subsets} (found : graph.Found subsets) :
    Settles
      (fun walked => graph.Found walked.2 ∧ subsets.members.size ≤ walked.2.members.size ∧
        ∀ number, subsets.members.size ≤ number → number < walked.2.members.size →
          ∃ step ∈ walked.1, step.dest = number)
      (graph.Exceeds limit) (graph.stepsAux limit reading list subsets) := by
  induction list generalizing subsets with
  | nil =>
      rw [stepsAux]
      refine ⟨found, Nat.le_refl _, ?_⟩
      intro number outside inside
      exact absurd outside (Nat.not_le_of_lt inside)
  | cons stretch rest inductionHypothesis =>
      have later : ∀ other ∈ rest, targets reading other ≠ [] →
          graph.IsReached (graph.closure (targets reading other)) :=
        fun other member => onward other (List.mem_cons_of_mem stretch member)
      rw [stepsAux]
      split
      · exact inductionHypothesis later found
      · rename_i somewhere
        have reached := onward stretch List.mem_cons_self somewhere
        cases interned : subsets.intern (graph.closure (targets reading stretch)) with
        | mk dest grown =>
            obtain ⟨grownFound, grows, fresh⟩ := found.intern reached interned
            dsimp only
            split
            · rename_i tooMany
              exact ⟨rfl, grown, grownFound, tooMany⟩
            · refine (inductionHypothesis later grownFound).bind ?_
              rintro ⟨others, last⟩ - ⟨lastFound, lastGrows, lastFresh⟩
              refine ⟨lastFound, Nat.le_trans grows lastGrows, ?_⟩
              intro number outside inside
              by_cases old : number < grown.members.size
              · exact ⟨_, List.mem_cons_self, (fresh number outside old).symm⟩
              · obtain ⟨step, member, leads⟩ :=
                  lastFresh number (Nat.le_of_not_lt old) inside
                exact ⟨step, List.mem_cons_of_mem _ member, leads⟩

theorem expand_settles (bounded : graph.IsBounded) (solid : graph.HasSolidLabels)
    {limit accepting : Nat} {set : List Nat} (reached : graph.IsReached set) {subsets : Subsets}
    (found : graph.Found subsets) (small : subsets.members.size ≤ limit) :
    Settles
      (fun expanded => graph.Found expanded.2 ∧
        subsets.members.size ≤ expanded.2.members.size ∧ Joined expanded.1.transitions ∧
          ∀ number, subsets.members.size ≤ number → number < expanded.2.members.size →
            ∃ step ∈ expanded.1.transitions, step.dest = number)
      (graph.Exceeds limit) (graph.expand limit accepting set subsets) := by
  rw [expand]
  refine (stepsAux_settles (fun stretch => reached.step bounded solid) found).bind ?_
  rintro ⟨steps, grown⟩ walked ⟨grownFound, grows, fresh⟩
  have isSteps := (stepsAux_spec found.numbered small walked).2.2.2
  refine ⟨grownFound, grows, joined_joinTransitions (ascending_of_stepsFor isSteps), ?_⟩
  intro number outside inside
  obtain ⟨step, member, rfl⟩ := fresh number outside inside
  exact exists_dest_joinTransitions member

/-! ## Runs of the exploration -/

/-- What holds between two expansions. -/
structure Explores (graph : Graph) (limit accepting : Nat) (subsets : Subsets)
    (states : Array State) : Prop where
  found : graph.Found subsets
  small : subsets.members.size ≤ limit
  start : subsets.members[Automaton.initial]? = some (graph.closure [0])
  covered : states.size ≤ subsets.members.size
  explored : graph.Explored accepting subsets states
  joined : ∀ state ∈ states, Joined state.transitions
  connected : ∀ number, number < subsets.members.size →
    (Automaton.mk states).Reaches Automaton.initial number

theorem Explores.start_of {limit accepting : Nat} (bounded : graph.IsBounded)
    (positive : 0 < limit) :
    graph.Explores limit accepting (singleton (graph.closure [0])) #[] where
  found := found_start bounded
  small := positive
  start := rfl
  covered := Nat.zero_le _
  explored := ⟨by simp⟩
  joined := by simp
  connected := by
    intro number inside
    have first : number = Automaton.initial := Nat.lt_one_iff.mp inside
    rw [first]
    exact Relation.ReflTransGen.refl

/-- A state that is added takes no transition away. -/
theorem reaches_push {states : Array State} {state : State} {source dest : Nat}
    (reaches : (Automaton.mk states).Reaches source dest) :
    (Automaton.mk (states.push state)).Reaches source dest := by
  refine Relation.ReflTransGen.mono ?_ source dest reaches
  rintro number next ⟨own, isOwn, step, member, leads⟩
  have inRange : number < states.size := (Array.getElem?_eq_some_iff.mp isOwn).1
  refine ⟨own, ?_, step, member, leads⟩
  rw [Array.getElem?_push, if_neg (Nat.ne_of_lt inRange)]
  exact isOwn

theorem Explores.expand (bounded : graph.IsBounded) (solid : graph.HasSolidLabels)
    {limit accepting : Nat} {subsets : Subsets} {states : Array State}
    (explores : graph.Explores limit accepting subsets states) {set : List Nat}
    (next : subsets.members[states.size]? = some set) :
    Settles (fun expanded => graph.Explores limit accepting expanded.2 (states.push expanded.1))
      (graph.Exceeds limit) (graph.expand limit accepting set subsets) := by
  have inRange : states.size < subsets.members.size := (Array.getElem?_eq_some_iff.mp next).1
  refine (expand_settles bounded solid (explores.found.reached _ _ next) explores.found
    explores.small).imp ?_
  rintro ⟨state, grown⟩ expanded ⟨found, grows, joined, fresh⟩
  obtain ⟨-, keeps, small, stands⟩ := expand_spec explores.found.numbered explores.small expanded
  exact {
    found := found
    small := small
    start := keeps _ _ explores.start
    covered := by
      rw [Array.size_push]
      exact Nat.le_trans inRange grows
    explored := explores.explored.push keeps (keeps _ _ next) stands
    joined := by
      intro other member
      rcases Array.mem_push.mp member with old | rfl
      · exact explores.joined other old
      · exact joined
    connected := by
      intro number inside
      by_cases old : number < subsets.members.size
      · exact reaches_push (explores.connected number old)
      · have leads := fresh number (Nat.le_of_not_lt old) inside
        exact (reaches_push (explores.connected _ inRange)).tail
          ⟨state, Array.getElem?_push_size, leads⟩ }

theorem exploreAux_settles (bounded : graph.IsBounded) (solid : graph.HasSolidLabels)
    {limit accepting : Nat} {fuel : Nat} {states : Array State} {subsets : Subsets}
    (enough : limit ≤ states.size + fuel)
    (explores : graph.Explores limit accepting subsets states) :
    Settles
      (fun result => ∃ last, graph.Explores limit accepting last result ∧
        last.members.size ≤ result.size)
      (graph.Exceeds limit) (graph.exploreAux limit accepting fuel states subsets) := by
  induction fuel generalizing states subsets with
  | zero =>
      rw [exploreAux]
      exact ⟨subsets, explores, Nat.le_trans explores.small enough⟩
  | succ fuel inductionHypothesis =>
      rw [exploreAux]
      split
      · rename_i finished
        exact ⟨subsets, explores, Array.getElem?_eq_none_iff.mp finished⟩
      · rename_i set next
        refine (explores.expand bounded solid next).bind ?_
        rintro ⟨state, grown⟩ - later
        refine inductionHypothesis ?_ later
        rw [Array.size_push]
        omega

/-- An exploration ends with a state for each set that it has found, or has found too many. -/
theorem explore_settles (bounded : graph.IsBounded) (solid : graph.HasSolidLabels) {limit : Nat}
    (positive : 0 < limit) (accepting : Nat) :
    Settles
      (fun automaton => ∃ subsets, graph.Explores limit accepting subsets automaton.states ∧
        subsets.members.size ≤ automaton.states.size)
      (graph.Exceeds limit) (graph.explore limit accepting) := by
  rw [explore]
  refine (exploreAux_settles bounded solid (by simp) (Explores.start_of bounded positive)).bind ?_
  intro states _ whole
  exact whole

end Graph

end BodyContract
