import BodyContract.Proofs.Automaton.SubsetConstruction
import BodyContract.Proofs.Pattern.Solidity

/-!
# Labels hold characters

The links of a pattern read characters of its sets.  Cutting the labels of a
graph into stretches and joining neighbours again makes no label that holds
anything but characters, so every transition of the automaton can be taken.
-/

namespace BodyContract

theorem Interval.IsSolid.exists_char {interval : Interval} (solid : interval.IsSolid) :
    ∃ c : Char, interval.contains c.toNat = true := by
  have inside : interval.contains interval.low = true :=
    (Interval.contains_iff interval interval.low).mpr ⟨Nat.le_refl _, solid.inhabited⟩
  have valid := solid.valid interval.low inside
  refine ⟨Char.ofNat interval.low, ?_⟩
  rw [Char.toNat_ofNat, if_pos valid]
  exact inside

namespace Pattern

mutual

/-- A link reads a character of a set that stands in the pattern. -/
theorem mem_sets_of_mem_links : ∀ (pattern : Pattern) {base source dest : Nat} {set : CharSet},
    Link.reads source set dest ∈ pattern.links base → set ∈ pattern.sets
  | .empty, base, source, dest, set, linked => by
      simp [links] at linked
  | .oneOf own, base, source, dest, set, linked => by
      simp only [links, List.mem_singleton, Link.reads.injEq] at linked
      rw [sets, List.mem_singleton]
      exact linked.2.1
  | .sequence items, base, source, dest, set, linked => by
      rw [links] at linked
      split at linked
      · simp at linked
      · exact mem_sets_of_mem_linksInSequence items linked
  | .choice branches, base, source, dest, set, linked => by
      rw [links] at linked
      exact mem_sets_of_mem_linksOfBranches branches linked
  | .repeated body least most, base, source, dest, set, linked => by
      rw [sets]
      simp only [links, List.mem_append, List.mem_flatMap, List.mem_cons, List.mem_map,
        reduceCtorEq, false_or, and_false, exists_false, or_false] at linked
      rcases linked with ⟨index, -, linked⟩ | linked
      · exact mem_sets_of_mem_links body linked
      · cases most <;> simp at linked

theorem mem_sets_of_mem_linksInSequence : ∀ (items : List Pattern) {base source dest : Nat}
    {set : CharSet}, Link.reads source set dest ∈ linksInSequence items base →
      set ∈ setsOfAll items
  | [], base, source, dest, set, linked => by
      simp [linksInSequence] at linked
  | item :: rest, base, source, dest, set, linked => by
      have step : ∀ state next, Link.reads source set dest ∉
          (if rest.isEmpty then [] else [Link.silent state next]) := by
        intro state next
        split <;> simp
      rw [setsOfAll, List.mem_append]
      simp only [linksInSequence, List.mem_append, step, or_false] at linked
      rcases linked with linked | linked
      · exact Or.inl (mem_sets_of_mem_links item linked)
      · exact Or.inr (mem_sets_of_mem_linksInSequence rest linked)

theorem mem_sets_of_mem_linksOfBranches : ∀ (branches : List Pattern)
    {entry exit base source dest : Nat} {set : CharSet},
    Link.reads source set dest ∈ linksOfBranches branches entry exit base →
      set ∈ setsOfAll branches
  | [], entry, exit, base, source, dest, set, linked => by
      simp [linksOfBranches] at linked
  | branch :: rest, entry, exit, base, source, dest, set, linked => by
      rw [setsOfAll, List.mem_append]
      simp only [linksOfBranches, List.mem_cons, List.mem_append, reduceCtorEq, false_or] at linked
      rcases linked with linked | linked
      · exact Or.inl (mem_sets_of_mem_links branch linked)
      · exact Or.inr (mem_sets_of_mem_linksOfBranches rest linked)

end

end Pattern

/-! ## Joined transitions -/

theorem mem_joinTransitions_isSolid {steps : List Transition}
    (solid : ∀ step ∈ steps, step.label.IsSolid) :
    ∀ joined ∈ joinTransitions steps, joined.label.IsSolid := by
  induction steps with
  | nil => exact solid
  | cons step rest inductionHypothesis =>
      have first := solid step List.mem_cons_self
      have later := inductionHypothesis fun other member =>
        solid other (List.mem_cons_of_mem step member)
      rw [joinTransitions]
      split
      · intro joined member
        rw [List.mem_singleton.mp member]
        exact first
      · rename_i next others joins
        rw [joins] at later
        have nextSolid := later next List.mem_cons_self
        split
        · rename_i touching
          simp only [Bool.and_eq_true, decide_eq_true_eq] at touching
          have nextInhabited := nextSolid.inhabited
          intro joined member
          rcases List.mem_cons.mp member with rfl | member
          · exact first.append nextSolid (by omega) (by omega) (Nat.le_max_right _ _)
          · exact later joined (List.mem_cons_of_mem next member)
        · intro joined member
          rcases List.mem_cons.mp member with rfl | member
          · exact first
          · exact later joined member

namespace Graph

def HasSolidLabels (graph : Graph) : Prop :=
  ∀ source label dest, (label, dest) ∈ graph.readingFrom source → label.IsSolid

theorem hasSolidLabels_ofPattern {pattern : Pattern} (solid : pattern.IsSolid) :
    (ofPattern pattern).HasSolidLabels := by
  intro source label dest linked
  obtain ⟨set, link, inside⟩ := (mem_readingFrom_ofPattern pattern source dest label).mp linked
  exact solid set (Pattern.mem_sets_of_mem_links pattern link) label inside

/-- A step is made only for a stretch that leads somewhere. -/
theorem targets_ne_nil_of_stepsAux {graph : Graph} {limit : Nat}
    {reading : List (Interval × Nat)} :
    ∀ {list : List Interval} {subsets grown : Subsets} {steps : List Transition},
      graph.stepsAux limit reading list subsets = .ok (steps, grown) →
        ∀ step ∈ steps, step.label ∈ list ∧ targets reading step.label ≠ []
  | [], subsets, grown, steps, built => by
      rw [stepsAux] at built
      cases built
      simp
  | stretch :: rest, subsets, grown, steps, built => by
      rw [stepsAux] at built
      split at built
      · intro step member
        obtain ⟨inRest, somewhere⟩ := targets_ne_nil_of_stepsAux built step member
        exact ⟨List.mem_cons_of_mem stretch inRest, somewhere⟩
      · rename_i somewhere
        dsimp only at built
        split at built
        · cases built
        · obtain ⟨⟨others, last⟩, later, whole⟩ := bind_eq_ok_iff.mp built
          cases whole
          intro step member
          rcases List.mem_cons.mp member with rfl | member
          · exact ⟨List.mem_cons_self, somewhere⟩
          · obtain ⟨inRest, somewhere⟩ := targets_ne_nil_of_stepsAux later step member
            exact ⟨List.mem_cons_of_mem stretch inRest, somewhere⟩

/-- The transitions out of a set of states have solid labels. -/
theorem mem_expand_isSolid {graph : Graph} (solid : graph.HasSolidLabels)
    {limit accepting : Nat} {set : List Nat} {subsets grown : Subsets} {state : State}
    (built : graph.expand limit accepting set subsets = .ok (state, grown)) :
    ∀ step ∈ state.transitions, step.label.IsSolid := by
  rw [expand] at built
  obtain ⟨⟨steps, last⟩, walked, whole⟩ := bind_eq_ok_iff.mp built
  cases whole
  refine mem_joinTransitions_isSolid ?_
  intro step member
  obtain ⟨isStretch, somewhere⟩ := targets_ne_nil_of_stepsAux walked step member
  obtain ⟨dest, isTarget⟩ := List.exists_mem_of_ne_nil _ somewhere
  simp only [targets, List.mem_map, List.mem_filter, Bool.and_eq_true, decide_eq_true_eq]
    at isTarget
  obtain ⟨⟨label, target⟩, ⟨linked, above, below⟩, -⟩ := isTarget
  obtain ⟨source, -, reads⟩ := List.mem_flatMap.mp linked
  exact (solid source label target reads).narrow (low_le_high_of_mem_elementary isStretch)
    above below

theorem mem_exploreAux_isSolid {graph : Graph} (solid : graph.HasSolidLabels)
    {limit accepting : Nat} :
    ∀ {fuel : Nat} {states result : Array State} {subsets : Subsets},
      (∀ state ∈ states, ∀ step ∈ state.transitions, step.label.IsSolid) →
        graph.exploreAux limit accepting fuel states subsets = .ok result →
          ∀ state ∈ result, ∀ step ∈ state.transitions, step.label.IsSolid
  | 0, states, result, subsets, before, built => by
      rw [exploreAux] at built
      cases built
      exact before
  | fuel + 1, states, result, subsets, before, built => by
      rw [exploreAux] at built
      split at built
      · cases built
        exact before
      · obtain ⟨⟨state, grown⟩, expanded, later⟩ := bind_eq_ok_iff.mp built
        refine mem_exploreAux_isSolid solid ?_ later
        intro other member
        rcases Array.mem_push.mp member with member | rfl
        · exact before other member
        · exact mem_expand_isSolid solid expanded

end Graph

namespace Automaton

def HasSolidLabels (automaton : Automaton) : Prop :=
  ∀ state ∈ automaton.states, ∀ step ∈ state.transitions, step.label.IsSolid

theorem hasSolidLabels_of_explore {graph : Graph} (solid : graph.HasSolidLabels)
    {limit accepting : Nat} {automaton : Automaton}
    (built : graph.explore limit accepting = .ok automaton) : automaton.HasSolidLabels := by
  rw [Graph.explore] at built
  obtain ⟨states, explored, whole⟩ := bind_eq_ok_iff.mp built
  cases whole
  exact Graph.mem_exploreAux_isSolid solid (by simp) explored

end Automaton

end BodyContract
