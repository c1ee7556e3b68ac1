import BodyContract.Proofs.Automaton.Pruning
import BodyContract.Proofs.Automaton.Size
import BodyContract.Proofs.Automaton.SubsetConstruction
import BodyContract.Proofs.Automaton.Thompson

/-!
# The automaton of a pattern

The passes that turn a pattern into an automaton keep its texts one by one:
the links of the pattern spell its language, the graph reads what the links
spell, the subset construction accepts what the graph reads, and pruning
leaves what is accepted as it is.
-/

namespace BodyContract.Automaton

/-- The automaton of a pattern accepts exactly the texts of the pattern. -/
theorem ofPattern_accepts_iff {pattern : Pattern} {automaton : Automaton}
    (ordered : pattern.hasOrderedCounts = true)
    (built : ofPattern pattern = .ok automaton) (text : String) :
    automaton.accepts text = true ↔ text.toList ∈ pattern.language := by
  rw [ofPattern_eq] at built
  split at built
  · cases built
  · obtain ⟨full, explored, whole⟩ := bind_eq_ok_iff.mp built
    cases whole
    have positive : 0 < subsetLimit := by decide
    have isOrdered : full.IsOrdered := fun number state isState =>
      Graph.ascending_of_explore positive explored isState
    have spells := Pattern.spellsLanguage pattern ordered 0 text.toList
    rw [Nat.zero_add] at spells
    calc
      full.prune.accepts text = true
        ↔ full.acceptsFrom initial text.toList = true := by
          rw [accepts, acceptsFrom_prune isOrdered]
      _ ↔ (Graph.ofPattern pattern).Walks 0 text.toList (pattern.size - 1) :=
          Graph.explore_accepts_iff (Graph.isBounded_ofPattern pattern) positive explored
            text.toList
      _ ↔ Spells (pattern.links 0) 0 text.toList (pattern.size - 1) :=
          Graph.walks_ofPattern_iff pattern 0 (pattern.size - 1) text.toList
      _ ↔ text.toList ∈ pattern.language := spells

/-! ## One or two letters -/

/-- One or two small letters. -/
def oneOrTwoLetters : Pattern :=
  .repeated (.oneOf ⟨[⟨97, 122⟩]⟩) 1 (some 2)

/-- The automaton that reads one or two small letters. -/
def oneOrTwoLettersAutomaton : Automaton :=
  ⟨#[⟨false, [⟨⟨97, 122⟩, 1⟩]⟩, ⟨true, [⟨⟨97, 122⟩, 2⟩]⟩, ⟨true, []⟩]⟩

theorem explore_oneOrTwoLetters :
    (Graph.ofPattern oneOrTwoLetters).explore subsetLimit 5 = .ok oneOrTwoLettersAutomaton := by
  have atEntry : (Graph.ofPattern oneOrTwoLetters).closure [0] = [0, 1] := by decide +kernel
  have afterFirst : (Graph.ofPattern oneOrTwoLetters).closure [2] = [2, 3, 5] := by
    decide +kernel
  have afterSecond : (Graph.ofPattern oneOrTwoLetters).closure [4] = [4, 5] := by decide +kernel
  have first : [0, 1].flatMap (Graph.ofPattern oneOrTwoLetters).readingFrom =
      [(⟨97, 122⟩, 2)] := by decide +kernel
  have second : [2, 3, 5].flatMap (Graph.ofPattern oneOrTwoLetters).readingFrom =
      [(⟨97, 122⟩, 4)] := by decide +kernel
  have third : [4, 5].flatMap (Graph.ofPattern oneOrTwoLetters).readingFrom = [] := by
    decide +kernel
  rw [Graph.explore, atEntry]
  simp [subsetLimit, Graph.exploreAux, Graph.expand, Graph.stepsAux, Graph.targets,
    Subsets.singleton, Subsets.intern, first, second, third, afterFirst, afterSecond,
    elementary_nil, elementary_singleton, joinTransitions, bind, Except.bind,
    oneOrTwoLettersAutomaton]

theorem ofPattern_oneOrTwoLetters : ofPattern oneOrTwoLetters = .ok oneOrTwoLettersAutomaton := by
  have small : ¬ stateLimit < oneOrTwoLetters.size := by decide
  have pruned : oneOrTwoLettersAutomaton.prune = oneOrTwoLettersAutomaton := by decide +kernel
  rw [ofPattern_eq, if_neg small]
  refine bind_eq_ok_iff.mpr ⟨oneOrTwoLettersAutomaton, explore_oneOrTwoLetters, ?_⟩
  rw [pruned]

theorem oneOrTwoLetters_describes_ab :
    oneOrTwoLetters.hasOrderedCounts = true ∧
      ofPattern oneOrTwoLetters = .ok oneOrTwoLettersAutomaton ∧
        "ab".toList ∈ oneOrTwoLetters.language :=
  ⟨rfl, ofPattern_oneOrTwoLetters,
    (ofPattern_accepts_iff rfl ofPattern_oneOrTwoLetters "ab").mp (by decide +kernel)⟩

end BodyContract.Automaton
