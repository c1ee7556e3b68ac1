import Mathlib
import BodyContract.Proofs.Automaton.Construction
import BodyContract.Proofs.Automaton.Liveness
import BodyContract.Sampling.Sampler

/-!
# What a random walk can write

`Draws.any` leaves every draw open: a number may be any number up to the
bound, and a character any character of the interval.  The outcomes of a walk
are then a set, and over the automaton of an expression this set is known
exactly.  A walk that stops early has reached an accepting state; a walk of
full length can be carried on to an accepted text; and every such text is
written by some draws.
-/

namespace BodyContract

/-- Draws of which nothing is known but their range. -/
def Draws.any : Draws SetM where
  upTo bound := {number : Nat | number ≤ bound}
  member interval := {c : Char | interval.contains c.toNat = true}

namespace Automaton

/-- The texts that a walk from a state can write, whatever is drawn. -/
def outcomesFrom (automaton : Automaton) (limit current : Nat) : Set (List Char) :=
  (automaton.walk Draws.any limit current).run

theorem mem_pure_iff {α : Type} (left right : α) :
    left ∈ (pure right : SetM α).run ↔ left = right :=
  Set.mem_singleton_iff

theorem mem_bind_iff {α β : Type} (source : SetM α) (next : α → SetM β) (result : β) :
    result ∈ (source >>= next).run ↔ ∃ value ∈ source.run, result ∈ (next value).run := by
  refine Set.mem_iUnion.trans (exists_congr fun value => ?_)
  exact Set.mem_iUnion.trans exists_prop

variable {automaton : Automaton} {limit current : Nat} {state : State}

/-- A walk stops where no transition leads on and can stop where a text may end.
It can follow every transition with every character of its label. -/
theorem mem_outcomesFrom_succ_iff (isState : automaton.states[current]? = some state)
    (text : List Char) :
    text ∈ automaton.outcomesFrom (limit + 1) current ↔
      (text = [] ∧ (state.isAccepting = true ∨ state.transitions = [])) ∨
        ∃ c rest dest, text = c :: rest ∧ Leads state.transitions c.toNat dest ∧
          rest ∈ automaton.outcomesFrom limit dest := by
  rw [outcomesFrom, walk, isState]
  dsimp only
  by_cases stuck : state.transitions = []
  · rw [if_pos (List.isEmpty_iff.mpr stuck), mem_pure_iff]
    simp [stuck, Leads]
  · have positive : 0 < state.transitions.length := List.length_pos_of_ne_nil stuck
    rw [if_neg (mt List.isEmpty_iff.mp stuck), mem_bind_iff]
    generalize same : (if state.isAccepting = true then 1 else 0) = stop
    constructor
    · rintro ⟨option, inRange, written⟩
      have below : option ≤ state.transitions.length - 1 + stop := inRange
      by_cases stops : option < stop
      · rw [if_pos stops, mem_pure_iff] at written
        refine Or.inl ⟨written, Or.inl ?_⟩
        by_contra refuses
        rw [if_neg refuses] at same
        omega
      · have isIndex : option - stop < state.transitions.length := by omega
        rw [if_neg stops, List.getElem?_eq_getElem isIndex] at written
        obtain ⟨c, inside, written⟩ := (mem_bind_iff _ _ _).mp written
        obtain ⟨rest, later, written⟩ := (mem_bind_iff _ _ _).mp written
        exact Or.inr ⟨c, rest, _, (mem_pure_iff _ _).mp written,
          ⟨_, List.getElem_mem isIndex, inside, rfl⟩, later⟩
    · rintro (⟨rfl, accepts | nowhere⟩ | ⟨c, rest, dest, rfl, ⟨step, member, inside, rfl⟩, later⟩)
      · rw [if_pos accepts] at same
        refine ⟨0, Nat.zero_le _, ?_⟩
        rw [if_pos (by omega), mem_pure_iff]
      · exact absurd nowhere stuck
      · obtain ⟨index, isStep⟩ := List.mem_iff_getElem?.mp member
        have isIndex : index < state.transitions.length := (List.getElem?_eq_some_iff.mp isStep).1
        have inRange : index + stop ≤ state.transitions.length - 1 + stop := by omega
        refine ⟨index + stop, inRange, ?_⟩
        rw [if_neg (by omega), Nat.add_sub_cancel, isStep]
        exact (mem_bind_iff _ _ _).mpr ⟨c, inside,
          (mem_bind_iff _ _ _).mpr ⟨rest, later, (mem_pure_iff _ _).mpr rfl⟩⟩

theorem acceptsFrom_nil_iff (isState : automaton.states[current]? = some state) :
    automaton.acceptsFrom current [] = true ↔ state.isAccepting = true := by
  rw [acceptsFrom, isState]

theorem acceptsFrom_cons_iff (ordered : automaton.IsOrdered)
    (isState : automaton.states[current]? = some state) (c : Char) (rest : List Char) :
    automaton.acceptsFrom current (c :: rest) = true ↔
      ∃ dest, Leads state.transitions c.toNat dest ∧ automaton.acceptsFrom dest rest = true := by
  have ways := State.next?_eq_some_iff (ordered current state isState) c
  rw [acceptsFrom, isState]
  dsimp only
  cases way : state.next? c with
  | none =>
      constructor
      · intro impossible
        exact absurd impossible Bool.false_ne_true
      · rintro ⟨dest, leads, -⟩
        rw [← ways, way] at leads
        cases leads
  | some next =>
      constructor
      · intro accepts
        exact ⟨next, (ways next).mp way, accepts⟩
      · rintro ⟨dest, leads, accepts⟩
        rw [← ways, way] at leads
        cases leads
        exact accepts

/-- The accepted texts that are shorter than a limit, and the beginnings of
accepted texts that have its length. -/
def cutTexts (automaton : Automaton) (limit current : Nat) : Set (List Char) :=
  {text | (text.length < limit ∧ automaton.acceptsFrom current text = true) ∨
    (text.length = limit ∧ ∃ rest, automaton.acceptsFrom current (text ++ rest) = true)}

theorem nil_mem_cutTexts_succ_iff (isState : automaton.states[current]? = some state) :
    [] ∈ automaton.cutTexts (limit + 1) current ↔ state.isAccepting = true := by
  rw [← acceptsFrom_nil_iff isState]
  simp [cutTexts]

theorem cons_mem_cutTexts_succ_iff (ordered : automaton.IsOrdered)
    (isState : automaton.states[current]? = some state) (c : Char) (rest : List Char) :
    c :: rest ∈ automaton.cutTexts (limit + 1) current ↔
      ∃ dest, Leads state.transitions c.toNat dest ∧ rest ∈ automaton.cutTexts limit dest := by
  have steps := acceptsFrom_cons_iff ordered isState c
  simp only [cutTexts, Set.mem_ofPred_eq, List.length_cons, List.cons_append, steps,
    Nat.add_lt_add_iff_right, Nat.add_right_cancel_iff]
  constructor
  · rintro (⟨short, dest, leads, accepts⟩ | ⟨full, more, dest, leads, accepts⟩)
    · exact ⟨dest, leads, Or.inl ⟨short, accepts⟩⟩
    · exact ⟨dest, leads, Or.inr ⟨full, more, accepts⟩⟩
  · rintro ⟨dest, leads, ⟨short, accepts⟩ | ⟨full, more, accepts⟩⟩
    · exact Or.inl ⟨short, dest, leads, accepts⟩
    · exact Or.inr ⟨full, more, dest, leads, accepts⟩

/-- A live state without transitions accepts the empty text. -/
theorem IsLive.isAccepting_of_stuck (live : automaton.IsLive)
    (isState : automaton.states[current]? = some state) (stuck : state.transitions = []) :
    state.isAccepting = true := by
  obtain ⟨accepted, accepts⟩ := live.alive current state isState
  cases accepted with
  | nil => exact (acceptsFrom_nil_iff isState).mp accepts
  | cons c rest =>
      obtain ⟨dest, ⟨step, member, -⟩, -⟩ :=
        (acceptsFrom_cons_iff live.ordered isState c rest).mp accepts
      rw [stuck] at member
      exact absurd member List.not_mem_nil

/-- From a state of a live automaton a walk writes exactly the accepted texts,
cut at the limit. -/
theorem outcomesFrom_eq_cutTexts (live : automaton.IsLive)
    (isState : automaton.states[current]? = some state) :
    automaton.outcomesFrom limit current = automaton.cutTexts limit current := by
  induction limit generalizing current state with
  | zero =>
      obtain ⟨accepted, accepts⟩ := live.alive current state isState
      ext text
      refine (mem_pure_iff text []).trans ?_
      simp only [cutTexts, Set.mem_ofPred_eq, Nat.not_lt_zero, false_and, false_or,
        List.length_eq_zero_iff]
      constructor
      · intro empty
        exact ⟨empty, accepted, by rw [empty]; exact accepts⟩
      · intro found
        exact found.1
  | succ limit inductionHypothesis =>
      have onward : ∀ point dest, Leads state.transitions point dest →
          automaton.outcomesFrom limit dest = automaton.cutTexts limit dest := by
        rintro point dest ⟨step, member, -, rfl⟩
        obtain ⟨next, isNext⟩ := live.onward current state isState step member
        exact inductionHypothesis isNext
      ext text
      rw [mem_outcomesFrom_succ_iff isState]
      cases text with
      | nil =>
          have stops := live.isAccepting_of_stuck isState
          rw [nil_mem_cutTexts_succ_iff isState]
          simpa using stops
      | cons c rest =>
          rw [cons_mem_cutTexts_succ_iff live.ordered isState]
          constructor
          · rintro (⟨empty, -⟩ | ⟨_, _, dest, same, leads, written⟩)
            · cases empty
            · cases same
              rw [onward c.toNat dest leads] at written
              exact ⟨dest, leads, written⟩
          · rintro ⟨dest, leads, written⟩
            rw [← onward c.toNat dest leads] at written
            exact Or.inr ⟨c, rest, dest, rfl, leads, written⟩

theorem outcomesFrom_ofNothing (limit : Nat) :
    ofNothing.outcomesFrom limit initial = {[]} := by
  cases limit <;> rfl

end Automaton

namespace Sampler

/-- The texts that a sampler can make, whatever its source draws. -/
def outcomes (sampler : Sampler) : Set String :=
  {text | text.toList ∈ sampler.automaton.outcomesFrom sampler.limit Automaton.initial}

/-- The outcomes of a sampler are the texts of its automaton, cut at the limit:
all accepted texts that are shorter, and all beginnings of accepted texts that
have just this length.  If nothing is accepted, the only outcome is the empty
text. -/
theorem outcomes_ofExpression {expression : String} {source : RandomSource} {sampler : Sampler}
    (made : ofExpression expression source = .ok sampler) (limit : Nat) :
    ((∃ text, sampler.automaton.accepts text = true) →
      (sampler.withLimit limit).outcomes =
        {text | text.length < limit ∧ sampler.automaton.accepts text = true} ∪
          {text | text.length = limit ∧
            ∃ rest, sampler.automaton.accepts (text ++ rest) = true}) ∧
    ((∀ text, sampler.automaton.accepts text = false) →
      (sampler.withLimit limit).outcomes = {""}) := by
  obtain ⟨pattern, read, made⟩ := bind_eq_ok_iff.mp made
  obtain ⟨automaton, built, made⟩ := bind_eq_ok_iff.mp made
  cases made
  rcases Automaton.isLive_of_ofPattern (Pattern.isSolid_of_parse read) built with
    rfl | ⟨live, state, isState⟩
  · refine ⟨?_, fun _ => ?_⟩
    · rintro ⟨text, accepts⟩
      rw [Automaton.accepts_ofNothing] at accepts
      cases accepts
    · ext text
      simp [outcomes, withLimit, Automaton.outcomesFrom_ofNothing]
  · refine ⟨fun _ => ?_, fun nothing => ?_⟩
    · ext text
      have cut : automaton.outcomesFrom limit Automaton.initial =
          automaton.cutTexts limit Automaton.initial :=
        Automaton.outcomesFrom_eq_cutTexts live isState
      have continues : (∃ rest, automaton.acceptsFrom Automaton.initial (text.toList ++ rest) = true) ↔
          ∃ rest : String, automaton.accepts (text ++ rest) = true := by
        constructor
        · rintro ⟨rest, accepts⟩
          refine ⟨String.ofList rest, ?_⟩
          rwa [Automaton.accepts, String.toList_append, String.toList_ofList]
        · rintro ⟨rest, accepts⟩
          rw [Automaton.accepts, String.toList_append] at accepts
          exact ⟨rest.toList, accepts⟩
      simp only [outcomes, withLimit, cut, Automaton.cutTexts, Set.mem_ofPred_eq, Set.mem_union,
        continues, String.length_toList]
      rfl
    · obtain ⟨accepted, accepts⟩ := live.alive _ state isState
      have none := nothing (String.ofList accepted)
      rw [Automaton.accepts, String.toList_ofList, accepts] at none
      cases none

/-! ## Letters, and no character at all -/

open Pattern in
theorem parse_oneOrTwoLetters :
    parse (expandShorthands "[a-z]\x7b1,2\x7d") = .ok Automaton.oneOrTwoLetters := by
  have bracket : readClass 57 0 ⟨1, "a-z]\x7b1,2\x7d".toList⟩ =
      .ok (⟨[⟨97, 122⟩]⟩, ⟨5, "\x7b1,2\x7d".toList⟩) := by decide +kernel
  have atom : readAtom 58 '[' ⟨0, "[a-z]\x7b1,2\x7d".toList⟩ =
      .ok (.oneOf ⟨[⟨97, 122⟩]⟩, ⟨5, "\x7b1,2\x7d".toList⟩) :=
    bind_eq_ok_iff.mpr ⟨_, bracket, rfl⟩
  have counts : readRepetitions 58 (.oneOf ⟨[⟨97, 122⟩]⟩) ⟨5, "\x7b1,2\x7d".toList⟩ =
      .ok (Automaton.oneOrTwoLetters, ⟨10, []⟩) := rfl
  have items : readSequence 59 ⟨0, "[a-z]\x7b1,2\x7d".toList⟩ =
      .ok ([Automaton.oneOrTwoLetters], ⟨10, []⟩) :=
    bind_eq_ok_iff.mpr ⟨_, atom, bind_eq_ok_iff.mpr ⟨_, counts, rfl⟩⟩
  have branches : readChoice 60 ⟨0, "[a-z]\x7b1,2\x7d".toList⟩ =
      .ok ([Automaton.oneOrTwoLetters], ⟨10, []⟩) :=
    bind_eq_ok_iff.mpr ⟨_, items, rfl⟩
  have plain : expandShorthands "[a-z]\x7b1,2\x7d" = "[a-z]\x7b1,2\x7d" := by decide +kernel
  rw [plain]
  exact bind_eq_ok_iff.mpr ⟨_, branches, rfl⟩

open Pattern in
/-- A class without a member: a character that is neither a digit nor anything
else. -/
theorem parse_noCharacter :
    parse (expandShorthands "[^\\d\\D]") = .ok (.oneOf .empty) := by
  have bracket : readClass 57 0 ⟨1, "^[0-9]\\D]".toList⟩ = .ok (.empty, ⟨10, []⟩) := by
    cbv
  have atom : readAtom 58 '[' ⟨0, "[^[0-9]\\D]".toList⟩ = .ok (.oneOf .empty, ⟨10, []⟩) :=
    bind_eq_ok_iff.mpr ⟨_, bracket, rfl⟩
  have items : readSequence 59 ⟨0, "[^[0-9]\\D]".toList⟩ = .ok ([.oneOf .empty], ⟨10, []⟩) :=
    bind_eq_ok_iff.mpr ⟨_, atom, bind_eq_ok_iff.mpr ⟨_, rfl, rfl⟩⟩
  have branches : readChoice 60 ⟨0, "[^[0-9]\\D]".toList⟩ =
      .ok ([.oneOf .empty], ⟨10, []⟩) :=
    bind_eq_ok_iff.mpr ⟨_, items, rfl⟩
  have expanded : expandShorthands "[^\\d\\D]" = "[^[0-9]\\D]" := by decide +kernel
  rw [expanded]
  exact bind_eq_ok_iff.mpr ⟨_, branches, rfl⟩

theorem ofPattern_noCharacter :
    Automaton.ofPattern (.oneOf .empty) = .ok Automaton.ofNothing := by
  have entry : (Graph.ofPattern (.oneOf .empty)).closure [0] = [0] := by decide +kernel
  have nowhere : [0].flatMap (Graph.ofPattern (.oneOf .empty)).readingFrom = [] := by
    decide +kernel
  have explored : (Graph.ofPattern (.oneOf .empty)).explore subsetLimit 1 =
      .ok Automaton.ofNothing := by
    rw [Graph.explore, entry]
    simp [subsetLimit, Graph.exploreAux, Graph.expand, Graph.stepsAux, Subsets.singleton, nowhere,
      elementary_nil, joinTransitions, bind, Except.bind, Automaton.ofNothing]
  have small : ¬ stateLimit < (Pattern.oneOf .empty).size := by decide
  have pruned : Automaton.ofNothing.prune = Automaton.ofNothing := by decide +kernel
  rw [Automaton.ofPattern_eq, if_neg small]
  refine bind_eq_ok_iff.mpr ⟨Automaton.ofNothing, explored, ?_⟩
  rw [pruned]

theorem letters_and_noCharacter_outcomes :
    ofExpression "[a-z]\x7b1,2\x7d" (.ofSeed 7) =
        .ok ⟨Automaton.oneOrTwoLettersAutomaton, .ofSeed 7, defaultLimit⟩ ∧
      "k" ∈ (Sampler.mk Automaton.oneOrTwoLettersAutomaton (.ofSeed 7) 1).outcomes ∧
      ofExpression "[^\\d\\D]" (.ofSeed 7) =
        .ok ⟨Automaton.ofNothing, .ofSeed 7, defaultLimit⟩ ∧
      (Sampler.mk Automaton.ofNothing (.ofSeed 7) 1).outcomes = {""} := by
  have letters : ofExpression "[a-z]\x7b1,2\x7d" (.ofSeed 7) =
      .ok ⟨Automaton.oneOrTwoLettersAutomaton, .ofSeed 7, defaultLimit⟩ :=
    bind_eq_ok_iff.mpr ⟨_, parse_oneOrTwoLetters,
      bind_eq_ok_iff.mpr ⟨_, Automaton.ofPattern_oneOrTwoLetters, rfl⟩⟩
  have nothing : ofExpression "[^\\d\\D]" (.ofSeed 7) =
      .ok ⟨Automaton.ofNothing, .ofSeed 7, defaultLimit⟩ :=
    bind_eq_ok_iff.mpr ⟨_, parse_noCharacter, bind_eq_ok_iff.mpr ⟨_, ofPattern_noCharacter, rfl⟩⟩
  have cut := (outcomes_ofExpression letters 1).1 ⟨"ab", by decide +kernel⟩
  refine ⟨letters, ?_, nothing, (outcomes_ofExpression nothing 1).2 Automaton.accepts_ofNothing⟩
  have written : "k" ∈ ((Sampler.mk Automaton.oneOrTwoLettersAutomaton (.ofSeed 7)
      defaultLimit).withLimit 1).outcomes := by
    rw [cut]
    exact Or.inr ⟨by decide, "x", by decide +kernel⟩
  exact written

end Sampler

end BodyContract
