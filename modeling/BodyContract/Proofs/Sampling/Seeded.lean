import BodyContract.Sampling.Sampler

/-!
# Walks with a source of random words

Whatever words the source hands out, a walk stays within its limit, and where an
automaton leaves no choice the walk writes the only text that there is: a draw
from a range with one member does not depend on the word drawn.
-/

namespace BodyContract

/-! ## Draws without a choice -/

namespace RandomSource

theorem nextWord_lt (source : RandomSource) : source.nextWord.1 < twoTo 32 := by
  have bound : ∀ word : UInt32, word.toNat < twoTo 32 := fun word => word.toNat_lt
  match source with
  | .keystream stream => exact bound _
  | .cycle (word :: rest) words => exact bound word
  | .cycle [] [] => exact bound 0
  | .cycle [] (word :: rest) => exact bound word

/-- There is one number from zero to zero. -/
theorem drawBetween_zero (source : RandomSource) : (source.drawBetween 0 0).1 = 0 := by
  have below := nextWord_lt source
  have base : twoTo 32 = 4294967296 := rfl
  rw [drawBetween, if_neg (by decide), drawScaled, base]
  rw [base] at below
  have small : ¬ (4294967296 - 1) % 4294967296 < source.nextWord.1 * 1 % 4294967296 := by omega
  have quotient : source.nextWord.1 * 1 / 4294967296 = 0 := by omega
  have size : (0 - 0 + 1) % 4294967296 = 1 := rfl
  simp only [size, small, if_false, quotient]
  rfl

theorem drawRejecting_single (fuel : Nat) (source : RandomSource) :
    (drawRejecting 1 0 fuel source).1 = 0 := by
  have below := nextWord_lt source
  have quotient : source.nextWord.1 * 1 / twoTo 32 = 0 := by
    rw [Nat.mul_one]
    exact Nat.div_eq_of_lt below
  cases fuel with
  | zero => exact quotient
  | succ fuel =>
      rw [drawRejecting]
      simp only [Nat.not_lt_zero, if_false]
      exact quotient

/-- There is one character in an interval with one point. -/
theorem drawChar_single (c : Char) (source : RandomSource) :
    (source.drawChar ⟨c.toNat, c.toNat⟩).1 = c := by
  have size : charRank c.toNat - charRank c.toNat + 1 = 1 := by omega
  have threshold : (twoTo 32 - 1) % 1 = 0 := Nat.mod_one _
  have valid : c.toNat < 0xD800 ∨ 0xDFFF < c.toNat := by
    have isValid : c.toNat.isValidChar := c.valid
    rw [Nat.isValidChar] at isValid
    omega
  have rank : (if 0xD800 ≤ charRank c.toNat then charRank c.toNat + 0x800 else charRank c.toNat) =
      c.toNat := by
    rw [charRank]
    by_cases high : 0xE000 ≤ c.toNat
    · have above : 0xD800 ≤ c.toNat - 0x800 := by omega
      rw [if_pos high, if_pos above]
      omega
    · have below : ¬ 0xD800 ≤ c.toNat := by omega
      rw [if_neg high, if_neg below]
  rw [drawChar]
  simp only [size, threshold, drawRejecting_single]
  rw [Nat.add_zero, charOfRank, rank, Char.ofNat_toNat]

end RandomSource

/-! ## Walks -/

namespace Automaton

theorem stateM_bind_apply {σ α β : Type} (first : StateM σ α) (next : α → StateM σ β) (state : σ) :
    (first >>= next) state = next (first state).1 (first state).2 := rfl

/-- A walk stays within its limit. -/
theorem length_walk_le (automaton : Automaton) (limit current : Nat) (source : RandomSource) :
    (automaton.walk .fromSource limit current source).1.length ≤ limit := by
  induction limit generalizing current source with
  | zero => exact Nat.le_refl 0
  | succ limit inductionHypothesis =>
      rw [walk]
      cases automaton.states[current]? with
      | none => exact Nat.zero_le _
      | some state =>
          dsimp only
          generalize (if state.isAccepting = true then 1 else 0) = stop
          split
          · exact Nat.zero_le _
          · rw [stateM_bind_apply]
            generalize Draws.fromSource.upTo (state.transitions.length - 1 + stop) source = drawn
            split
            · exact Nat.zero_le _
            · cases state.transitions[drawn.1 - stop]? with
              | none => exact Nat.zero_le _
              | some step =>
                  dsimp only
                  rw [stateM_bind_apply, stateM_bind_apply]
                  exact Nat.succ_le_succ (inductionHypothesis _ _)

/-- Whether an automaton leaves no choice but a text from a state on. -/
def Forces (automaton : Automaton) : Nat → List Char → Prop
  | current, [] => automaton.states[current]? = some ⟨true, []⟩
  | current, c :: rest => ∃ dest,
      automaton.states[current]? = some ⟨false, [⟨⟨c.toNat, c.toNat⟩, dest⟩]⟩ ∧
        Forces automaton dest rest

/-- The states along a text, the first of which has a number. -/
def statesAlong (number : Nat) : List Char → List State
  | [] => [⟨true, []⟩]
  | c :: rest => ⟨false, [⟨⟨c.toNat, c.toNat⟩, number + 1⟩]⟩ :: statesAlong (number + 1) rest

/-- The automaton that goes along a text. -/
def ofText (text : List Char) : Automaton := ⟨(statesAlong 0 text).toArray⟩

variable {automaton : Automaton} {current : Nat} {text : List Char}

theorem state_of_statesAlong {front : List State}
    (along : automaton.states.toList = front ++ statesAlong front.length text) :
    automaton.states[front.length]? = (statesAlong front.length text).head? := by
  rw [← Array.getElem?_toList, along, List.getElem?_append_right (Nat.le_refl _), Nat.sub_self,
    List.head?_eq_getElem?]

theorem forces_of_statesAlong {front : List State}
    (along : automaton.states.toList = front ++ statesAlong front.length text) :
    automaton.Forces front.length text := by
  induction text generalizing front with
  | nil => exact state_of_statesAlong along
  | cons c rest inductionHypothesis =>
      refine ⟨front.length + 1, state_of_statesAlong along, ?_⟩
      have first : (front ++ [State.mk false [⟨⟨c.toNat, c.toNat⟩, front.length + 1⟩]]).length =
          front.length + 1 := by
        rw [List.length_append, List.length_singleton]
      rw [← first]
      apply inductionHypothesis
      rw [along, statesAlong, first, List.append_assoc, List.singleton_append]

/-- Along a text there is no choice. -/
theorem forces_ofText (text : List Char) : (ofText text).Forces initial text := by
  have along : (ofText text).states.toList =
      [] ++ statesAlong ([] : List State).length text := rfl
  exact forces_of_statesAlong along

/-- Where there is no choice, only one text is accepted. -/
theorem acceptsFrom_iff_of_forces (forces : automaton.Forces current text) (word : List Char) :
    automaton.acceptsFrom current word = true ↔ word = text := by
  induction text generalizing current word with
  | nil =>
      rw [Forces] at forces
      cases word with
      | nil => simp [acceptsFrom, forces]
      | cons other others => simp [acceptsFrom, forces, State.next?]
  | cons c rest inductionHypothesis =>
      obtain ⟨dest, isState, later⟩ := forces
      cases word with
      | nil => simp [acceptsFrom, isState]
      | cons other others =>
          by_cases same : other = c
          · subst same
            simp [acceptsFrom, isState, State.next?, Interval.contains, inductionHypothesis later]
          · have outside : Interval.contains ⟨c.toNat, c.toNat⟩ other.toNat = false := by
              rw [← Char.toNat_inj] at same
              simp only [Interval.contains, Bool.and_eq_false_iff, decide_eq_false_iff_not]
              omega
            simp [acceptsFrom, isState, State.next?, outside, same]

/-- Where there is no choice, the walk writes the text. -/
theorem walk_of_forces (forces : automaton.Forces current text) {limit : Nat}
    (short : text.length ≤ limit) (source : RandomSource) :
    (automaton.walk .fromSource limit current source).1 = text := by
  induction text generalizing current limit source with
  | nil =>
      rw [Forces] at forces
      cases limit with
      | zero => rfl
      | succ limit =>
          rw [walk, forces]
          rfl
  | cons c rest inductionHypothesis =>
      obtain ⟨dest, isState, later⟩ := forces
      cases limit with
      | zero => exact absurd short (Nat.not_succ_le_zero _)
      | succ limit =>
          have drawn : ∀ source, (Draws.fromSource.upTo 0 source).1 = 0 :=
            RandomSource.drawBetween_zero
          have written : ∀ source, (Draws.fromSource.member ⟨c.toNat, c.toNat⟩ source).1 = c :=
            RandomSource.drawChar_single c
          rw [walk, isState]
          simp only [List.isEmpty_cons, Bool.false_eq_true, if_false, List.length_singleton,
            Nat.sub_self, Nat.add_zero, Nat.not_lt_zero, Nat.sub_zero]
          rw [stateM_bind_apply, drawn]
          simp only [List.getElem?_cons_zero]
          rw [stateM_bind_apply, written, stateM_bind_apply]
          exact congrArg (c :: ·)
            (inductionHypothesis later (Nat.le_of_succ_le_succ short) _)

end Automaton

end BodyContract
