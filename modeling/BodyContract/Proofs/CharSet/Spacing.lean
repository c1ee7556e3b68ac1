import BodyContract.CharSet
import BodyContract.Proofs.Automaton.Stretches

/-!
# Spaced lists of intervals

A list of intervals is *spaced* if each of them holds a code point and another
code point lies between any two neighbours.  A spaced list is determined by the
points that it covers.  Normalizing makes any list spaced; walking along two
spaced lists finds their common points, and the gaps of one are what it leaves
out, both spaced again.
-/

namespace BodyContract

/-- One of the intervals holds the code point. -/
def Covers (ranges : List Interval) (point : Nat) : Prop :=
  ∃ range ∈ ranges, range.contains point = true

/-- Every interval holds a code point, and between two of them lies another one. -/
structure Spaced (ranges : List Interval) : Prop where
  inhabited : ∀ range ∈ ranges, range.low ≤ range.high
  apart : ranges.Pairwise fun left right => left.high + 1 < right.low

variable {ranges left right : List Interval} {range first second : Interval} {point : Nat}

/-! ## Covered points -/

theorem not_covers_nil (point : Nat) : ¬ Covers [] point := by
  rintro ⟨range, member, -⟩
  exact absurd member List.not_mem_nil

theorem covers_cons_iff :
    Covers (first :: ranges) point ↔
      (first.low ≤ point ∧ point ≤ first.high) ∨ Covers ranges point := by
  simp only [Covers, List.mem_cons, or_and_right, exists_or, exists_eq_left,
    Interval.contains_iff]

theorem covers_append_iff :
    Covers (left ++ right) point ↔ Covers left point ∨ Covers right point := by
  simp only [Covers, List.mem_append, or_and_right, exists_or]

theorem covers_perm (same : left.Perm right) : Covers left point ↔ Covers right point := by
  simp only [Covers, same.mem_iff]

theorem covers_low (member : range ∈ ranges) (inhabited : range.low ≤ range.high) :
    Covers ranges range.low :=
  ⟨range, member, (Interval.contains_iff range range.low).mpr ⟨Nat.le_refl _, inhabited⟩⟩

/-- What holds of the lower end of every interval holds below every covered point. -/
theorem Covers.exists_low (covered : Covers ranges point) :
    ∃ range ∈ ranges, range.low ≤ point := by
  obtain ⟨range, member, inside⟩ := covered
  exact ⟨range, member, ((Interval.contains_iff range point).mp inside).1⟩

/-! ## Spaced lists -/

namespace Spaced

theorem nil : Spaced [] where
  inhabited := fun _ member => absurd member List.not_mem_nil
  apart := List.Pairwise.nil

theorem cons (inhabited : first.low ≤ first.high)
    (before : ∀ range ∈ ranges, first.high + 1 < range.low) (spaced : Spaced ranges) :
    Spaced (first :: ranges) where
  inhabited := by
    intro range member
    rcases List.mem_cons.mp member with rfl | later
    · exact inhabited
    · exact spaced.inhabited range later
  apart := List.Pairwise.cons before spaced.apart

theorem singleton (inhabited : first.low ≤ first.high) : Spaced [first] :=
  cons inhabited (fun _ member => absurd member List.not_mem_nil) nil

theorem head (spaced : Spaced (first :: ranges)) : first.low ≤ first.high :=
  spaced.inhabited first List.mem_cons_self

theorem tail (spaced : Spaced (first :: ranges)) : Spaced ranges where
  inhabited := fun range member => spaced.inhabited range (List.mem_cons_of_mem first member)
  apart := spaced.apart.of_cons

/-- The points behind the first interval begin after a gap. -/
theorem lt_of_covers_tail (spaced : Spaced (first :: ranges)) (covered : Covers ranges point) :
    first.high + 1 < point := by
  obtain ⟨range, member, below⟩ := covered.exists_low
  exact Nat.lt_of_lt_of_le (List.rel_of_pairwise_cons spaced.apart member) below

/-- The points of the tail are those behind the first interval. -/
theorem covers_tail_iff (spaced : Spaced (first :: ranges)) :
    Covers ranges point ↔ Covers (first :: ranges) point ∧ first.high < point := by
  rw [covers_cons_iff]
  constructor
  · intro covered
    exact ⟨Or.inr covered, Nat.lt_of_succ_lt (spaced.lt_of_covers_tail covered)⟩
  · rintro ⟨inside | covered, behind⟩
    · exact absurd inside.2 (Nat.not_le_of_lt behind)
    · exact covered

/-- The least point is the lower end of the first interval. -/
theorem low_le_of_covers (spaced : Spaced (first :: ranges))
    (covered : Covers (first :: ranges) point) : first.low ≤ point := by
  rcases covers_cons_iff.mp covered with inside | later
  · exact inside.1
  · exact Nat.le_trans spaced.head
      (Nat.le_of_lt (Nat.lt_of_succ_lt (spaced.lt_of_covers_tail later)))

/-- The first gap begins behind the first interval. -/
theorem not_covers_gap (spaced : Spaced (first :: ranges)) :
    ¬ Covers (first :: ranges) (first.high + 1) := by
  intro covered
  rcases covers_cons_iff.mp covered with inside | later
  · exact Nat.not_succ_le_self _ inside.2
  · exact Nat.lt_irrefl _ (spaced.lt_of_covers_tail later)

/-- An interval of a spaced list ends in front of the gap of another one that begins no later and
covers no less. -/
theorem high_le_of_covers (spaced : Spaced (second :: right)) (begins : first.low = second.low)
    (covers : ∀ point, Covers (first :: left) point → Covers (second :: right) point) :
    first.high ≤ second.high := by
  by_contra longer
  have inhabited := spaced.head
  exact spaced.not_covers_gap (covers _ (covers_cons_iff.mpr (Or.inl ⟨by omega, by omega⟩)))

/-- Spaced lists that cover the same points are equal. -/
theorem eq_of_covers (leftSpaced : Spaced left) (rightSpaced : Spaced right)
    (same : ∀ point, Covers left point ↔ Covers right point) : left = right := by
  induction left generalizing right with
  | nil =>
      cases right with
      | nil => rfl
      | cons second others =>
          exact absurd ((same _).mpr (covers_low List.mem_cons_self rightSpaced.head))
            (not_covers_nil _)
  | cons first rest inductionHypothesis =>
      cases right with
      | nil =>
          exact absurd ((same _).mp (covers_low List.mem_cons_self leftSpaced.head))
            (not_covers_nil _)
      | cons second others =>
          have low : first.low = second.low := Nat.le_antisymm
            (leftSpaced.low_le_of_covers
              ((same _).mpr (covers_low List.mem_cons_self rightSpaced.head)))
            (rightSpaced.low_le_of_covers
              ((same _).mp (covers_low List.mem_cons_self leftSpaced.head)))
          have high : first.high = second.high := Nat.le_antisymm
            (rightSpaced.high_le_of_covers low fun point => (same point).mp)
            (leftSpaced.high_le_of_covers low.symm fun point => (same point).mpr)
          have heads : first = second := by
            cases first
            cases second
            simp only at low high
            rw [low, high]
          have tails : rest = others := by
            apply inductionHypothesis leftSpaced.tail rightSpaced.tail
            intro point
            rw [leftSpaced.covers_tail_iff, rightSpaced.covers_tail_iff, same, high]
          rw [heads, tails]

end Spaced

namespace CharSet

/-! ## Normalizing -/

theorem covers_joinAux_iff (begins : ∀ range ∈ ranges, first.low ≤ range.low)
    (ordered : ranges.Pairwise fun left right => left.low ≤ right.low) :
    Covers (joinAux first ranges) point ↔
      (first.low ≤ point ∧ point ≤ first.high) ∨ Covers ranges point := by
  induction ranges generalizing first with
  | nil => rw [joinAux, covers_cons_iff]
  | cons next rest inductionHypothesis =>
      have least := begins next List.mem_cons_self
      rw [joinAux, covers_cons_iff]
      split
      · rename_i touching
        have joined := @inductionHypothesis ⟨first.low, max first.high next.high⟩
          (fun range member => begins range (List.mem_cons_of_mem next member)) ordered.of_cons
        rw [joined, ← or_assoc]
        apply or_congr_left
        dsimp only
        omega
      · rw [covers_cons_iff, inductionHypothesis
          (fun range member => List.rel_of_pairwise_cons ordered member) ordered.of_cons]

/-- Every joined interval begins where one of the given ones begins. -/
theorem exists_low_of_mem_joinAux (member : range ∈ joinAux first ranges) :
    ∃ given ∈ first :: ranges, given.low = range.low := by
  induction ranges generalizing first with
  | nil =>
      rw [joinAux, List.mem_singleton] at member
      exact ⟨first, List.mem_cons_self, by rw [member]⟩
  | cons next rest inductionHypothesis =>
      rw [joinAux] at member
      split at member
      · obtain ⟨given, isGiven, same⟩ := inductionHypothesis member
        rcases List.mem_cons.mp isGiven with rfl | later
        · exact ⟨first, List.mem_cons_self, same⟩
        · exact ⟨given, List.mem_cons_of_mem first (List.mem_cons_of_mem next later), same⟩
      · rcases List.mem_cons.mp member with rfl | later
        · exact ⟨range, List.mem_cons_self, rfl⟩
        · obtain ⟨given, isGiven, same⟩ := inductionHypothesis later
          exact ⟨given, List.mem_cons_of_mem first isGiven, same⟩

theorem spaced_joinAux (inhabited : first.low ≤ first.high)
    (others : ∀ range ∈ ranges, range.low ≤ range.high)
    (ordered : ranges.Pairwise fun left right => left.low ≤ right.low) :
    Spaced (joinAux first ranges) := by
  induction ranges generalizing first with
  | nil =>
      rw [joinAux]
      exact Spaced.singleton inhabited
  | cons next rest inductionHypothesis =>
      have restOthers : ∀ range ∈ rest, range.low ≤ range.high :=
        fun range member => others range (List.mem_cons_of_mem next member)
      rw [joinAux]
      split
      · exact inductionHypothesis (Nat.le_trans inhabited (Nat.le_max_left _ _)) restOthers
          ordered.of_cons
      · rename_i farther
        refine Spaced.cons inhabited ?_
          (inductionHypothesis (others next List.mem_cons_self) restOthers ordered.of_cons)
        intro range member
        obtain ⟨given, isGiven, same⟩ := exists_low_of_mem_joinAux member
        have least : next.low ≤ given.low := by
          rcases List.mem_cons.mp isGiven with rfl | later
          · exact Nat.le_refl _
          · exact List.rel_of_pairwise_cons ordered later
        omega

/-- The order that intervals are put in ascends by their lower ends. -/
theorem ordered_mergeSort (ranges : List Interval) :
    (ranges.mergeSort Interval.before).Pairwise fun left right => left.low ≤ right.low := by
  have sorted : (ranges.mergeSort Interval.before).Pairwise fun left right =>
      left.before right = true := by
    apply List.pairwise_mergeSort
    · intro first second third
      simp only [Interval.before, Bool.or_eq_true, Bool.and_eq_true, decide_eq_true_eq, beq_iff_eq]
      omega
    · intro first second
      simp only [Interval.before, Bool.or_eq_true, Bool.and_eq_true, decide_eq_true_eq, beq_iff_eq]
      omega
  refine sorted.imp ?_
  intro left right
  simp only [Interval.before, Bool.or_eq_true, Bool.and_eq_true, decide_eq_true_eq, beq_iff_eq]
  omega

theorem covers_filter_inhabited_iff (ranges : List Interval) :
    Covers (ranges.filter Interval.inhabited) point ↔ Covers ranges point := by
  simp only [Covers, List.mem_filter, Interval.inhabited, decide_eq_true_eq]
  constructor
  · rintro ⟨range, ⟨member, -⟩, inside⟩
    exact ⟨range, member, inside⟩
  · rintro ⟨range, member, inside⟩
    have between := (Interval.contains_iff range point).mp inside
    exact ⟨range, ⟨member, Nat.le_trans between.1 between.2⟩, inside⟩

/-- Normalizing keeps the covered points. -/
theorem covers_normalize_iff : Covers (normalize ranges) point ↔ Covers ranges point := by
  have ordered := ordered_mergeSort (ranges.filter Interval.inhabited)
  rw [← covers_filter_inhabited_iff ranges,
    ← covers_perm (List.mergeSort_perm (ranges.filter Interval.inhabited) Interval.before),
    normalize]
  cases sorted : (ranges.filter Interval.inhabited).mergeSort Interval.before with
  | nil => rfl
  | cons first rest =>
      rw [sorted] at ordered
      rw [join, covers_cons_iff, covers_joinAux_iff
        (fun range member => List.rel_of_pairwise_cons ordered member) ordered.of_cons]

theorem spaced_normalize (ranges : List Interval) : Spaced (normalize ranges) := by
  have ordered := ordered_mergeSort (ranges.filter Interval.inhabited)
  have inhabited : ∀ range ∈ (ranges.filter Interval.inhabited).mergeSort Interval.before,
      range.low ≤ range.high := by
    intro range member
    rw [List.mem_mergeSort, List.mem_filter] at member
    exact of_decide_eq_true member.2
  rw [normalize]
  cases sorted : (ranges.filter Interval.inhabited).mergeSort Interval.before with
  | nil => exact Spaced.nil
  | cons first rest =>
      rw [sorted] at ordered inhabited
      exact spaced_joinAux (inhabited first List.mem_cons_self)
        (fun range member => inhabited range (List.mem_cons_of_mem first member)) ordered.of_cons

/-! ## Common points -/

theorem covers_meet_cons_iff :
    Covers (meet (first :: left) (second :: right)) point ↔
      ((first.low ≤ point ∧ point ≤ first.high) ∧ second.low ≤ point ∧ point ≤ second.high) ∨
        Covers (if first.high < second.high then meet left (second :: right)
          else meet (first :: left) right) point := by
  rw [meet]
  split
  · rw [covers_cons_iff]
    apply or_congr_left
    dsimp only
    omega
  · rename_i empty
    rw [Interval.inhabited, decide_eq_true_eq] at empty
    refine (or_iff_right ?_).symm
    intro both
    dsimp only at empty
    omega

/-- Walking along two spaced lists finds the points that both cover: the interval
that ends first has none in common with what stands behind the other one. -/
theorem covers_meet_iff (leftSpaced : Spaced left) (rightSpaced : Spaced right) :
    Covers (meet left right) point ↔ Covers left point ∧ Covers right point := by
  induction left, right using meet.induct with
  | case1 right =>
      rw [meet]
      exact iff_of_false (not_covers_nil point) fun both => not_covers_nil point both.1
  | case2 first rest =>
      rw [meet]
      exact iff_of_false (not_covers_nil point) fun both => not_covers_nil point both.2
  | case3 first left second right _ _ inLeft inRight
  | case4 first left second right _ _ inLeft inRight =>
      have leftLater : Covers left point → first.high + 1 < point :=
        leftSpaced.lt_of_covers_tail
      have rightLater : Covers right point → second.high + 1 < point :=
        rightSpaced.lt_of_covers_tail
      rw [covers_meet_cons_iff]
      split
      · rw [inLeft leftSpaced.tail rightSpaced, covers_cons_iff, covers_cons_iff]
        constructor
        · rintro (⟨inFirst, inSecond⟩ | ⟨covered, others⟩)
          · exact ⟨Or.inl inFirst, Or.inl inSecond⟩
          · exact ⟨Or.inr covered, others⟩
        · rintro ⟨inFirst | covered, others⟩
          · rcases others with inSecond | covered
            · exact Or.inl ⟨inFirst, inSecond⟩
            · have behind := rightLater covered
              omega
          · exact Or.inr ⟨covered, others⟩
      · rw [inRight leftSpaced rightSpaced.tail, covers_cons_iff, covers_cons_iff]
        constructor
        · rintro (⟨inFirst, inSecond⟩ | ⟨others, covered⟩)
          · exact ⟨Or.inl inFirst, Or.inl inSecond⟩
          · exact ⟨others, Or.inr covered⟩
        · rintro ⟨others, inSecond | covered⟩
          · rcases others with inFirst | covered
            · exact Or.inl ⟨inFirst, inSecond⟩
            · have behind := leftLater covered
              omega
          · exact Or.inr ⟨others, covered⟩

theorem spaced_meet_cons
    (others : Spaced (if first.high < second.high then meet left (second :: right)
      else meet (first :: left) right))
    (behind : ∀ point, Covers (if first.high < second.high then meet left (second :: right)
      else meet (first :: left) right) point → min first.high second.high + 1 < point) :
    Spaced (meet (first :: left) (second :: right)) := by
  rw [meet]
  split
  · rename_i inhabited
    refine Spaced.cons (of_decide_eq_true inhabited) ?_ others
    intro range member
    exact behind _ (covers_low member (others.inhabited range member))
  · exact others

/-- What is left to walk along lies behind the interval that has been used up. -/
theorem spaced_meet (leftSpaced : Spaced left) (rightSpaced : Spaced right) :
    Spaced (meet left right) := by
  induction left, right using meet.induct with
  | case1 right =>
      rw [meet]
      exact Spaced.nil
  | case2 first rest =>
      rw [meet]
      exact Spaced.nil
  | case3 first left second right _ _ inLeft inRight
  | case4 first left second right _ _ inLeft inRight =>
      apply spaced_meet_cons
      · split
        · exact inLeft leftSpaced.tail rightSpaced
        · exact inRight leftSpaced rightSpaced.tail
      · intro point covered
        split at covered
        · rw [covers_meet_iff leftSpaced.tail rightSpaced] at covered
          have behind := leftSpaced.lt_of_covers_tail covered.1
          omega
        · rw [covers_meet_iff leftSpaced rightSpaced.tail] at covered
          have behind := rightSpaced.lt_of_covers_tail covered.2
          omega

/-! ## Gaps -/

variable {next : Nat}

/-- Up to the last code point the gaps are what a spaced list leaves out. -/
theorem covers_gapsAux_iff (spaced : Spaced ranges) (begins : ∀ range ∈ ranges, next ≤ range.low)
    (inside : point ≤ maxCodePoint) :
    Covers (gapsAux next ranges) point ↔ next ≤ point ∧ ¬ Covers ranges point := by
  induction ranges generalizing next with
  | nil =>
      have nothing := not_covers_nil point
      rw [gapsAux]
      split
      · simp only [covers_cons_iff, nothing, or_false, not_false_eq_true, and_true, and_iff_left_iff_imp]
        omega
      · simp only [nothing, not_false_eq_true, and_true, false_iff]
        omega
  | cons first rest inductionHypothesis =>
      have inhabited := spaced.head
      have least := begins first List.mem_cons_self
      have behind : ∀ range ∈ rest, first.high + 1 ≤ range.low := fun range member =>
        Nat.le_of_lt (List.rel_of_pairwise_cons spaced.apart member)
      have later : Covers rest point → first.high + 1 < point := spaced.lt_of_covers_tail
      have others := inductionHypothesis spaced.tail behind
      rw [gapsAux]
      split
      · rw [covers_cons_iff, others, covers_cons_iff]
        dsimp only
        by_cases covered : Covers rest point
        · have beyond := later covered
          simp only [covered, not_true_eq_false, and_false, or_true, or_false, iff_false]
          omega
        · simp only [covered, not_false_eq_true, and_true, or_false]
          omega
      · rw [others, covers_cons_iff]
        by_cases covered : Covers rest point
        · simp only [covered, not_true_eq_false, and_false, or_true]
        · simp only [covered, not_false_eq_true, and_true, or_false]
          omega

theorem spaced_gapsAux (spaced : Spaced ranges) (begins : ∀ range ∈ ranges, next ≤ range.low) :
    Spaced (gapsAux next ranges) ∧ ∀ gap ∈ gapsAux next ranges, next ≤ gap.low := by
  induction ranges generalizing next with
  | nil =>
      rw [gapsAux]
      split
      · rename_i inside
        refine ⟨Spaced.singleton inside, ?_⟩
        intro gap member
        rw [List.mem_singleton.mp member]
      · exact ⟨Spaced.nil, fun gap member => absurd member List.not_mem_nil⟩
  | cons first rest inductionHypothesis =>
      have inhabited := spaced.head
      have behind : ∀ range ∈ rest, first.high + 1 ≤ range.low := fun range member =>
        Nat.le_of_lt (List.rel_of_pairwise_cons spaced.apart member)
      obtain ⟨othersSpaced, later⟩ := inductionHypothesis spaced.tail behind
      rw [gapsAux]
      split
      · rename_i gapped
        constructor
        · refine Spaced.cons (by dsimp only; omega) ?_ othersSpaced
          intro gap member
          have farther := later gap member
          dsimp only
          omega
        · intro gap member
          rcases List.mem_cons.mp member with rfl | isLater
          · exact Nat.le_refl _
          · have farther := later gap isLater
            omega
      · refine ⟨othersSpaced, ?_⟩
        intro gap member
        have farther := later gap member
        have least := begins first List.mem_cons_self
        omega

end CharSet

end BodyContract
