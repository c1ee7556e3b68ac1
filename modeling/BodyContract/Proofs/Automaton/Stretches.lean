import Mathlib.Data.List.Sort
import BodyContract.Automaton.Subsets

/-!
# Elementary stretches

The ends of the labels that leave a set of states cut the code points into
stretches.  A label holds either all points of a stretch or none of them, so
one transition for each stretch is enough; joining neighbouring transitions
afterwards changes nothing about where a character leads.
-/

namespace BodyContract

namespace Interval

theorem contains_iff (interval : Interval) (point : Nat) :
    interval.contains point = true ↔ interval.low ≤ point ∧ point ≤ interval.high := by
  rw [contains, Bool.and_eq_true, decide_eq_true_eq, decide_eq_true_eq]

end Interval

/-! ## Cuts -/

theorem mem_dropRepeats (points : List Nat) (point : Nat) :
    point ∈ dropRepeats points ↔ point ∈ points := by
  induction points using dropRepeats.induct with
  | case1 => rw [dropRepeats]
  | case2 only => rw [dropRepeats]
  | case3 first rest inductionHypothesis =>
      rw [dropRepeats, if_pos rfl, inductionHypothesis]
      simp
  | case4 first next rest different inductionHypothesis =>
      rw [dropRepeats, if_neg different]
      simp only [List.mem_cons] at inductionHypothesis ⊢
      rw [inductionHypothesis]

theorem pairwise_dropRepeats (points : List Nat)
    (ascending : points.Pairwise fun left right => left ≤ right) :
    (dropRepeats points).Pairwise fun left right => left < right := by
  induction points using dropRepeats.induct with
  | case1 => exact List.Pairwise.nil
  | case2 only => exact List.pairwise_singleton _ only
  | case3 first rest inductionHypothesis =>
      rw [dropRepeats, if_pos rfl]
      exact inductionHypothesis ascending.of_cons
  | case4 first next rest different inductionHypothesis =>
      rw [dropRepeats, if_neg different]
      refine List.Pairwise.cons ?_ (inductionHypothesis ascending.of_cons)
      intro point member
      rw [mem_dropRepeats] at member
      have least : first ≤ next := List.rel_of_pairwise_cons ascending List.mem_cons_self
      rcases List.mem_cons.mp member with rfl | later
      · omega
      · have above : next ≤ point := List.rel_of_pairwise_cons ascending.of_cons later
        omega

/-- A stretch runs from one of the points up to the next one. -/
theorem mem_stretches {points : List Nat} {stretch : Interval}
    (ascending : points.Pairwise fun left right => left < right)
    (member : stretch ∈ stretches points) :
    stretch.low ∈ points ∧ stretch.low ≤ stretch.high ∧
      ∀ cut ∈ points, cut ≤ stretch.low ∨ stretch.high < cut := by
  induction points using stretches.induct with
  | case1 low next rest inductionHypothesis =>
      have first : low < next := List.rel_of_pairwise_cons ascending List.mem_cons_self
      rw [stretches, List.mem_cons] at member
      rcases member with rfl | later
      · refine ⟨List.mem_cons_self, by simp only; omega, ?_⟩
        intro cut isCut
        rcases List.mem_cons.mp isCut with rfl | isCut
        · exact Or.inl (Nat.le_refl _)
        · rcases List.mem_cons.mp isCut with rfl | isCut
          · exact Or.inr (by simp only; omega)
          · have above : next < cut := List.rel_of_pairwise_cons ascending.of_cons isCut
            exact Or.inr (by simp only; omega)
      · obtain ⟨begins, inhabited, uncut⟩ := inductionHypothesis ascending.of_cons later
        refine ⟨List.mem_cons_of_mem low begins, inhabited, ?_⟩
        intro cut isCut
        rcases List.mem_cons.mp isCut with rfl | isCut
        · exact Or.inl (Nat.le_of_lt (List.rel_of_pairwise_cons ascending begins))
        · exact uncut cut isCut
  | case2 points short =>
      rw [stretches] at member
      · exact absurd member List.not_mem_nil
      · exact short

/-- The stretches follow each other. -/
theorem pairwise_stretches {points : List Nat}
    (ascending : points.Pairwise fun left right => left < right) :
    (stretches points).Pairwise fun left right => left.high < right.low := by
  induction points using stretches.induct with
  | case1 low next rest inductionHypothesis =>
      have first : low < next := List.rel_of_pairwise_cons ascending List.mem_cons_self
      rw [stretches]
      refine List.Pairwise.cons ?_ (inductionHypothesis ascending.of_cons)
      intro stretch member
      have begins := (mem_stretches ascending.of_cons member).1
      rcases List.mem_cons.mp begins with same | later
      · simp only
        omega
      · have above : next < stretch.low := List.rel_of_pairwise_cons ascending.of_cons later
        simp only
        omega
  | case2 points short =>
      rw [stretches]
      · exact List.Pairwise.nil
      · exact short

/-- Every point between two of the given ones lies on a stretch. -/
theorem exists_stretch {points : List Nat} {low point high : Nat}
    (ascending : points.Pairwise fun left right => left < right)
    (begins : low ∈ points) (ends : high ∈ points) (above : low ≤ point) (below : point < high) :
    ∃ stretch ∈ stretches points, stretch.contains point = true := by
  induction points using stretches.induct generalizing low with
  | case1 first next rest inductionHypothesis =>
      have later : high ∈ next :: rest := by
        rcases List.mem_cons.mp ends with same | later
        · rcases List.mem_cons.mp begins with other | begins
          · omega
          · have order : first < low := List.rel_of_pairwise_cons ascending begins
            omega
        · exact later
      by_cases early : point < next
      · refine ⟨⟨first, next - 1⟩, by rw [stretches]; exact List.mem_cons_self, ?_⟩
        rw [Interval.contains_iff]
        rcases List.mem_cons.mp begins with same | begins
        · simp only
          omega
        · have order : first < low := List.rel_of_pairwise_cons ascending begins
          simp only
          omega
      · obtain ⟨stretch, member, inside⟩ := inductionHypothesis ascending.of_cons
          List.mem_cons_self later (Nat.le_of_not_lt early)
        exact ⟨stretch, by rw [stretches]; exact List.mem_cons_of_mem _ member, inside⟩
  | case2 points short =>
      cases points with
      | nil => exact absurd begins List.not_mem_nil
      | cons first rest =>
          cases rest with
          | nil =>
              rw [List.mem_singleton] at begins ends
              omega
          | cons next others => exact absurd rfl (short first next others)

/-! ## The stretches of labels -/

/-- The points at which a label begins or behind which one ends. -/
def cutPoints (labels : List Interval) : List Nat :=
  dropRepeats ((labels.flatMap fun label => [label.low, label.high + 1]).mergeSort
    fun left right => left ≤ right)

theorem pairwise_cutPoints (labels : List Interval) :
    (cutPoints labels).Pairwise fun left right => left < right := by
  refine pairwise_dropRepeats _ ?_
  refine List.Pairwise.imp (fun order => of_decide_eq_true order)
    (List.pairwise_mergeSort ?_ ?_ _)
  · intro first second third left right
    simp only [decide_eq_true_eq] at left right ⊢
    omega
  · intro first second
    simp only [Bool.or_eq_true, decide_eq_true_eq]
    omega

theorem mem_cutPoints {labels : List Interval} {label : Interval} (member : label ∈ labels) :
    label.low ∈ cutPoints labels ∧ label.high + 1 ∈ cutPoints labels := by
  simp only [cutPoints, mem_dropRepeats, List.mem_mergeSort, List.mem_flatMap]
  exact ⟨⟨label, member, by simp⟩, ⟨label, member, by simp⟩⟩

variable {labels : List Interval} {label stretch : Interval} {point : Nat}

theorem low_le_high_of_mem_elementary (member : stretch ∈ elementary labels) :
    stretch.low ≤ stretch.high :=
  (mem_stretches (pairwise_cutPoints labels) member).2.1

theorem pairwise_elementary (labels : List Interval) :
    (elementary labels).Pairwise fun left right => left.high < right.low :=
  pairwise_stretches (pairwise_cutPoints labels)

/-- A label that holds one point of a stretch holds the whole stretch. -/
theorem contains_iff_of_mem_elementary (labelled : label ∈ labels)
    (member : stretch ∈ elementary labels) (inside : stretch.contains point = true) :
    label.contains point = true ↔ label.low ≤ stretch.low ∧ stretch.high ≤ label.high := by
  have uncut := (mem_stretches (pairwise_cutPoints labels) member).2.2
  obtain ⟨begins, ends⟩ := mem_cutPoints labelled
  have low := uncut _ begins
  have high := uncut _ ends
  rw [Interval.contains_iff] at inside ⊢
  omega

theorem exists_elementary (labelled : label ∈ labels) (inside : label.contains point = true) :
    ∃ stretch ∈ elementary labels, stretch.contains point = true := by
  obtain ⟨begins, ends⟩ := mem_cutPoints labelled
  rw [Interval.contains_iff] at inside
  exact exists_stretch (pairwise_cutPoints labels) begins ends inside.1
    (Nat.lt_succ_of_le inside.2)

theorem elementary_nil : elementary [] = [] := by
  rw [elementary, List.flatMap_nil, List.mergeSort_nil, dropRepeats, stretches]
  simp

theorem elementary_singleton (inhabited : label.low ≤ label.high) :
    elementary [label] = [label] := by
  have sorted : [label.low, label.high + 1].mergeSort (fun left right => left ≤ right) =
      [label.low, label.high + 1] :=
    List.mergeSort_of_pairwise (by simp; omega)
  simp only [elementary, List.flatMap_cons, List.flatMap_nil, List.append_nil, sorted]
  rw [dropRepeats, if_neg (by omega), dropRepeats]
  simp [stretches]

/-! ## Transitions -/

/-- Some transition of the list reads the code point and leads to the state. -/
def Leads (steps : List Transition) (point dest : Nat) : Prop :=
  ∃ step ∈ steps, step.label.contains point = true ∧ step.dest = dest

theorem leads_cons_iff (step : Transition) (steps : List Transition) (point dest : Nat) :
    Leads (step :: steps) point dest ↔
      (step.label.contains point = true ∧ step.dest = dest) ∨ Leads steps point dest := by
  simp only [Leads, List.mem_cons, or_and_right, exists_or, exists_eq_left]

/-- The labels are inhabited and follow each other. -/
structure Ascending (steps : List Transition) : Prop where
  inhabited : ∀ step ∈ steps, step.label.low ≤ step.label.high
  ordered : steps.Pairwise fun left right => left.label.high < right.label.low

namespace Ascending

theorem tail {step : Transition} {steps : List Transition} (ascending : Ascending (step :: steps)) :
    Ascending steps where
  inhabited := fun other member => ascending.inhabited other (List.mem_cons_of_mem step member)
  ordered := ascending.ordered.of_cons

theorem cons {step : Transition} {steps : List Transition}
    (inhabited : step.label.low ≤ step.label.high)
    (before : ∀ other ∈ steps, step.label.high < other.label.low) (ascending : Ascending steps) :
    Ascending (step :: steps) where
  inhabited := by
    intro other member
    rcases List.mem_cons.mp member with rfl | member
    · exact inhabited
    · exact ascending.inhabited other member
  ordered := List.Pairwise.cons before ascending.ordered

/-- At most one transition reads a code point. -/
theorem dest_unique {steps : List Transition} {point first second : Nat}
    (ascending : Ascending steps) (left : Leads steps point first)
    (right : Leads steps point second) : first = second := by
  induction steps with
  | nil =>
      obtain ⟨step, member, -⟩ := left
      exact absurd member List.not_mem_nil
  | cons step rest inductionHypothesis =>
      have apart : ∀ dest, step.label.contains point = true → ¬ Leads rest point dest := by
        rintro dest inside ⟨other, member, also, -⟩
        have order : step.label.high < other.label.low :=
          List.rel_of_pairwise_cons ascending.ordered member
        rw [Interval.contains_iff] at inside also
        omega
      rw [leads_cons_iff] at left right
      rcases left with ⟨inside, rfl⟩ | left
      · rcases right with ⟨-, same⟩ | right
        · exact same
        · exact absurd right (apart second inside)
      · rcases right with ⟨inside, -⟩ | right
        · exact absurd left (apart first inside)
        · exact inductionHypothesis ascending.tail left right

end Ascending

/-- The state behind a character is the one that a transition leads to. -/
theorem State.next?_eq_some_iff {state : State} (ascending : Ascending state.transitions)
    (c : Char) (dest : Nat) :
    state.next? c = some dest ↔ Leads state.transitions c.toNat dest := by
  have reads : ∀ step : Transition,
      state.transitions.find? (·.label.contains c.toNat) = some step →
        step ∈ state.transitions ∧ step.label.contains c.toNat = true := by
    intro step found
    have inside := List.find?_some found
    exact ⟨List.mem_of_find?_eq_some found, inside⟩
  rw [State.next?, Option.map_eq_some_iff]
  constructor
  · rintro ⟨step, found, same⟩
    exact ⟨step, (reads step found).1, (reads step found).2, same⟩
  · rintro ⟨step, member, inside, same⟩
    cases found : state.transitions.find? (·.label.contains c.toNat) with
    | none => exact absurd inside (List.find?_eq_none.mp found step member)
    | some other =>
        have leads : Leads state.transitions c.toNat other.dest :=
          ⟨other, (reads other found).1, (reads other found).2, rfl⟩
        exact ⟨other, rfl, ascending.dest_unique leads ⟨step, member, inside, same⟩⟩

/-! ## Joined transitions -/

/-- Every joined transition begins where one of the given ones begins. -/
theorem exists_low_of_mem_joinTransitions {steps : List Transition} {joined : Transition}
    (member : joined ∈ joinTransitions steps) :
    ∃ step ∈ steps, step.label.low = joined.label.low := by
  induction steps generalizing joined with
  | nil => exact absurd member List.not_mem_nil
  | cons step rest inductionHypothesis =>
      rw [joinTransitions] at member
      split at member
      · rw [List.mem_singleton] at member
        exact ⟨step, List.mem_cons_self, by rw [member]⟩
      · rename_i next others joins
        rw [joins] at inductionHypothesis
        have later : ∀ joined ∈ next :: others,
            ∃ other ∈ step :: rest, other.label.low = joined.label.low := by
          intro joined member
          obtain ⟨other, inside, same⟩ := inductionHypothesis member
          exact ⟨other, List.mem_cons_of_mem step inside, same⟩
        split at member
        · rcases List.mem_cons.mp member with rfl | member
          · exact ⟨step, List.mem_cons_self, rfl⟩
          · exact later joined (List.mem_cons_of_mem next member)
        · rcases List.mem_cons.mp member with rfl | member
          · exact ⟨joined, List.mem_cons_self, rfl⟩
          · exact later joined member

theorem Ascending.join {steps : List Transition} (ascending : Ascending steps) :
    Ascending (joinTransitions steps) := by
  induction steps with
  | nil => exact ascending
  | cons step rest inductionHypothesis =>
      have inhabited := ascending.inhabited step List.mem_cons_self
      have before : ∀ joined ∈ joinTransitions rest, step.label.high < joined.label.low := by
        intro joined member
        obtain ⟨other, inside, same⟩ := exists_low_of_mem_joinTransitions member
        rw [← same]
        exact List.rel_of_pairwise_cons ascending.ordered inside
      have later := inductionHypothesis ascending.tail
      rw [joinTransitions]
      split
      · exact Ascending.cons inhabited (by simp) ⟨by simp, List.Pairwise.nil⟩
      · rename_i next others joins
        rw [joins] at before later
        have first := before next List.mem_cons_self
        have nextInhabited := later.inhabited next List.mem_cons_self
        split
        · refine Ascending.cons ?_ ?_ later.tail
          · simp only
            omega
          · intro other member
            exact List.rel_of_pairwise_cons later.ordered member
        · exact Ascending.cons inhabited before later

/-- Joining does not change where a code point leads. -/
theorem leads_joinTransitions_iff {steps : List Transition} (ascending : Ascending steps)
    (point dest : Nat) :
    Leads (joinTransitions steps) point dest ↔ Leads steps point dest := by
  induction steps with
  | nil => rfl
  | cons step rest inductionHypothesis =>
      have later := inductionHypothesis ascending.tail
      have inhabited := ascending.inhabited step List.mem_cons_self
      have joinedAscending := ascending.tail.join
      rw [leads_cons_iff, ← later, joinTransitions]
      split
      · rename_i joins
        rw [leads_cons_iff, joins]
      · rename_i next others joins
        rw [joins] at joinedAscending ⊢
        rw [leads_cons_iff next]
        split
        · rename_i touching
          simp only [Bool.and_eq_true, decide_eq_true_eq] at touching
          have nextInhabited := joinedAscending.inhabited next List.mem_cons_self
          rw [leads_cons_iff, ← or_assoc]
          refine or_congr_left ?_
          rw [← touching.1, ← or_and_right]
          refine and_congr_left fun _ => ?_
          simp only [Interval.contains_iff]
          omega
        · rw [leads_cons_iff step, leads_cons_iff next]

end BodyContract
