import BodyContract.Proofs.Json.Entries

/-!
# Document order

A container comes before its contents, and the parts of a container come one after the
other, elements by their positions and members as they were inserted.  Two locations
either lie in one another, or part at some container, from where on the order of its
parts decides.
-/

namespace BodyContract

namespace Json

/-- How many parts of a document come before the one behind a step. -/
def rank (document : Json) (step : Step) : Nat := document.steps.idxOf step

/-- Whether two locations part at a container and the first goes on in an earlier part. -/
inductive IsAside : Json → Location → Location → Prop where
  | parts {document : Json} {first second : Step} {rest others : Location}
      (earlier : document.rank first < document.rank second) :
      IsAside document (first :: rest) (second :: others)
  | inside {document value : Json} {step : Step} {rest others : Location}
      (isThere : document.step? step = some value) (aside : IsAside value rest others) :
      IsAside document (step :: rest) (step :: others)

/-- Document order: whether the first location is the second one or around it, or lies in
an earlier part. -/
def IsNotAfter (document : Json) (first second : Location) : Prop :=
  first <+: second ∨ document.IsAside first second

/-- Whether locations stand in document order. -/
def AreInOrder (document : Json) (locations : List Location) : Prop :=
  locations.Pairwise document.IsNotAfter

/-- A member overtakes a place that its object holds in an earlier part. -/
def Overtakes (document : Json) (member place : Location) : Prop :=
  member.dropLast <+: place ∧ document.IsAside place member

variable {document value : Json} {step other : Step} {first second front : Location}

/-! ## Parts -/

theorem rank_ne (distinct : document.HasDistinctNames) (isThere : document.step? step = some value)
    (different : step ≠ other) : document.rank step ≠ document.rank other := by
  rw [rank, rank, ne_eq, List.idxOf_inj (mem_steps_of_step? distinct isThere)]
  exact different

/-- The parts of a document stand in their order. -/
theorem pairwise_rank_entries (distinct : document.HasDistinctNames) :
    document.entries.Pairwise fun first second =>
      document.rank first.1 < document.rank second.1 := by
  have ascending : document.steps.Pairwise fun first second =>
      document.rank first < document.rank second := by
    rw [List.pairwise_iff_getElem]
    intro first second inside insideToo less
    rw [rank, rank, (nodup_steps distinct).idxOf_getElem, (nodup_steps distinct).idxOf_getElem]
    exact less
  rw [steps, List.pairwise_map] at ascending
  exact ascending

/-! ## Locations in different parts -/

namespace IsAside

theorem asymm (aside : document.IsAside first second) : ¬document.IsAside second first := by
  induction aside with
  | parts earlier =>
      intro back
      cases back with
      | parts later => exact Nat.lt_asymm earlier later
      | inside _ _ => exact Nat.lt_irrefl _ earlier
  | inside isThere _ inductionHypothesis =>
      intro back
      cases back with
      | parts later => exact Nat.lt_irrefl _ later
      | inside isThereToo aside =>
          cases isThere.symm.trans isThereToo
          exact inductionHypothesis aside

/-- Locations in different parts do not lie in one another. -/
theorem not_prefix (aside : document.IsAside first second) : ¬first <+: second := by
  induction aside with
  | parts earlier =>
      intro around
      rw [(List.cons_prefix_cons.mp around).1] at earlier
      exact Nat.lt_irrefl _ earlier
  | inside _ _ inductionHypothesis =>
      intro around
      exact inductionHypothesis (List.cons_prefix_cons.mp around).2

theorem not_prefix_symm (aside : document.IsAside first second) : ¬second <+: first := by
  induction aside with
  | parts earlier =>
      intro around
      rw [(List.cons_prefix_cons.mp around).1] at earlier
      exact Nat.lt_irrefl _ earlier
  | inside _ _ inductionHypothesis =>
      intro around
      exact inductionHypothesis (List.cons_prefix_cons.mp around).2

/-- What lies inside of two locations in different parts does so, too. -/
theorem append (aside : document.IsAside first second) (rest others : Location) :
    document.IsAside (first ++ rest) (second ++ others) := by
  induction aside with
  | parts earlier => exact .parts earlier
  | inside isThere _ inductionHypothesis => exact .inside isThere inductionHypothesis

end IsAside

/-- The order inside a part is that of the document. -/
theorem isAside_append_iff (isThere : document.valueAt? front = some value) :
    document.IsAside (front ++ first) (front ++ second) ↔ value.IsAside first second := by
  induction front generalizing document with
  | nil =>
      cases isThere
      rfl
  | cons step rest inductionHypothesis =>
      rw [valueAt?, Option.bind_eq_bind, Option.bind_eq_some_iff] at isThere
      obtain ⟨next, isNext, isInside⟩ := isThere
      rw [← inductionHypothesis isInside]
      constructor
      · intro aside
        cases aside with
        | parts earlier => exact absurd earlier (Nat.lt_irrefl _)
        | inside isThereToo aside =>
            cases isNext.symm.trans isThereToo
            exact aside
      · exact .inside isNext

theorem IsNotAfter.not_isAside (inOrder : document.IsNotAfter first second) :
    ¬document.IsAside second first := by
  intro aside
  rcases inOrder with around | before
  · exact aside.not_prefix_symm around
  · exact aside.asymm before

/-- The parts of a container stand in their order. -/
theorem pairwise_isAside_entries (distinct : value.HasDistinctNames)
    (isThere : document.valueAt? front = some value) :
    value.entries.Pairwise fun first second =>
      document.IsAside (front ++ [first.1]) (front ++ [second.1]) :=
  (pairwise_rank_entries distinct).imp fun earlier =>
    (isAside_append_iff isThere).mpr (.parts earlier)

end Json

end BodyContract
