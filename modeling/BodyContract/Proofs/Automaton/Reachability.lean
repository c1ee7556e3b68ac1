import Mathlib
import BodyContract.Automaton.Reach

/-!
# Reachable vertices

`reach` collects exactly the vertices to which links lead from the vertices
to start from.  The fuel suffices because every vertex is expanded at most
once: the vertices still waiting and the links that leave unexpanded vertices
together never exceed it.
-/

namespace BodyContract

/-- A vertex from which links lead to another one. -/
def LeadsTo (next : Nat → List Nat) : Nat → Nat → Prop :=
  Relation.ReflTransGen fun source dest => dest ∈ next source

/-- Links leave only the given vertices, and there are at most `links`. -/
structure LinkBound (next : Nat → List Nat) (vertices : Finset Nat) (links : Nat) : Prop where
  outside : ∀ vertex, vertex ∉ vertices → next vertex = []
  total : ∑ vertex ∈ vertices, (next vertex).length ≤ links

/-- The links that leave the vertices which have not been seen. -/
def unseenLinks (next : Nat → List Nat) (vertices : Finset Nat) (seen : Std.TreeSet Nat) : Nat :=
  ∑ vertex ∈ vertices with vertex ∉ seen, (next vertex).length

/-- Expanding a new vertex takes its links away from those of the unseen
vertices. -/
theorem unseenLinks_insert {next : Nat → List Nat} {vertices : Finset Nat} {links vertex : Nat}
    {seen : Std.TreeSet Nat} (bound : LinkBound next vertices links) (unseen : vertex ∉ seen) :
    unseenLinks next vertices (seen.insert vertex) + (next vertex).length =
      unseenLinks next vertices seen := by
  have rest :
      (vertices.filter fun other => other ∉ seen.insert vertex) =
        (vertices.filter fun other => other ∉ seen).erase vertex := by
    ext other
    simp only [Finset.mem_filter, Finset.mem_erase, Std.TreeSet.mem_insert,
      Std.LawfulEqCmp.compare_eq_iff_eq, not_or]
    constructor
    · rintro ⟨inside, different, new⟩
      exact ⟨fun same => different same.symm, inside, new⟩
    · rintro ⟨different, inside, new⟩
      exact ⟨inside, fun same => different same.symm, new⟩
  rw [unseenLinks, unseenLinks, rest]
  by_cases inside : vertex ∈ vertices
  · exact Finset.sum_erase_add _ _ (Finset.mem_filter.mpr ⟨inside, unseen⟩)
  · rw [bound.outside vertex inside, List.length_nil, Nat.add_zero,
      Finset.erase_eq_of_notMem]
    exact fun member => inside (Finset.mem_filter.mp member).1

/-- Only vertices that links lead to are added. -/
theorem mem_of_mem_reachAux {next : Nat → List Nat} {vertex : Nat} :
    ∀ {fuel : Nat} {todo : List Nat} {seen : Std.TreeSet Nat},
      vertex ∈ reachAux next fuel todo seen →
        vertex ∈ seen ∨ ∃ source ∈ todo, LeadsTo next source vertex := by
  intro fuel
  induction fuel with
  | zero =>
      intro todo seen member
      exact Or.inl member
  | succ fuel inductionHypothesis =>
      intro todo seen member
      cases todo with
      | nil => exact Or.inl member
      | cons head todo =>
          rw [reachAux] at member
          split at member
          · rcases inductionHypothesis member with old | ⟨source, waiting, path⟩
            · exact Or.inl old
            · exact Or.inr ⟨source, List.mem_cons_of_mem head waiting, path⟩
          · rcases inductionHypothesis member with old | ⟨source, waiting, path⟩
            · rw [Std.TreeSet.mem_insert, Std.LawfulEqCmp.compare_eq_iff_eq] at old
              rcases old with rfl | old
              · exact Or.inr ⟨head, List.mem_cons_self, Relation.ReflTransGen.refl⟩
              · exact Or.inl old
            · rcases List.mem_append.mp waiting with linked | waiting
              · exact Or.inr ⟨head, List.mem_cons_self,
                  Relation.ReflTransGen.head linked path⟩
              · exact Or.inr ⟨source, List.mem_cons_of_mem head waiting, path⟩

/-- The successors of what has been seen are seen or waiting. -/
def Pending (next : Nat → List Nat) (todo : List Nat) (seen : Std.TreeSet Nat) : Prop :=
  ∀ source ∈ seen, ∀ dest ∈ next source, dest ∈ seen ∨ dest ∈ todo

/-- A vertex that has been seen need not wait again. -/
theorem Pending.skip {next : Nat → List Nat} {head : Nat} {todo : List Nat}
    {seen : Std.TreeSet Nat} (pending : Pending next (head :: todo) seen) (old : head ∈ seen) :
    Pending next todo seen := by
  intro source member dest linked
  rcases pending source member dest linked with found | waiting
  · exact Or.inl found
  · rcases List.mem_cons.mp waiting with rfl | waiting
    · exact Or.inl old
    · exact Or.inr waiting

/-- When a vertex has been seen, its successors have to wait. -/
theorem Pending.expand {next : Nat → List Nat} {head : Nat} {todo : List Nat}
    {seen : Std.TreeSet Nat} (pending : Pending next (head :: todo) seen) :
    Pending next (next head ++ todo) (seen.insert head) := by
  intro source member dest linked
  rw [Std.TreeSet.mem_insert, Std.LawfulEqCmp.compare_eq_iff_eq] at member
  rcases member with rfl | member
  · exact Or.inr (List.mem_append_left todo linked)
  · rcases pending source member dest linked with found | waiting
    · exact Or.inl (Std.TreeSet.mem_insert.mpr (Or.inr found))
    · rcases List.mem_cons.mp waiting with rfl | waiting
      · exact Or.inl Std.TreeSet.mem_insert_self
      · exact Or.inr (List.mem_append_right _ waiting)

/-- With enough fuel the result holds what has been seen, what is waiting and
every successor of what it holds. -/
theorem reachAux_closed {next : Nat → List Nat} {vertices : Finset Nat} {links : Nat}
    (bound : LinkBound next vertices links) :
    ∀ {fuel : Nat} {todo : List Nat} {seen : Std.TreeSet Nat},
      todo.length + unseenLinks next vertices seen ≤ fuel → Pending next todo seen →
        (∀ vertex, vertex ∈ seen ∨ vertex ∈ todo → vertex ∈ reachAux next fuel todo seen) ∧
          ∀ source ∈ reachAux next fuel todo seen, ∀ dest ∈ next source,
            dest ∈ reachAux next fuel todo seen := by
  intro fuel
  induction fuel with
  | zero =>
      intro todo seen enough pending
      have nothingWaits : todo = [] := List.eq_nil_of_length_eq_zero (by omega)
      subst nothingWaits
      constructor
      · intro vertex member
        simpa [reachAux] using member
      · intro source member dest linked
        simpa [reachAux] using pending source member dest linked
  | succ fuel inductionHypothesis =>
      intro todo seen enough pending
      cases todo with
      | nil =>
          constructor
          · intro vertex member
            simpa [reachAux] using member
          · intro source member dest linked
            simpa [reachAux] using pending source member dest linked
      | cons head todo =>
          rw [List.length_cons] at enough
          rw [reachAux]
          by_cases old : head ∈ seen
          · rw [if_pos (Std.TreeSet.contains_iff_mem.mpr old)]
            have later := inductionHypothesis (by omega) (pending.skip old)
            refine ⟨?_, later.2⟩
            rintro vertex (found | waiting)
            · exact later.1 vertex (Or.inl found)
            · rcases List.mem_cons.mp waiting with rfl | waiting
              · exact later.1 vertex (Or.inl old)
              · exact later.1 vertex (Or.inr waiting)
          · rw [if_neg (mt Std.TreeSet.contains_iff_mem.mp old)]
            have smaller := unseenLinks_insert bound old
            have later := inductionHypothesis (by rw [List.length_append]; omega) pending.expand
            refine ⟨?_, later.2⟩
            rintro vertex (found | waiting)
            · exact later.1 vertex (Or.inl (Std.TreeSet.mem_insert.mpr (Or.inr found)))
            · rcases List.mem_cons.mp waiting with rfl | waiting
              · exact later.1 vertex (Or.inl Std.TreeSet.mem_insert_self)
              · exact later.1 vertex (Or.inr (List.mem_append_right _ waiting))

theorem mem_reach_iff {next : Nat → List Nat} {vertices : Finset Nat} {links : Nat}
    (bound : LinkBound next vertices links) (start : List Nat) (vertex : Nat) :
    vertex ∈ reach next links start ↔ ∃ source ∈ start, LeadsTo next source vertex := by
  have enough :
      start.length + unseenLinks next vertices ∅ ≤ links + start.length := by
    have all : unseenLinks next vertices ∅ = ∑ vertex ∈ vertices, (next vertex).length := by
      rw [unseenLinks, Finset.filter_true_of_mem]
      intro other _
      exact Std.TreeSet.not_mem_emptyc
    rw [all, Nat.add_comm]
    exact Nat.add_le_add_right bound.total _
  have closed := reachAux_closed bound enough (by
    intro source member
    exact absurd member Std.TreeSet.not_mem_emptyc)
  rw [reach, Std.TreeSet.mem_toList]
  constructor
  · intro member
    rcases mem_of_mem_reachAux member with impossible | found
    · exact absurd impossible Std.TreeSet.not_mem_emptyc
    · exact found
  · rintro ⟨source, begins, path⟩
    induction path with
    | refl => exact closed.1 source (Or.inr begins)
    | tail _ linked inductionHypothesis => exact closed.2 _ inductionHypothesis _ linked

end BodyContract
