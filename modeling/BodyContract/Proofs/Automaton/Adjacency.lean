import BodyContract.Proofs.Automaton.Reachability
import BodyContract.Proofs.Automaton.Spelling

/-!
# The graph of a pattern by its states

`Graph.ofPattern` sorts the links of a pattern by the states that they leave.
No link is lost and none is added, so what can be read along the links is what
can be read from state to state, and the closure of a list of states holds
exactly the states that silent links lead to.
-/

namespace BodyContract.Graph

/-- A text leads from one state of a graph to another one. -/
inductive Walks (graph : Graph) : Nat → List Char → Nat → Prop where
  | stay (state : Nat) : Walks graph state [] state
  | silent {source dest last : Nat} {text : List Char} :
      dest ∈ graph.silentFrom source → Walks graph dest text last →
        Walks graph source text last
  | reads {source dest last : Nat} {label : Interval} {c : Char} {text : List Char} :
      (label, dest) ∈ graph.readingFrom source → label.contains c.toNat = true →
        Walks graph dest text last → Walks graph source (c :: text) last

/-! ## Adding links -/

theorem size_addLink (exits : Array Exits) (link : Link) :
    (addLink exits link).size = exits.size := by
  cases link with
  | silent source dest => exact Array.size_modify
  | reads source set dest => exact Array.size_modify

theorem size_foldl_addLink (links : List Link) (exits : Array Exits) :
    (links.foldl addLink exits).size = exits.size := by
  induction links generalizing exits with
  | nil => rfl
  | cons link rest inductionHypothesis =>
      rw [List.foldl_cons, inductionHypothesis, size_addLink]

/-- A silent link becomes a silent exit of its source; every other state keeps
its silent exits. -/
theorem silentFrom_addLink (exits : Array Exits) (count : Nat) (link : Link) (state : Nat)
    (inRange : state < exits.size) :
    (Graph.mk (addLink exits link) count).silentFrom state =
      match link with
      | .silent source dest =>
          if source = state then dest :: (Graph.mk exits count).silentFrom state
          else (Graph.mk exits count).silentFrom state
      | .reads _ _ _ => (Graph.mk exits count).silentFrom state := by
  cases link with
  | silent source dest =>
      by_cases same : source = state
      · simp [silentFrom, addLink, Array.getElem_modify, same, inRange]
      · simp [silentFrom, addLink, Array.getElem?_modify, same]
  | reads source set dest =>
      by_cases same : source = state
      · simp [silentFrom, addLink, Array.getElem_modify, same, inRange]
      · simp [silentFrom, addLink, Array.getElem?_modify, same]

/-- A reading link becomes one exit of its source for each range of its set;
every other state keeps its reading exits. -/
theorem readingFrom_addLink (exits : Array Exits) (count : Nat) (link : Link) (state : Nat)
    (inRange : state < exits.size) :
    (Graph.mk (addLink exits link) count).readingFrom state =
      match link with
      | .silent _ _ => (Graph.mk exits count).readingFrom state
      | .reads source set dest =>
          if source = state then
            set.ranges.map (·, dest) ++ (Graph.mk exits count).readingFrom state
          else (Graph.mk exits count).readingFrom state := by
  cases link with
  | silent source dest =>
      by_cases same : source = state
      · simp [readingFrom, addLink, Array.getElem_modify, same, inRange]
      · simp [readingFrom, addLink, Array.getElem?_modify, same]
  | reads source set dest =>
      by_cases same : source = state
      · simp [readingFrom, addLink, Array.getElem_modify, same, inRange]
      · simp [readingFrom, addLink, Array.getElem?_modify, same]

theorem mem_silentFrom_foldl (links : List Link) (exits : Array Exits) (count : Nat)
    (source dest : Nat) (inRange : source < exits.size) :
    dest ∈ (Graph.mk (links.foldl addLink exits) count).silentFrom source ↔
      Link.silent source dest ∈ links ∨ dest ∈ (Graph.mk exits count).silentFrom source := by
  induction links generalizing exits with
  | nil => simp
  | cons link rest inductionHypothesis =>
      rw [List.foldl_cons, inductionHypothesis _ (by rwa [size_addLink]),
        silentFrom_addLink exits count link source inRange, List.mem_cons]
      cases link with
      | silent other target =>
          dsimp only
          by_cases same : other = source
          · subst same
            rw [if_pos rfl, List.mem_cons, Link.silent.injEq]
            tauto
          · rw [if_neg same, Link.silent.injEq]
            tauto
      | reads other set target =>
          simp

theorem mem_readingFrom_foldl (links : List Link) (exits : Array Exits) (count : Nat)
    (source dest : Nat) (label : Interval) (inRange : source < exits.size) :
    (label, dest) ∈ (Graph.mk (links.foldl addLink exits) count).readingFrom source ↔
      (∃ set, Link.reads source set dest ∈ links ∧ label ∈ set.ranges) ∨
        (label, dest) ∈ (Graph.mk exits count).readingFrom source := by
  induction links generalizing exits with
  | nil => simp
  | cons link rest inductionHypothesis =>
      rw [List.foldl_cons, inductionHypothesis _ (by rwa [size_addLink]),
        readingFrom_addLink exits count link source inRange]
      cases link with
      | silent other target =>
          simp
      | reads other set target =>
          dsimp only
          by_cases same : other = source
          · subst same
            rw [if_pos rfl, List.mem_append]
            simp only [List.mem_cons, Link.reads.injEq, List.mem_map, Prod.mk.injEq]
            constructor
            · rintro (⟨found, linked, inside⟩ | ⟨range, inside, rfl, rfl⟩ | old)
              · exact Or.inl ⟨found, Or.inr linked, inside⟩
              · exact Or.inl ⟨set, Or.inl ⟨trivial, rfl, rfl⟩, inside⟩
              · exact Or.inr old
            · rintro (⟨found, ⟨-, rfl, rfl⟩ | linked, inside⟩ | old)
              · exact Or.inr (Or.inl ⟨label, inside, rfl, rfl⟩)
              · exact Or.inl ⟨found, linked, inside⟩
              · exact Or.inr (Or.inr old)
          · rw [if_neg same]
            have skip : ∀ found : CharSet,
                Link.reads source found dest ∈ Link.reads other set target :: rest ↔
                  Link.reads source found dest ∈ rest := by
              intro found
              rw [List.mem_cons, Link.reads.injEq]
              tauto
            simp only [skip]

/-- Together the states have no more silent exits than there are links. -/
theorem sum_silentFrom_foldl (links : List Link) (exits : Array Exits) (count : Nat) :
    ∑ state ∈ Finset.range exits.size,
        ((Graph.mk (links.foldl addLink exits) count).silentFrom state).length ≤
      links.length +
        ∑ state ∈ Finset.range exits.size, ((Graph.mk exits count).silentFrom state).length := by
  induction links generalizing exits with
  | nil => simp
  | cons link rest inductionHypothesis =>
      have later := inductionHypothesis (addLink exits link)
      rw [size_addLink] at later
      have step :
          ∑ state ∈ Finset.range exits.size,
              ((Graph.mk (addLink exits link) count).silentFrom state).length ≤
            1 + ∑ state ∈ Finset.range exits.size,
              ((Graph.mk exits count).silentFrom state).length := by
        have one : ∀ state ∈ Finset.range exits.size,
            ((Graph.mk (addLink exits link) count).silentFrom state).length ≤
              (if link.source = state then 1 else 0) +
                ((Graph.mk exits count).silentFrom state).length := by
          intro state member
          rw [silentFrom_addLink exits count link state (Finset.mem_range.mp member)]
          cases link with
          | silent source dest =>
              by_cases same : source = state
              · simp [Link.source, same, Nat.add_comm]
              · simp [Link.source, same]
          | reads source set dest => exact Nat.le_add_left _ _
        refine Nat.le_trans (Finset.sum_le_sum one) ?_
        rw [Finset.sum_add_distrib, Finset.sum_ite_eq]
        refine Nat.add_le_add_right ?_ _
        split
        · exact Nat.le_refl 1
        · exact Nat.zero_le 1
      rw [List.foldl_cons, List.length_cons]
      omega

/-! ## The graph of a pattern -/

theorem exits_ofPattern_outside (pattern : Pattern) (state : Nat)
    (outside : ¬ state < pattern.size) : (ofPattern pattern).exits[state]? = none := by
  rw [Array.getElem?_eq_none_iff, ofPattern, size_foldl_addLink, Array.size_replicate]
  exact Nat.le_of_not_lt outside

theorem source_lt_size {pattern : Pattern} {link : Link} (linked : link ∈ pattern.links 0) :
    link.source < pattern.size := by
  have within := Pattern.links_within pattern 0 link linked
  unfold Pattern.Within at within
  omega

theorem mem_silentFrom_ofPattern (pattern : Pattern) (source dest : Nat) :
    dest ∈ (ofPattern pattern).silentFrom source ↔
      Link.silent source dest ∈ pattern.links 0 := by
  by_cases inRange : source < pattern.size
  · have exits := mem_silentFrom_foldl (pattern.links 0)
      (Array.replicate pattern.size ⟨[], []⟩) (pattern.links 0).length source dest
      (by rwa [Array.size_replicate])
    rw [ofPattern, exits]
    simp [silentFrom, inRange]
  · rw [silentFrom, exits_ofPattern_outside pattern source inRange]
    constructor
    · intro member
      exact absurd member List.not_mem_nil
    · intro linked
      exact absurd (source_lt_size linked) inRange

theorem mem_readingFrom_ofPattern (pattern : Pattern) (source dest : Nat) (label : Interval) :
    (label, dest) ∈ (ofPattern pattern).readingFrom source ↔
      ∃ set, Link.reads source set dest ∈ pattern.links 0 ∧ label ∈ set.ranges := by
  by_cases inRange : source < pattern.size
  · have exits := mem_readingFrom_foldl (pattern.links 0)
      (Array.replicate pattern.size ⟨[], []⟩) (pattern.links 0).length source dest label
      (by rwa [Array.size_replicate])
    rw [ofPattern, exits]
    simp [readingFrom, inRange]
  · rw [readingFrom, exits_ofPattern_outside pattern source inRange]
    constructor
    · intro member
      exact absurd member List.not_mem_nil
    · rintro ⟨set, linked, -⟩
      exact absurd (source_lt_size linked) inRange

theorem linkBound_ofPattern (pattern : Pattern) :
    LinkBound (ofPattern pattern).silentFrom (Finset.range pattern.size)
      (ofPattern pattern).linkCount where
  outside := by
    intro state outside
    rw [Finset.mem_range] at outside
    rw [silentFrom, exits_ofPattern_outside pattern state outside]
  total := by
    have total := sum_silentFrom_foldl (pattern.links 0)
      (Array.replicate pattern.size ⟨[], []⟩) (pattern.links 0).length
    rw [Array.size_replicate] at total
    refine Nat.le_trans total ?_
    rw [ofPattern, Finset.sum_eq_zero, Nat.add_zero]
    intro state member
    simp [silentFrom, Finset.mem_range.mp member]

/-- The walks through the graph of a pattern are the paths along its links. -/
theorem walks_ofPattern_iff (pattern : Pattern) (source last : Nat) (text : List Char) :
    (ofPattern pattern).Walks source text last ↔
      Spells (pattern.links 0) source text last := by
  constructor
  · intro walk
    induction walk with
    | stay state => exact Spells.stay state
    | silent linked _ inductionHypothesis =>
        exact Spells.silent ((mem_silentFrom_ofPattern pattern _ _).mp linked) inductionHypothesis
    | reads linked member _ inductionHypothesis =>
        obtain ⟨set, link, inside⟩ := (mem_readingFrom_ofPattern pattern _ _ _).mp linked
        exact Spells.reads link (List.any_eq_true.mpr ⟨_, inside, member⟩) inductionHypothesis
  · intro path
    induction path with
    | stay state => exact Walks.stay state
    | silent link _ inductionHypothesis =>
        exact Walks.silent ((mem_silentFrom_ofPattern pattern _ _).mpr link) inductionHypothesis
    | reads link member _ inductionHypothesis =>
        obtain ⟨label, inside, member⟩ := List.any_eq_true.mp member
        exact Walks.reads ((mem_readingFrom_ofPattern pattern _ _ _).mpr ⟨_, link, inside⟩)
          member inductionHypothesis

/-! ## Closures -/

/-- The links of a graph are few enough for `closure` to find all states. -/
def IsBounded (graph : Graph) : Prop :=
  ∃ vertices, LinkBound graph.silentFrom vertices graph.linkCount

theorem isBounded_ofPattern (pattern : Pattern) : (ofPattern pattern).IsBounded :=
  ⟨_, linkBound_ofPattern pattern⟩

variable {graph : Graph}

theorem mem_closure_iff (bounded : graph.IsBounded) (states : List Nat) (state : Nat) :
    state ∈ graph.closure states ↔
      ∃ source ∈ states, LeadsTo graph.silentFrom source state := by
  obtain ⟨vertices, bound⟩ := bounded
  exact mem_reach_iff bound states state

theorem walks_of_leadsTo {source middle last : Nat} {text : List Char}
    (silent : LeadsTo graph.silentFrom source middle) (walk : graph.Walks middle text last) :
    graph.Walks source text last := by
  induction silent using Relation.ReflTransGen.head_induction_on with
  | refl => exact walk
  | head linked _ inductionHypothesis => exact Walks.silent linked inductionHypothesis

/-- A walk that reads nothing follows silent links only. -/
theorem leadsTo_of_walks_nil {source last : Nat} (walk : graph.Walks source [] last) :
    LeadsTo graph.silentFrom source last := by
  generalize empty : ([] : List Char) = text at walk
  induction walk with
  | stay state => exact Relation.ReflTransGen.refl
  | silent linked _ inductionHypothesis =>
      exact Relation.ReflTransGen.head linked (inductionHypothesis empty)
  | reads _ _ _ _ => exact absurd empty (by simp)

/-- A walk that reads a character follows silent links to the place where it
is read. -/
theorem walks_cons_iff {source last : Nat} {c : Char} {text : List Char} :
    graph.Walks source (c :: text) last ↔
      ∃ middle label dest, LeadsTo graph.silentFrom source middle ∧
        (label, dest) ∈ graph.readingFrom middle ∧ label.contains c.toNat = true ∧
          graph.Walks dest text last := by
  constructor
  · intro walk
    generalize whole : c :: text = read at walk
    induction walk with
    | stay state => exact absurd whole (by simp)
    | silent linked _ inductionHypothesis =>
        obtain ⟨middle, label, dest, silent, reading⟩ := inductionHypothesis whole
        exact ⟨middle, label, dest, Relation.ReflTransGen.head linked silent, reading⟩
    | reads linked member walk _ =>
        injection whole with sameHead sameTail
        subst sameHead sameTail
        exact ⟨_, _, _, Relation.ReflTransGen.refl, linked, member, walk⟩
  · rintro ⟨middle, label, dest, silent, linked, member, walk⟩
    exact walks_of_leadsTo silent (Walks.reads linked member walk)

end BodyContract.Graph
