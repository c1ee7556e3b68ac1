import BodyContract.Pattern.Parser
import BodyContract.Proofs.Automaton.Stretches
import BodyContract.Proofs.Outcome

/-!
# The sets of an expression

A set of characters is *solid* if each of its ranges holds a code point and
holds characters only, so that no range reaches into the surrogate block or
beyond the last code point.  The operations on sets keep this, and the parser
builds its sets with these operations alone.
-/

namespace BodyContract

/-- The interval holds a code point, and each one that it holds is a character. -/
structure Interval.IsSolid (interval : Interval) : Prop where
  inhabited : interval.low ≤ interval.high
  valid : ∀ point, interval.contains point = true → point.isValidChar

def CharSet.IsSolid (set : CharSet) : Prop :=
  ∀ range ∈ set.ranges, range.IsSolid

namespace Interval

/-- What lies in a solid interval and holds a code point is solid. -/
theorem IsSolid.narrow {outer inner : Interval} (solid : outer.IsSolid)
    (inhabited : inner.low ≤ inner.high) (above : outer.low ≤ inner.low)
    (below : inner.high ≤ outer.high) : inner.IsSolid where
  inhabited := inhabited
  valid := by
    intro point inside
    rw [contains_iff] at inside
    refine solid.valid point ((contains_iff outer point).mpr ?_)
    omega

/-- Two solid intervals that overlap or touch make a solid one together. -/
theorem IsSolid.append {first second : Interval} (firstSolid : first.IsSolid)
    (secondSolid : second.IsSolid) (touching : second.low ≤ first.high + 1) {high : Nat}
    (above : first.high ≤ high) (below : high ≤ max first.high second.high) :
    (Interval.mk first.low high).IsSolid where
  inhabited := Nat.le_trans firstSolid.inhabited above
  valid := by
    intro point inside
    rw [contains_iff] at inside
    by_cases early : point ≤ first.high
    · exact firstSolid.valid point ((contains_iff first point).mpr ⟨inside.1, early⟩)
    · refine secondSolid.valid point ((contains_iff second point).mpr ?_)
      simp only at inside
      omega

end Interval

namespace CharSet

theorem isSolid_empty : empty.IsSolid := by
  intro range member
  exact absurd member List.not_mem_nil

theorem isSolid_univ : univ.IsSolid := by
  intro range member
  simp only [univ, List.mem_cons, List.not_mem_nil, or_false] at member
  rcases member with rfl | rfl
  · refine ⟨by decide, fun point inside => ?_⟩
    rw [Interval.contains_iff] at inside
    exact Or.inl (Nat.lt_succ_of_le inside.2)
  · refine ⟨by decide, fun point inside => ?_⟩
    rw [Interval.contains_iff] at inside
    exact Or.inr ⟨inside.1, Nat.lt_succ_of_le inside.2⟩

theorem mem_joinAux_isSolid {current : Interval} {ranges : List Interval}
    (solid : current.IsSolid) (others : ∀ range ∈ ranges, range.IsSolid) :
    ∀ range ∈ joinAux current ranges, range.IsSolid := by
  induction ranges generalizing current with
  | nil =>
      intro range member
      rw [joinAux, List.mem_singleton] at member
      rw [member]
      exact solid
  | cons next rest inductionHypothesis =>
      have nextSolid := others next List.mem_cons_self
      have restSolid : ∀ range ∈ rest, range.IsSolid :=
        fun range member => others range (List.mem_cons_of_mem next member)
      rw [joinAux]
      split
      · rename_i touching
        exact inductionHypothesis (solid.append nextSolid touching (Nat.le_max_left _ _)
          (Nat.le_refl _)) restSolid
      · intro range member
        rcases List.mem_cons.mp member with rfl | later
        · exact solid
        · exact inductionHypothesis nextSolid restSolid range later

theorem mem_normalize_isSolid {ranges : List Interval}
    (solid : ∀ range ∈ ranges, range.IsSolid) :
    ∀ range ∈ normalize ranges, range.IsSolid := by
  have sorted : ∀ range ∈ (ranges.filter Interval.inhabited).mergeSort Interval.before,
      range.IsSolid := by
    intro range member
    rw [List.mem_mergeSort, List.mem_filter] at member
    exact solid range member.1
  rw [normalize]
  revert sorted
  cases (ranges.filter Interval.inhabited).mergeSort Interval.before with
  | nil =>
      intro _ range member
      exact absurd member List.not_mem_nil
  | cons first rest =>
      intro sorted
      exact mem_joinAux_isSolid (sorted first List.mem_cons_self)
        fun range member => sorted range (List.mem_cons_of_mem first member)

/-- Each common part of two lists holds a code point and lies in an interval of
the second one. -/
theorem exists_of_mem_meet {left right : List Interval} {common : Interval}
    (member : common ∈ meet left right) :
    common.low ≤ common.high ∧
      ∃ range ∈ right, range.low ≤ common.low ∧ common.high ≤ range.high := by
  induction left, right using meet.induct with
  | case1 right =>
      rw [meet] at member
      exact absurd member List.not_mem_nil
  | case2 first rest =>
      rw [meet] at member
      exact absurd member List.not_mem_nil
  | case3 a as b bs _ _ inLeft inRight | case4 a as b bs _ _ inLeft inRight =>
      have later : common ∈ (if a.high < b.high then meet as (b :: bs) else meet (a :: as) bs) →
          common.low ≤ common.high ∧
            ∃ range ∈ b :: bs, range.low ≤ common.low ∧ common.high ≤ range.high := by
        intro member
        split at member
        · exact inLeft member
        · obtain ⟨holds, range, isRange, inside⟩ := inRight member
          exact ⟨holds, range, List.mem_cons_of_mem b isRange, inside⟩
      rw [meet] at member
      by_cases inhabited : Interval.inhabited ⟨max a.low b.low, min a.high b.high⟩ = true
      · rw [if_pos inhabited] at member
        rcases List.mem_cons.mp member with rfl | member
        · exact ⟨of_decide_eq_true inhabited, b, List.mem_cons_self, Nat.le_max_right _ _,
            Nat.min_le_right _ _⟩
        · exact later member
      · rw [if_neg inhabited] at member
        exact later member

theorem isSolid_union {left right : CharSet} (leftSolid : left.IsSolid)
    (rightSolid : right.IsSolid) : (left.union right).IsSolid := by
  refine mem_normalize_isSolid ?_
  intro range member
  rcases List.mem_append.mp member with member | member
  · exact leftSolid range member
  · exact rightSolid range member

theorem isSolid_inter (left : CharSet) {right : CharSet} (solid : right.IsSolid) :
    (left.inter right).IsSolid := by
  intro common member
  obtain ⟨inhabited, range, isRange, above, below⟩ := exists_of_mem_meet member
  exact (solid range isRange).narrow inhabited above below

theorem isSolid_compl (set : CharSet) : set.compl.IsSolid :=
  isSolid_inter _ isSolid_univ

theorem isSolid_ofRanges (ranges : List Interval) : (ofRanges ranges).IsSolid :=
  isSolid_inter _ isSolid_univ

end CharSet

namespace Pattern

/-! ## The sets of a pattern -/

mutual

/-- The sets of characters that stand in a pattern. -/
def sets : Pattern → List CharSet
  | .empty => []
  | .oneOf set => [set]
  | .sequence items => setsOfAll items
  | .choice branches => setsOfAll branches
  | .repeated body _ _ => sets body

/-- The sets of all patterns of a list. -/
def setsOfAll : List Pattern → List CharSet
  | [] => []
  | pattern :: rest => sets pattern ++ setsOfAll rest

end

def IsSolid (pattern : Pattern) : Prop :=
  ∀ set ∈ pattern.sets, set.IsSolid

theorem mem_setsOfAll (patterns : List Pattern) (set : CharSet) :
    set ∈ setsOfAll patterns ↔ ∃ pattern ∈ patterns, set ∈ pattern.sets := by
  induction patterns with
  | nil => simp [setsOfAll]
  | cons first rest inductionHypothesis =>
      simp only [setsOfAll, List.mem_append, inductionHypothesis, List.mem_cons,
        exists_eq_or_imp]

/-! ## The parser -/

theorem isSolid_empty : empty.IsSolid := by
  intro set member
  exact absurd member List.not_mem_nil

theorem isSolid_oneOf {set : CharSet} (solid : set.IsSolid) : (oneOf set).IsSolid := by
  intro other member
  rw [sets, List.mem_singleton] at member
  rw [member]
  exact solid

theorem isSolid_literal (c : Char) : (literal c).IsSolid :=
  isSolid_oneOf (CharSet.isSolid_ofRanges _)

theorem isSolid_ofSequence {items : List Pattern} (solid : ∀ item ∈ items, item.IsSolid) :
    (ofSequence items).IsSolid := by
  match items with
  | [] => exact isSolid_empty
  | [only] => exact solid only List.mem_cons_self
  | first :: second :: rest =>
      intro set member
      rw [ofSequence, sets, mem_setsOfAll] at member
      · obtain ⟨item, isItem, member⟩ := member
        exact solid item isItem set member
      · simp
      · simp

theorem isSolid_ofChoice {branches : List Pattern}
    (solid : ∀ branch ∈ branches, branch.IsSolid) : (ofChoice branches).IsSolid := by
  match branches with
  | [only] => exact solid only List.mem_cons_self
  | [] =>
      intro set member
      simp [ofChoice, sets, setsOfAll] at member
  | first :: second :: rest =>
      intro set member
      rw [ofChoice, sets, mem_setsOfAll] at member
      · obtain ⟨branch, isBranch, member⟩ := member
        exact solid branch isBranch set member
      · simp

theorem isSolid_of_escaped {c : Char} {set : CharSet} (stands : escaped? c = some set) :
    set.IsSolid := by
  unfold escaped? at stands
  split at stands <;> cases stands <;>
    first
    | exact CharSet.isSolid_ofRanges _
    | exact CharSet.isSolid_compl _

theorem isSolid_of_readEscape {start : Nat} {cursor behind : Cursor} {set : CharSet}
    (read : readEscape start cursor = .ok (set, behind)) : set.IsSolid := by
  rw [readEscape] at read
  split at read
  · cases read
  · split at read
    · cases read
    · rename_i stands
      cases read
      exact isSolid_of_escaped stands

theorem isSolid_of_readRange {start : Nat} {first set : CharSet} {cursor behind : Cursor}
    (solid : first.IsSolid) (read : readRange start first cursor = .ok (set, behind)) :
    set.IsSolid := by
  rw [readRange] at read
  split at read
  · split at read
    · cases read
    · obtain ⟨⟨high, rest⟩, -, read⟩ := bind_eq_ok_iff.mp read
      dsimp only at read
      split at read
      · cases read
      · cases read
        exact CharSet.isSolid_ofRanges _
  · cases read
    exact solid

mutual

theorem isSolid_of_readClass : ∀ {fuel start : Nat} {cursor behind : Cursor} {set : CharSet},
    readClass fuel start cursor = .ok (set, behind) → set.IsSolid
  | 0, start, cursor, behind, set, read => by
      rw [readClass] at read
      cases read
  | fuel + 1, start, cursor, behind, set, read => by
      rw [readClass] at read
      split at read
      · exact isSolid_of_readClassItems CharSet.isSolid_empty read
      · obtain ⟨⟨items, rest⟩, -, whole⟩ := bind_eq_ok_iff.mp read
        cases whole
        exact CharSet.isSolid_compl items

theorem isSolid_of_readClassItems : ∀ {fuel start : Nat} {isFirst : Bool} {found : CharSet}
    {cursor behind : Cursor} {set : CharSet}, found.IsSolid →
      readClassItems fuel start isFirst found cursor = .ok (set, behind) → set.IsSolid
  | 0, start, isFirst, found, cursor, behind, set, solid, read => by
      rw [readClassItems] at read
      cases read
  | fuel + 1, start, isFirst, found, cursor, behind, set, solid, read => by
      rw [readClassItems] at read
      split at read
      · cases read
      · split at read
        · cases read
        · cases read
          exact solid
      · obtain ⟨⟨inner, rest⟩, class_, read⟩ := bind_eq_ok_iff.mp read
        exact isSolid_of_readClassItems
          (CharSet.isSolid_union solid (isSolid_of_readClass class_)) read
      · obtain ⟨⟨first, behindFirst⟩, escape, read⟩ := bind_eq_ok_iff.mp read
        obtain ⟨⟨item, rest⟩, range, read⟩ := bind_eq_ok_iff.mp read
        exact isSolid_of_readClassItems (CharSet.isSolid_union solid
          (isSolid_of_readRange (isSolid_of_readEscape escape) range)) read
      · obtain ⟨⟨item, rest⟩, range, read⟩ := bind_eq_ok_iff.mp read
        exact isSolid_of_readClassItems (CharSet.isSolid_union solid
          (isSolid_of_readRange (CharSet.isSolid_ofRanges _) range)) read

end

theorem isSolid_of_readQuotedAux {start position : Nat} {text : List Char} {items : List Pattern}
    {pattern : Pattern} {behind : Cursor} (solid : ∀ item ∈ items, item.IsSolid)
    (read : readQuotedAux start position text items = .ok (pattern, behind)) :
    pattern.IsSolid := by
  induction text generalizing position items with
  | nil =>
      rw [readQuotedAux] at read
      cases read
  | cons c rest inductionHypothesis =>
      rw [readQuotedAux] at read
      split at read
      · cases read
        exact isSolid_ofSequence fun item member => solid item (List.mem_reverse.mp member)
      · refine inductionHypothesis ?_ read
        intro item member
        rcases List.mem_cons.mp member with rfl | member
        · exact isSolid_literal c
        · exact solid item member

theorem isSolid_of_readRepetitions {fuel : Nat} {body pattern : Pattern} {cursor behind : Cursor}
    (solid : body.IsSolid) (read : readRepetitions fuel body cursor = .ok (pattern, behind)) :
    pattern.IsSolid := by
  induction fuel generalizing body cursor with
  | zero =>
      rw [readRepetitions] at read
      cases read
      exact solid
  | succ fuel inductionHypothesis =>
      have repeats : ∀ least most, (repeated body least most).IsSolid := fun _ _ => solid
      rw [readRepetitions] at read
      split at read
      · exact inductionHypothesis (repeats _ _) read
      · exact inductionHypothesis (repeats _ _) read
      · exact inductionHypothesis (repeats _ _) read
      · obtain ⟨⟨⟨least, most⟩, rest⟩, -, read⟩ := bind_eq_ok_iff.mp read
        exact inductionHypothesis (repeats _ _) read
      · cases read
        exact solid

mutual

theorem isSolid_of_readChoice : ∀ {fuel : Nat} {cursor behind : Cursor} {branches : List Pattern},
    readChoice fuel cursor = .ok (branches, behind) → ∀ branch ∈ branches, branch.IsSolid
  | 0, cursor, behind, branches, read => by
      rw [readChoice] at read
      cases read
  | fuel + 1, cursor, behind, branches, read => by
      rw [readChoice] at read
      obtain ⟨⟨items, behindItems⟩, sequence_, read⟩ := bind_eq_ok_iff.mp read
      have first := isSolid_ofSequence (isSolid_of_readSequence sequence_)
      dsimp only at read
      split at read
      · cases read
        intro branch member
        rw [List.mem_singleton.mp member]
        exact first
      · obtain ⟨⟨others, rest⟩, later, whole⟩ := bind_eq_ok_iff.mp read
        cases whole
        intro branch member
        rcases List.mem_cons.mp member with rfl | member
        · exact first
        · exact isSolid_of_readChoice later branch member

theorem isSolid_of_readSequence : ∀ {fuel : Nat} {cursor behind : Cursor} {items : List Pattern},
    readSequence fuel cursor = .ok (items, behind) → ∀ item ∈ items, item.IsSolid
  | 0, cursor, behind, items, read => by
      rw [readSequence] at read
      cases read
  | fuel + 1, cursor, behind, items, read => by
      have nothing : ∀ item ∈ ([] : List Pattern), item.IsSolid := by simp
      rw [readSequence] at read
      split at read
      · cases read
        exact nothing
      · cases read
        exact nothing
      · cases read
        exact nothing
      · obtain ⟨⟨atom, behindAtom⟩, readsAtom, read⟩ := bind_eq_ok_iff.mp read
        obtain ⟨⟨first, behindFirst⟩, repeats, read⟩ := bind_eq_ok_iff.mp read
        obtain ⟨⟨others, rest⟩, later, whole⟩ := bind_eq_ok_iff.mp read
        cases whole
        intro item member
        rcases List.mem_cons.mp member with rfl | member
        · exact isSolid_of_readRepetitions (isSolid_of_readAtom readsAtom) repeats
        · exact isSolid_of_readSequence later item member

theorem isSolid_of_readAtom : ∀ {fuel : Nat} {c : Char} {cursor behind : Cursor}
    {pattern : Pattern}, readAtom fuel c cursor = .ok (pattern, behind) → pattern.IsSolid
  | 0, c, cursor, behind, pattern, read => by
      rw [readAtom] at read
      cases read
  | fuel + 1, c, cursor, behind, pattern, read => by
      rw [readAtom.eq_def] at read
      dsimp only at read
      split at read
      · split at read
        · exact isSolid_of_readGroup read
        · cases read
        · exact isSolid_of_readGroup read
      · obtain ⟨⟨set, rest⟩, class_, whole⟩ := bind_eq_ok_iff.mp read
        cases whole
        exact isSolid_oneOf (isSolid_of_readClass class_)
      · cases read
        exact isSolid_oneOf CharSet.isSolid_univ
      · exact isSolid_of_readQuotedAux (by simp) read
      · obtain ⟨⟨set, rest⟩, escape, whole⟩ := bind_eq_ok_iff.mp read
        cases whole
        exact isSolid_oneOf (isSolid_of_readEscape escape)
      · cases read
        exact isSolid_empty
      · cases read
        exact isSolid_empty
      · cases read
      · cases read
      · cases read
      · cases read
      · cases read
        exact isSolid_literal _

theorem isSolid_of_readGroup : ∀ {fuel start : Nat} {cursor behind : Cursor} {pattern : Pattern},
    readGroup fuel start cursor = .ok (pattern, behind) → pattern.IsSolid
  | 0, start, cursor, behind, pattern, read => by
      rw [readGroup] at read
      cases read
  | fuel + 1, start, cursor, behind, pattern, read => by
      rw [readGroup] at read
      obtain ⟨⟨branches, behindBranches⟩, choice_, read⟩ := bind_eq_ok_iff.mp read
      dsimp only at read
      split at read
      · cases read
      · cases read
        exact isSolid_ofChoice (isSolid_of_readChoice choice_)

end

/-- The sets of an expression are solid. -/
theorem isSolid_of_parse {text : String} {pattern : Pattern} (read : parse text = .ok pattern) :
    pattern.IsSolid := by
  rw [parse] at read
  obtain ⟨⟨branches, behind⟩, choice_, read⟩ := bind_eq_ok_iff.mp read
  dsimp only at read
  split at read
  · cases read
    exact isSolid_ofChoice (isSolid_of_readChoice choice_)
  · cases read

end Pattern

end BodyContract
