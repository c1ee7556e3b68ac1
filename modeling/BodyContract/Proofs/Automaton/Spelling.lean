import Mathlib.Data.List.Basic
import BodyContract.Automaton.Graph

/-!
# Texts along the links of a graph

`Spells links source text dest` says that a path of links from `source` to
`dest` reads `text`.  Two lemmas take paths apart by the places that they
visit:

* `Spells.confine` keeps a path inside a part of the graph that no link
  leaves;
* `Spells.leave` cuts a path where it leaves a block through its only gate.

The links of a pattern stay inside its block, and none of them leaves the exit
of the block, so the blocks of its parts can be cut out of a path this way.
-/

namespace BodyContract

namespace Link

/-- The state that a link leaves. -/
def source : Link → Nat
  | .silent source _ => source
  | .reads source _ _ => source

/-- The state that a link leads to. -/
def dest : Link → Nat
  | .silent _ dest => dest
  | .reads _ _ dest => dest

end Link

/-- A path of links that reads a text. -/
inductive Spells (links : List Link) : Nat → List Char → Nat → Prop where
  | stay (state : Nat) : Spells links state [] state
  | silent {source dest last : Nat} {text : List Char} :
      Link.silent source dest ∈ links → Spells links dest text last →
        Spells links source text last
  | reads {source dest last : Nat} {set : CharSet} {c : Char} {text : List Char} :
      Link.reads source set dest ∈ links → set.contains c = true →
        Spells links dest text last → Spells links source (c :: text) last

namespace Spells

variable {links part : List Link} {source middle last : Nat} {text front back : List Char}

theorem append (first : Spells links source front middle)
    (second : Spells links middle back last) :
    Spells links source (front ++ back) last := by
  induction first with
  | stay _ => exact second
  | silent link _ inductionHypothesis => exact silent link (inductionHypothesis second)
  | reads link member _ inductionHypothesis =>
      exact reads link member (inductionHypothesis second)

theorem mono (inside : ∀ link ∈ part, link ∈ links) (path : Spells part source text last) :
    Spells links source text last := by
  induction path with
  | stay state => exact stay state
  | silent link _ inductionHypothesis => exact silent (inside _ link) inductionHypothesis
  | reads link member _ inductionHypothesis =>
      exact reads (inside _ link) member inductionHypothesis

/-- A path that begins among the states of a region uses only the links of
`part` if all links that leave a state of the region are in `part` and stay in
the region. -/
theorem confine (region : Nat → Prop) (part : List Link)
    (closed : ∀ link ∈ links, region link.source → link ∈ part ∧ region link.dest)
    (begins : region source) (path : Spells links source text last) :
    Spells part source text last := by
  induction path with
  | stay state => exact stay state
  | silent link _ inductionHypothesis =>
      have next := closed _ link begins
      exact silent next.1 (inductionHypothesis next.2)
  | reads link member _ inductionHypothesis =>
      have next := closed _ link begins
      exact reads next.1 member (inductionHypothesis next.2)

/-- A path that begins in a block of the graph and ends outside leaves the
block through its gate, if no other link leads out of it. -/
theorem leave (region : Nat → Prop) (part : List Link) (gate : Nat)
    (closed : ∀ link ∈ links, region link.source →
      (link ∈ part ∧ region link.dest) ∨ ∃ dest, link = .silent gate dest)
    (begins : region source) (ends : ¬ region last) (path : Spells links source text last) :
    ∃ front back dest, text = front ++ back ∧ Spells part source front gate ∧
      Link.silent gate dest ∈ links ∧ Spells links dest back last := by
  induction path with
  | stay state => exact absurd begins ends
  | silent link path inductionHypothesis =>
      rcases closed _ link begins with ⟨inside, stays⟩ | ⟨dest, out⟩
      · obtain ⟨front, back, dest, whole, first, out, second⟩ := inductionHypothesis stays ends
        exact ⟨front, back, dest, whole, silent inside first, out, second⟩
      · injection out with fromGate toDest
        subst fromGate toDest
        exact ⟨[], _, _, rfl, stay _, link, path⟩
  | reads link member path inductionHypothesis =>
      rcases closed _ link begins with ⟨inside, stays⟩ | ⟨dest, out⟩
      · obtain ⟨front, back, dest, whole, first, out, second⟩ := inductionHypothesis stays ends
        exact ⟨_ :: front, back, dest, by rw [whole, List.cons_append],
          reads inside member first, out, second⟩
      · exact absurd out (by simp)

/-- A path cannot go on from a state that no link leaves. -/
theorem eq_of_no_exit (stuck : ∀ link ∈ links, link.source ≠ source)
    (path : Spells links source text last) : text = [] ∧ source = last := by
  cases path with
  | stay _ => exact ⟨rfl, rfl⟩
  | silent link _ => exact absurd rfl (stuck _ link)
  | reads link _ _ => exact absurd rfl (stuck _ link)

end Spells

namespace Pattern

/-! ## Blocks -/

mutual

theorem two_le_size : ∀ pattern : Pattern, 2 ≤ pattern.size
  | .empty => by simp [size]
  | .oneOf _ => by simp [size]
  | .sequence [] => by simp [size]
  | .sequence (item :: rest) => by
      have first := two_le_size item
      simp only [size, List.isEmpty_cons, Bool.false_eq_true, if_false, sizeList]
      omega
  | .choice _ => by simp [size]
  | .repeated _ _ _ => by simp [size]

end

/-- Whether a link stays among the states from `low` to `last` and does not
leave the last of them. -/
def Within (low last : Nat) (link : Link) : Prop :=
  (low ≤ link.source ∧ link.source < last) ∧ low ≤ link.dest ∧ link.dest ≤ last

theorem Within.mono {low last lower higher : Nat} {link : Link}
    (inside : Within low last link) (below : lower ≤ low) (above : last ≤ higher) :
    Within lower higher link := by
  unfold Within at *
  omega

/-- The links that a repetition puts between the copies of its body. -/
inductive JointLink (base width least count : Nat) (most : Option Nat) : Link → Prop where
  | enter {index : Nat} (inRange : index < count) :
      JointLink base width least count most
        (.silent (base + index * width) (base + 1 + index * width))
  | stop {index : Nat} (enough : least ≤ index) (inRange : index ≤ count) :
      JointLink base width least count most
        (.silent (base + index * width) (base + 1 + count * width))
  | loop (unbounded : most = none) :
      JointLink base width least count most
        (.silent (base + count * width) (base + 1 + least * width))

theorem mem_links_repeated {body : Pattern} {least : Nat} {most : Option Nat} {base : Nat}
    {link : Link} :
    link ∈ links (.repeated body least most) base ↔
      (∃ index, index < copies least most ∧
        link ∈ links body (base + 1 + index * body.size)) ∨
        JointLink base body.size least (copies least most) most link := by
  rw [links.eq_def]
  simp only [List.mem_append, List.mem_flatMap, List.mem_range, List.mem_cons, List.mem_map,
    List.mem_range'_1]
  constructor
  · rintro ((⟨index, inRange, rfl | inside⟩ | ⟨index, ⟨enough, inRange⟩, rfl⟩) | looping)
    · exact Or.inr (.enter inRange)
    · exact Or.inl ⟨index, inRange, inside⟩
    · exact Or.inr (.stop enough (by omega))
    · cases most with
      | none =>
          rw [List.mem_singleton] at looping
          subst looping
          exact Or.inr (.loop rfl)
      | some bound => exact absurd looping List.not_mem_nil
  · rintro (⟨index, inRange, inside⟩ | joint)
    · exact Or.inl (Or.inl ⟨index, inRange, Or.inr inside⟩)
    · cases joint with
      | enter inRange => exact Or.inl (Or.inl ⟨_, inRange, Or.inl rfl⟩)
      | stop enough inRange => exact Or.inl (Or.inr ⟨_, ⟨enough, by omega⟩, rfl⟩)
      | loop unbounded =>
          subst unbounded
          exact Or.inr (List.mem_singleton.mpr rfl)

/-- Where a joint link of a repetition begins and ends. -/
theorem JointLink.within {base width least count : Nat} {most : Option Nat} {link : Link}
    (joint : JointLink base width least count most link) (positive : 0 < width)
    (looping : most = none → least < count) :
    Within base (base + 1 + count * width) link := by
  cases joint with
  | @enter index inRange =>
      have room : (index + 1) * width ≤ count * width := Nat.mul_le_mul_right width inRange
      rw [Nat.succ_mul] at room
      simp only [Within, Link.source, Link.dest]
      omega
  | @stop index enough inRange =>
      have room : index * width ≤ count * width := Nat.mul_le_mul_right width inRange
      simp only [Within, Link.source, Link.dest]
      omega
  | loop unbounded =>
      have room : (least + 1) * width ≤ count * width :=
        Nat.mul_le_mul_right width (looping unbounded)
      rw [Nat.succ_mul] at room
      simp only [Within, Link.source, Link.dest]
      omega

theorem least_lt_copies_of_none {least : Nat} {most : Option Nat} (unbounded : most = none) :
    least < copies least most := by
  subst unbounded
  exact Nat.lt_succ_self least

mutual

/-- All links of a pattern lie in its block, and none leaves its exit. -/
theorem links_within : ∀ (pattern : Pattern) (base : Nat) (link : Link),
    link ∈ links pattern base → Within base (base + pattern.size - 1) link
  | .empty, base, link, member => by
      rw [links, List.mem_singleton] at member
      subst member
      simp [Within, Link.source, Link.dest, size]
  | .oneOf set, base, link, member => by
      rw [links, List.mem_singleton] at member
      subst member
      simp [Within, Link.source, Link.dest, size]
  | .sequence [], base, link, member => by
      rw [links, List.isEmpty_nil, if_pos rfl, List.mem_singleton] at member
      subst member
      simp [Within, Link.source, Link.dest, size]
  | .sequence (item :: rest), base, link, member => by
      rw [links, List.isEmpty_cons, if_neg Bool.false_ne_true] at member
      have inside := linksInSequence_within (item :: rest) base link member
      rwa [size, List.isEmpty_cons, if_neg Bool.false_ne_true]
  | .choice branches, base, link, member => by
      rw [links] at member
      have inside := linksOfBranches_within branches base (base + 1 + sizeList branches)
        (base + 1) link member
      rw [size]
      unfold Within
      omega
  | .repeated body least most, base, link, member => by
      have positive : 0 < body.size := Nat.lt_of_lt_of_le Nat.zero_lt_two (two_le_size body)
      rw [size]
      rcases mem_links_repeated.mp member with ⟨index, inRange, inside⟩ | joint
      · have room : (index + 1) * body.size ≤ copies least most * body.size :=
          Nat.mul_le_mul_right body.size inRange
        rw [Nat.succ_mul] at room
        exact (links_within body _ link inside).mono (by omega) (by omega)
      · exact (joint.within positive least_lt_copies_of_none).mono (Nat.le_refl _) (by omega)

/-- All links of a sequence lie in the blocks of its items, and none leaves the
last exit. -/
theorem linksInSequence_within : ∀ (items : List Pattern) (base : Nat) (link : Link),
    link ∈ linksInSequence items base → Within base (base + sizeList items - 1) link
  | [], _, _, member => by
      rw [linksInSequence] at member
      exact absurd member List.not_mem_nil
  | item :: rest, base, link, member => by
      have room := two_le_size item
      rw [linksInSequence] at member
      simp only [List.mem_append] at member
      rw [sizeList]
      rcases member with (inside | step) | later
      · exact (links_within item base link inside).mono (Nat.le_refl _) (by omega)
      · cases rest with
        | nil => exact absurd step List.not_mem_nil
        | cons second others =>
            have more := two_le_size second
            rw [List.isEmpty_cons, if_neg Bool.false_ne_true, List.mem_singleton] at step
            subst step
            rw [sizeList]
            simp only [Within, Link.source, Link.dest]
            omega
      · exact (linksInSequence_within rest _ link later).mono (by omega) (by omega)

/-- A link of a choice leaves the entry or a branch, and leads to the exit or
to a branch. -/
theorem linksOfBranches_within : ∀ (branches : List Pattern) (entry exit base : Nat)
    (link : Link), link ∈ linksOfBranches branches entry exit base →
      (link.source = entry ∨ base ≤ link.source ∧ link.source < base + sizeList branches) ∧
        (link.dest = exit ∨ base ≤ link.dest ∧ link.dest < base + sizeList branches)
  | [], _, _, _, _, member => by
      rw [linksOfBranches] at member
      exact absurd member List.not_mem_nil
  | branch :: rest, entry, exit, base, link, member => by
      have room := two_le_size branch
      rw [linksOfBranches] at member
      simp only [List.mem_cons, List.mem_append] at member
      rw [sizeList]
      rcases member with rfl | rfl | inside | later
      · exact ⟨Or.inl rfl, Or.inr ⟨Nat.le_refl base, by simp only [Link.dest]; omega⟩⟩
      · refine ⟨Or.inr ?_, Or.inl rfl⟩
        simp only [Link.source]
        omega
      · have within := links_within branch base link inside
        unfold Within at within
        omega
      · have within := linksOfBranches_within rest entry exit _ link later
        omega

end

end Pattern

end BodyContract
