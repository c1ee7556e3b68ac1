import BodyContract.Proofs.CharSet.Spacing
import BodyContract.Proofs.Pattern.Solidity

/-!
# The algebra of sets of characters

The sets that are built with the operations on sets are in one form: their
ranges are spaced and hold characters only.  In this form sets with the same
members are equal, so the laws of a Boolean algebra are equations between sets
and not just between their members.
-/

namespace BodyContract.CharSet

/-- The ranges hold characters only, ascend, and neither overlap nor touch. -/
structure IsCanonical (set : CharSet) : Prop where
  solid : set.IsSolid
  spaced : Spaced set.ranges

/-- The sets that finitely many operations build. -/
inductive IsBuilt : CharSet → Prop where
  | empty : IsBuilt .empty
  | univ : IsBuilt .univ
  | ofRanges (ranges : List Interval) : IsBuilt (.ofRanges ranges)
  | range (low high : Char) : IsBuilt (.range low high)
  | single (c : Char) : IsBuilt (.single c)
  | digit : IsBuilt .digit
  | word : IsBuilt .word
  | space : IsBuilt .space
  | nonSpace : IsBuilt .nonSpace
  | union {left right : CharSet} : IsBuilt left → IsBuilt right → IsBuilt (left.union right)
  | inter {left right : CharSet} : IsBuilt left → IsBuilt right → IsBuilt (left.inter right)
  | compl {set : CharSet} : IsBuilt set → IsBuilt set.compl

variable {set left right : CharSet}

/-! ## Members -/

theorem contains_iff (set : CharSet) (c : Char) :
    set.contains c = true ↔ Covers set.ranges c.toNat := by
  rw [contains, containsPoint, List.any_eq_true]
  rfl

theorem covers_univ_iff (point : Nat) : Covers univ.ranges point ↔ point.isValidChar := by
  rw [univ, covers_cons_iff, covers_cons_iff, or_iff_left (not_covers_nil point), maxCodePoint,
    Nat.isValidChar]
  dsimp only
  omega

theorem isValidChar_of_covers (solid : set.IsSolid) {point : Nat}
    (covered : Covers set.ranges point) : point.isValidChar := by
  obtain ⟨range, member, inside⟩ := covered
  exact (solid range member).valid point inside

theorem contains_union (left right : CharSet) (c : Char) :
    (left.union right).contains c = (left.contains c || right.contains c) := by
  rw [Bool.eq_iff_iff, Bool.or_eq_true, contains_iff, contains_iff, contains_iff, union,
    covers_normalize_iff, covers_append_iff]

theorem contains_inter (leftSpaced : Spaced left.ranges) (rightSpaced : Spaced right.ranges)
    (c : Char) : (left.inter right).contains c = (left.contains c && right.contains c) := by
  rw [Bool.eq_iff_iff, Bool.and_eq_true, contains_iff, contains_iff, contains_iff, inter,
    covers_meet_iff leftSpaced rightSpaced]

theorem isCanonical_univ : univ.IsCanonical where
  solid := isSolid_univ
  spaced := Spaced.cons (by decide) (by decide) (Spaced.singleton (by decide))

theorem contains_univ (c : Char) : univ.contains c = true := by
  rw [contains_iff, covers_univ_iff]
  exact c.valid

theorem contains_ofRanges (ranges : List Interval) (c : Char) :
    (ofRanges ranges).contains c = ranges.any (·.contains c.toNat) := by
  have spaced : Spaced (CharSet.mk (normalize ranges)).ranges := spaced_normalize ranges
  have normalized : (CharSet.mk (normalize ranges)).contains c =
      (CharSet.mk ranges).contains c := by
    rw [Bool.eq_iff_iff, contains_iff, contains_iff, covers_normalize_iff]
  rw [ofRanges, contains_inter spaced isCanonical_univ.spaced, contains_univ, Bool.and_true,
    normalized]
  rfl

theorem spaced_gaps (spaced : Spaced set.ranges) : Spaced (gapsAux 0 set.ranges) :=
  (spaced_gapsAux spaced fun range _ => Nat.zero_le range.low).1

theorem contains_compl (spaced : Spaced set.ranges) (c : Char) :
    set.compl.contains c = !set.contains c := by
  have inUniverse : c.toNat ≤ maxCodePoint := by
    have valid : c.toNat.isValidChar := c.valid
    rw [Nat.isValidChar] at valid
    rw [maxCodePoint]
    omega
  have gaps := covers_gapsAux_iff spaced (fun range _ => Nat.zero_le range.low) inUniverse
  rw [compl, contains_inter (spaced_gaps spaced) isCanonical_univ.spaced, contains_univ,
    Bool.and_true, Bool.eq_iff_iff, contains_iff, gaps, Bool.not_eq_true', ← Bool.not_eq_true,
    contains_iff]
  exact and_iff_right (Nat.zero_le _)

/-! ## Canonical sets -/

namespace IsCanonical

theorem union (leftCanonical : left.IsCanonical) (rightCanonical : right.IsCanonical) :
    (left.union right).IsCanonical where
  solid := isSolid_union leftCanonical.solid rightCanonical.solid
  spaced := spaced_normalize _

theorem inter (leftSpaced : Spaced left.ranges) (rightCanonical : right.IsCanonical) :
    (left.inter right).IsCanonical where
  solid := isSolid_inter left rightCanonical.solid
  spaced := spaced_meet leftSpaced rightCanonical.spaced

theorem compl (canonical : set.IsCanonical) : set.compl.IsCanonical :=
  inter (spaced_gaps canonical.spaced) isCanonical_univ

theorem ofRanges (ranges : List Interval) : (ofRanges ranges).IsCanonical :=
  inter (spaced_normalize ranges) isCanonical_univ

theorem ofIsBuilt (built : IsBuilt set) : set.IsCanonical := by
  induction built with
  | empty => exact ⟨isSolid_empty, Spaced.nil⟩
  | univ => exact isCanonical_univ
  | union _ _ leftCanonical rightCanonical => exact leftCanonical.union rightCanonical
  | inter _ _ leftCanonical rightCanonical => exact inter leftCanonical.spaced rightCanonical
  | compl _ canonical => exact canonical.compl
  | nonSpace => exact (ofRanges _).compl
  | _ => exact ofRanges _

/-- A canonical set is determined by its members. -/
theorem eq_of_contains (leftCanonical : left.IsCanonical) (rightCanonical : right.IsCanonical)
    (same : ∀ c, left.contains c = right.contains c) : left = right := by
  have covers : ∀ point, point.isValidChar →
      (Covers left.ranges point ↔ Covers right.ranges point) := by
    intro point valid
    have members := same (Char.ofNatAux point valid)
    rw [Bool.eq_iff_iff, contains_iff, contains_iff] at members
    exact members
  have ranges : left.ranges = right.ranges := by
    apply leftCanonical.spaced.eq_of_covers rightCanonical.spaced
    intro point
    constructor
    · intro covered
      exact (covers point (isValidChar_of_covers leftCanonical.solid covered)).mp covered
    · intro covered
      exact (covers point (isValidChar_of_covers rightCanonical.solid covered)).mpr covered
  cases left
  cases right
  exact congrArg CharSet.mk ranges

end IsCanonical

/-- The operations build canonical sets only, unite, intersect and complement their
members, and obey the laws of a Boolean algebra as equations between sets. -/
theorem built_algebra (leftBuilt : IsBuilt left) (rightBuilt : IsBuilt right) :
    left.IsCanonical ∧
      (∀ ranges c, (ofRanges ranges).contains c = ranges.any (·.contains c.toNat)) ∧
        (∀ c, (left.union right).contains c = (left.contains c || right.contains c) ∧
          (left.inter right).contains c = (left.contains c && right.contains c) ∧
            left.compl.contains c = !left.contains c) ∧
          (left = right ↔ ∀ c, left.contains c = right.contains c) ∧
            left.compl.compl = left ∧
              (left.union right).compl = left.compl.inter right.compl ∧
                (left.inter right).compl = left.compl.union right.compl := by
  have l := IsCanonical.ofIsBuilt leftBuilt
  have r := IsCanonical.ofIsBuilt rightBuilt
  have both : (left.inter right).IsCanonical := IsCanonical.inter l.spaced r
  have outside : (left.compl.inter right.compl).IsCanonical :=
    IsCanonical.inter l.compl.spaced r.compl
  refine ⟨l, contains_ofRanges, ?_, ?_, ?_, ?_, ?_⟩
  · intro c
    exact ⟨contains_union left right c, contains_inter l.spaced r.spaced c,
      contains_compl l.spaced c⟩
  · exact ⟨fun same c => by rw [same], l.eq_of_contains r⟩
  · apply l.compl.compl.eq_of_contains l
    intro c
    rw [contains_compl l.compl.spaced, contains_compl l.spaced, Bool.not_not]
  · apply (l.union r).compl.eq_of_contains outside
    intro c
    rw [contains_compl (l.union r).spaced, contains_union, Bool.not_or,
      contains_inter l.compl.spaced r.compl.spaced, contains_compl l.spaced,
      contains_compl r.spaced]
  · apply both.compl.eq_of_contains (l.compl.union r.compl)
    intro c
    rw [contains_compl both.spaced, contains_inter l.spaced r.spaced, Bool.not_and,
      contains_union, contains_compl l.spaced, contains_compl r.spaced]

/-- Ranges out of order, one of them reversed and one around the surrogates. -/
def jumbledRanges : List Interval := [⟨0xD000, 0xE000⟩, ⟨57, 48⟩, ⟨97, 122⟩, ⟨90, 96⟩]

theorem jumbledRanges_nonSpace_algebra :
    IsBuilt (ofRanges jumbledRanges) ∧ IsBuilt nonSpace ∧ (ofRanges jumbledRanges).IsCanonical ∧
      (ofRanges jumbledRanges).contains 'z' = true ∧
        (ofRanges jumbledRanges).contains '5' = false ∧
          ((ofRanges jumbledRanges).inter nonSpace).compl =
            (ofRanges jumbledRanges).compl.union nonSpace.compl := by
  have algebra := built_algebra (IsBuilt.ofRanges jumbledRanges) IsBuilt.nonSpace
  obtain ⟨canonical, members, -, -, -, -, deMorgan⟩ := algebra
  refine ⟨.ofRanges _, .nonSpace, canonical, ?_, ?_, deMorgan⟩
  · rw [members]
    decide
  · rw [members]
    decide

end BodyContract.CharSet
