import Mathlib
import BodyContract.Json.Basic

/-!
# The values of binary numbers

`Binary.toRat` is the rational number that a binary number stands for.  Two
binary numbers compare as equal exactly if they stand for the same one, however
they are written.
-/

namespace BodyContract

theorem cast_twoTo (exponent : Nat) : (twoTo exponent : ℚ) = 2 ^ exponent := by
  rw [twoTo, Nat.pow_eq, Nat.cast_pow, Nat.cast_ofNat]

namespace Binary

def toRat (number : Binary) : ℚ :=
  (if number.isNegative then -1 else 1) * number.mantissa * 2 ^ number.exponent

/-- The number of units is the value divided by the size of a unit. -/
theorem cast_inUnits (number : Binary) {exponent : Int} (below : exponent ≤ number.exponent) :
    (number.inUnits exponent : ℚ) * 2 ^ exponent = number.toRat := by
  obtain ⟨shift, same⟩ := Int.eq_ofNat_of_zero_le (Int.sub_nonneg_of_le below)
  have power : (2 : ℚ) ^ number.exponent = 2 ^ shift * 2 ^ exponent := by
    rw [← zpow_natCast, ← zpow_add₀ two_ne_zero]
    congr 1
    omega
  rw [inUnits, toRat, same, Int.toNat_natCast, power]
  split
  · push_cast [cast_twoTo]
    ring
  · push_cast [cast_twoTo]
    ring

theorem compare_eq_iff (left right : Binary) :
    left.compare right = .eq ↔ left.toRat = right.toRat := by
  have unit : (2 : ℚ) ^ min left.exponent right.exponent ≠ 0 := zpow_ne_zero _ two_ne_zero
  rw [compare, Std.LawfulEqCmp.compare_eq_iff_eq,
    ← left.cast_inUnits (Int.min_le_left left.exponent right.exponent),
    ← right.cast_inUnits (Int.min_le_right left.exponent right.exponent),
    mul_left_inj' unit, Int.cast_inj]

end Binary

namespace Number

/-- Equal numbers compare alike with every other one. -/
theorem compare_eq_of_same {left right other : Number} (same : left.same right = true)
    (equal : left.compare other = .eq) : right.compare other = .eq := by
  cases left with
  | int value =>
      cases right with
      | int equalValue =>
          rw [Number.same, beq_iff_eq] at same
          rw [← same]
          exact equal
      | float equalValue => cases same
  | float value =>
      cases right with
      | int equalValue => cases same
      | float equalValue =>
          rw [Number.same, Binary.equals, beq_iff_eq, Binary.compare_eq_iff] at same
          rw [Number.compare, Binary.compare_eq_iff] at equal ⊢
          · exact same.symm.trans equal
          · intro _ _ impossible
            cases impossible
          · intro _ _ impossible
            cases impossible

end Number

end BodyContract
