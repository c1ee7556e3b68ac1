import BodyContract.Number.Shortest
import BodyContract.Proofs.Number.Canonical

/-!
# The shortest decimal tells a number

What is rounded to a binary number is an interval around it.  The intervals of
two numbers have nothing in common, not even an end, since only even numbers own
their ends.  The search for the shortest decimal always finds one in the
interval: the last of its grids is finer than half of the interval is wide.
-/

namespace BodyContract

theorem cast_tenTo (exponent : Nat) : (tenTo exponent : ℚ) = 10 ^ exponent := by
  rw [tenTo, Nat.pow_eq, Nat.cast_pow, Nat.cast_ofNat]

theorem cast_tenTo_toNat {exponent : Int} (notNegative : 0 ≤ exponent) :
    (tenTo exponent.toNat : ℚ) = 10 ^ exponent := by
  rw [cast_tenTo, ← zpow_natCast, Int.toNat_of_nonneg notNegative]

namespace Binary

/-! ## Grids -/

def ratio (fraction : Nat × Nat) : ℚ := fraction.1 / fraction.2

theorem quarters_pos (mantissaQuarters : Nat) (exponent : Int) :
    0 < (quarters mantissaQuarters exponent).2 := by
  rw [quarters]
  split
  · exact Nat.succ_pos 3
  · exact Nat.mul_pos (by decide) (twoTo_pos _)

theorem ratio_quarters (mantissaQuarters : Nat) (exponent : Int) :
    ratio (quarters mantissaQuarters exponent) = mantissaQuarters / 4 * 2 ^ exponent := by
  rw [quarters]
  split
  · rename_i notNegative
    rw [ratio]
    push_cast [cast_twoTo_toNat notNegative]
    ring
  · rename_i negative
    rw [ratio]
    push_cast [cast_twoTo_toNat (Int.neg_nonneg_of_nonpos (Int.le_of_not_le negative))]
    rw [zpow_neg]
    field_simp

theorem compareGrid_eq (units : Nat) (power : Int) {fraction : Nat × Nat}
    (positive : 0 < fraction.2) :
    compareGrid units power fraction = cmp ((units : ℚ) * 10 ^ power) (ratio fraction) := by
  have positive' : (0 : ℚ) < fraction.2 := Nat.cast_pos.mpr positive
  have ofNat : ∀ left right : Nat, Ord.compare left right = cmp (left : ℚ) (right : ℚ) := by
    intro left right
    rw [← cmp_eq_compare]
    exact (Nat.strictMono_cast.cmp_map_eq left right).symm
  rw [compareGrid]
  split
  · rename_i notNegative
    rw [ofNat, ← cmp_mul_pos_right positive' _ (ratio fraction), ratio,
      div_mul_cancel₀ _ positive'.ne']
    push_cast [cast_tenTo_toNat notNegative]
    rfl
  · rename_i negative
    have unit : (0 : ℚ) < 10 ^ (-power) := by positivity
    have left : (units : ℚ) * 10 ^ power * (fraction.2 * 10 ^ (-power)) =
        (units * fraction.2 : Nat) := by
      rw [zpow_neg]
      push_cast
      field_simp
    have right : ratio fraction * (fraction.2 * 10 ^ (-power)) =
        (fraction.1 * tenTo (-power).toNat : Nat) := by
      have notNegative : 0 ≤ -power := Int.neg_nonneg_of_nonpos (Int.le_of_not_le negative)
      rw [ratio]
      push_cast [cast_tenTo_toNat notNegative]
      rw [← mul_assoc, div_mul_cancel₀ _ positive'.ne']
    rw [ofNat, ← cmp_mul_pos_right (mul_pos positive' unit) ((units : ℚ) * 10 ^ power), left, right]

namespace RoundingInterval

/-- Whether the ends of an interval stand around its value. -/
structure IsProper (interval : RoundingInterval) : Prop where
  value_pos : 0 < interval.value.2
  low_pos : 0 < interval.low.2
  high_pos : 0 < interval.high.2
  low_lt : ratio interval.low < ratio interval.value
  lt_high : ratio interval.value < ratio interval.high

variable {interval : RoundingInterval} {units : Nat} {power : Int}

theorem contains_of_lt (proper : interval.IsProper)
    (above : ratio interval.low < units * 10 ^ power)
    (below : units * 10 ^ power < ratio interval.high) : interval.contains units power = true := by
  rw [contains, compareGrid_eq units power proper.low_pos,
    compareGrid_eq units power proper.high_pos, (cmp_eq_gt_iff _ _).mpr above, (cmp_eq_lt_iff _ _).mpr below]

/-- Whether a number is between the ends of an interval, or one of them if the
interval owns them. -/
structure Covers (interval : RoundingInterval) (amount : ℚ) : Prop where
  low_le : ratio interval.low ≤ amount
  le_high : amount ≤ ratio interval.high
  low_lt : interval.isClosed = false → ratio interval.low < amount
  lt_high : interval.isClosed = false → amount < ratio interval.high

theorem covers_of_contains (proper : interval.IsProper)
    (contained : interval.contains units power = true) :
    interval.Covers (units * 10 ^ power) := by
  have ends := proper.low_lt.trans proper.lt_high
  rw [contains, compareGrid_eq units power proper.low_pos,
    compareGrid_eq units power proper.high_pos] at contained
  split at contained
  · rename_i above below
    rw [cmp_eq_gt_iff] at above
    rw [cmp_eq_lt_iff] at below
    exact ⟨above.le, below.le, fun _ => above, fun _ => below⟩
  · rename_i isLow
    rw [cmp_eq_eq_iff] at isLow
    have notOpen : interval.isClosed ≠ false := by simp [contained]
    exact ⟨isLow.ge, isLow.le.trans ends.le, fun isOpen => absurd isOpen notOpen,
      fun isOpen => absurd isOpen notOpen⟩
  · rename_i isHigh _
    rw [cmp_eq_eq_iff] at isHigh
    have notOpen : interval.isClosed ≠ false := by simp [contained]
    exact ⟨ends.le.trans isHigh.ge, isHigh.le, fun isOpen => absurd isOpen notOpen,
      fun isOpen => absurd isOpen notOpen⟩
  · cases contained

/-- The lower neighbour of the value on a grid. -/
theorem exists_neighbour (proper : interval.IsProper) (power : Int) :
    ∃ lower : Nat, (lower : ℚ) * 10 ^ power ≤ ratio interval.value ∧
      ratio interval.value < (lower + 1 : Nat) * 10 ^ power ∧
        interval.onGrid? power =
          match interval.contains lower power, interval.contains (lower + 1) power with
          | true, true => some (if interval.prefersLower lower power then lower else lower + 1)
          | true, false => some lower
          | false, true => some (lower + 1)
          | false, false => none := by
  have positive : (0 : ℚ) < interval.value.2 := Nat.cast_pos.mpr proper.value_pos
  have unit : (0 : ℚ) < 10 ^ power := by positivity
  have quotient : ∀ {numerator denominator : Nat}, 0 < denominator →
      (numerator : ℚ) / denominator * 10 ^ power = ratio interval.value →
        ((numerator / denominator : Nat) : ℚ) * 10 ^ power ≤ ratio interval.value ∧
          ratio interval.value < (numerator / denominator + 1 : Nat) * 10 ^ power := by
    intro numerator denominator notZero same
    have notZero' : (0 : ℚ) < denominator := Nat.cast_pos.mpr notZero
    rw [← same]
    constructor
    · exact mul_le_mul_of_nonneg_right Nat.cast_div_le unit.le
    · apply mul_lt_mul_of_pos_right _ unit
      rw [div_lt_iff₀ notZero']
      exact_mod_cast Nat.lt_mul_of_div_lt (Nat.lt_succ_self _) notZero
  refine ⟨_, ?_, ?_, rfl⟩
  -- the power of ten stands in the denominator or in the numerator, by its sign
  all_goals split
  · rename_i notNegative
    refine (quotient (Nat.mul_pos proper.value_pos (tenTo_pos _)) ?_).1
    push_cast [cast_tenTo_toNat notNegative]
    rw [ratio]
    field_simp
  · rename_i negative
    refine (quotient proper.value_pos ?_).1
    push_cast [cast_tenTo_toNat (Int.neg_nonneg_of_nonpos (Int.le_of_not_le negative))]
    rw [ratio, zpow_neg]
    field_simp
  · rename_i notNegative
    refine (quotient (Nat.mul_pos proper.value_pos (tenTo_pos _)) ?_).2
    push_cast [cast_tenTo_toNat notNegative]
    rw [ratio]
    field_simp
  · rename_i negative
    refine (quotient proper.value_pos ?_).2
    push_cast [cast_tenTo_toNat (Int.neg_nonneg_of_nonpos (Int.le_of_not_le negative))]
    rw [ratio, zpow_neg]
    field_simp

theorem contains_of_onGrid? (found : interval.onGrid? power = some units) :
    interval.contains units power = true := by
  have chosen : ∀ lower,
      (match interval.contains lower power, interval.contains (lower + 1) power with
      | true, true => some (if interval.prefersLower lower power then lower else lower + 1)
      | true, false => some lower
      | false, true => some (lower + 1)
      | false, false => none) = some units → interval.contains units power = true := by
    intro lower found
    split at found
    · rename_i isLower isUpper
      cases found
      split
      · exact isLower
      · exact isUpper
    · rename_i isLower _
      cases found
      exact isLower
    · rename_i _ isUpper
      cases found
      exact isUpper
    · cases found
  exact chosen _ found

/-- A grid that is finer than half of the interval is wide has a decimal in it. -/
theorem exists_onGrid? (proper : interval.IsProper)
    (fine : ratio interval.value + 10 ^ power < ratio interval.high) :
    ∃ units, interval.onGrid? power = some units := by
  obtain ⟨lower, below, above, same⟩ := exists_neighbour proper power
  have upper : interval.contains (lower + 1) power = true := by
    apply contains_of_lt proper (proper.low_lt.trans above)
    push_cast
    linarith
  rw [same, upper]
  cases interval.contains lower power with
  | true => exact ⟨_, rfl⟩
  | false => exact ⟨_, rfl⟩

/-- The search finds what is on one of its grids. -/
theorem contains_searchAux {fuel : Nat} {start : Int}
    (hits : ∃ step < fuel, ∃ units, interval.onGrid? (start - step) = some units) :
    interval.contains (interval.searchAux fuel start).1 (interval.searchAux fuel start).2 =
      true := by
  induction fuel generalizing start with
  | zero =>
      obtain ⟨step, impossible, -⟩ := hits
      exact absurd impossible (Nat.not_lt_zero step)
  | succ fuel inductionHypothesis =>
      rw [searchAux]
      cases found : interval.onGrid? start with
      | some units => exact contains_of_onGrid? found
      | none =>
          apply inductionHypothesis
          obtain ⟨step, isStep, units, later⟩ := hits
          cases step with
          | zero =>
              rw [Int.natCast_zero, Int.sub_zero, found] at later
              cases later
          | succ step =>
              refine ⟨step, Nat.lt_of_succ_lt_succ isStep, units, ?_⟩
              have same : start - 1 - step = start - (step + 1 : Nat) := by
                push_cast
                ring
              rw [same]
              exact later

end RoundingInterval

/-! ## The intervals of two numbers -/

open RoundingInterval

section Numbers

variable {number left right : Binary} {amount : ℚ}

theorem ratio_ofBinary_value (number : Binary) :
    ratio (RoundingInterval.ofBinary number).value = number.mantissa * 2 ^ number.exponent := by
  have same : (RoundingInterval.ofBinary number).value =
    quarters (number.mantissa * 4) number.exponent := rfl
  rw [same, ratio_quarters]
  push_cast
  ring

theorem ratio_ofBinary_high (number : Binary) :
    ratio (RoundingInterval.ofBinary number).high =
      (number.mantissa + 1 / 2) * 2 ^ number.exponent := by
  have same : (RoundingInterval.ofBinary number).high =
    quarters (number.mantissa * 4 + 2) number.exponent := rfl
  rw [same, ratio_quarters]
  push_cast
  ring

/-- The lower end is a half below the number, or a quarter below the least
number with its exponent. -/
theorem ratio_ofBinary_low (positive : 0 < number.mantissa) :
    ratio (RoundingInterval.ofBinary number).low =
      (number.mantissa - if number.mantissa = twoTo 52 ∧ -1074 < number.exponent then 1 / 4
        else 1 / 2) * 2 ^ number.exponent := by
  have same : (RoundingInterval.ofBinary number).low = quarters (number.mantissa * 4 -
    (if number.mantissa == twoTo 52 && decide (-1074 < number.exponent) then 1 else 2))
      number.exponent := rfl
  rw [same, ratio_quarters]
  simp only [Bool.and_eq_true, beq_iff_eq, decide_eq_true_eq]
  split
  · rw [Nat.cast_sub (by omega)]
    push_cast
    ring
  · rw [Nat.cast_sub (by omega)]
    push_cast
    ring

theorem isClosed_ofBinary (number : Binary) :
    (RoundingInterval.ofBinary number).isClosed = (number.mantissa % 2 == 0) := rfl

theorem isProper_ofBinary (positive : 0 < number.mantissa) :
    (RoundingInterval.ofBinary number).IsProper := by
  have unit : (0 : ℚ) < 2 ^ number.exponent := by positivity
  refine ⟨quarters_pos _ _, quarters_pos _ _, quarters_pos _ _, ?_, ?_⟩
  · rw [ratio_ofBinary_low positive, ratio_ofBinary_value]
    apply mul_lt_mul_of_pos_right _ unit
    split <;> linarith
  · rw [ratio_ofBinary_high, ratio_ofBinary_value]
    apply mul_lt_mul_of_pos_right _ unit
    linarith

theorem le_ratio_ofBinary_low (positive : 0 < number.mantissa) :
    (number.mantissa - 1 / 2) * 2 ^ number.exponent ≤
      ratio (RoundingInterval.ofBinary number).low := by
  have unit : (0 : ℚ) < 2 ^ number.exponent := by positivity
  rw [ratio_ofBinary_low positive]
  apply mul_le_mul_of_nonneg_right _ unit.le
  split <;> linarith

/-- Numbers with one exponent round nothing in common. -/
theorem not_covers_of_lt_mantissa (leftPositive : 0 < left.mantissa)
    (less : left.mantissa < right.mantissa) (same : left.exponent = right.exponent)
    (inLeft : (RoundingInterval.ofBinary left).Covers amount)
    (inRight : (RoundingInterval.ofBinary right).Covers amount) : False := by
  have rightPositive : 0 < right.mantissa := leftPositive.trans less
  have unit : (0 : ℚ) < 2 ^ right.exponent := by positivity
  have below := inLeft.le_high
  have leftOpen := inLeft.lt_high
  have above := inRight.low_le
  have rightOpen := inRight.low_lt
  have low := le_ratio_ofBinary_low rightPositive
  rw [ratio_ofBinary_high, same] at below leftOpen
  rcases Nat.eq_or_lt_of_le less with next | further
  · -- neighbours share an end, which only the even one owns
    have middle : ((left.mantissa : ℚ) + 1 / 2) * 2 ^ right.exponent =
        (right.mantissa - 1 / 2) * 2 ^ right.exponent := by
      rw [← next]
      push_cast
      ring
    rw [isClosed_ofBinary] at leftOpen rightOpen
    rcases Nat.mod_two_eq_zero_or_one left.mantissa with even | odd
    · have rightOdd : right.mantissa % 2 = 1 := by omega
      have strict := rightOpen (by rw [rightOdd]; rfl)
      linarith
    · have strict := leftOpen (by rw [odd]; rfl)
      linarith
  · have apart : ((left.mantissa : ℚ) + 1 / 2) * 2 ^ right.exponent <
        (right.mantissa - 1 / 2) * 2 ^ right.exponent := by
      apply mul_lt_mul_of_pos_right _ unit
      have gap : (left.mantissa : ℚ) + 1 + 1 ≤ right.mantissa := by exact_mod_cast further
      linarith
    linarith

/-- Numbers with different exponents round nothing in common. -/
theorem not_covers_of_lt_exponent (leftCanonical : left.IsCanonical .double)
    (rightCanonical : right.IsCanonical .double) (leftPositive : 0 < left.mantissa)
    (rightPositive : 0 < right.mantissa) (less : left.exponent < right.exponent)
    (inLeft : (RoundingInterval.ofBinary left).Covers amount)
    (inRight : (RoundingInterval.ofBinary right).Covers amount) : False := by
  have below := inLeft.le_high
  have leftOpen := inLeft.lt_high
  have above := inRight.low_le
  have unit : (0 : ℚ) < 2 ^ left.exponent := by positivity
  -- a unit of the right number is at least two of the left one
  have twice : 2 * (2 : ℚ) ^ left.exponent ≤ 2 ^ right.exponent := by
    rw [← zpow_one_add₀ two_ne_zero]
    exact zpow_le_zpow_right₀ one_le_two (by omega)
  have bits : twoTo 53 = 9007199254740992 ∧ twoTo 52 = 4503599627370496 := ⟨rfl, rfl⟩
  obtain ⟨leftShort, leftLeast⟩ : left.mantissa < twoTo 53 ∧ -1074 ≤ left.exponent := by
    rcases leftCanonical with ⟨zero, -⟩ | ⟨-, short, least, -⟩
    · omega
    · exact ⟨short, least⟩
  have rightFull : twoTo 52 ≤ right.mantissa := by
    rcases rightCanonical with ⟨zero, -⟩ | ⟨-, -, -, full | isLeast⟩
    · omega
    · exact full
    · have same : right.exponent = -1074 := isLeast
      omega
  have leftShort' : (left.mantissa : ℚ) + 1 ≤ 9007199254740992 := by
    rw [bits.1] at leftShort
    exact_mod_cast leftShort
  rw [ratio_ofBinary_high] at below leftOpen
  rcases Nat.eq_or_lt_of_le rightFull with least | further
  · have low : ratio (RoundingInterval.ofBinary right).low =
        (4503599627370496 - 1 / 4) * 2 ^ right.exponent := by
      rw [ratio_ofBinary_low rightPositive, if_pos ⟨least.symm, by omega⟩, ← least, bits.2]
      push_cast
      rfl
    rw [low] at above
    -- the left number is the greatest with its exponent, so it is odd
    have greatest : ¬ left.mantissa + 2 ≤ 9007199254740992 := by
      intro smaller
      have smaller' : (left.mantissa : ℚ) + 2 ≤ 9007199254740992 := by exact_mod_cast smaller
      have high : ((left.mantissa : ℚ) + 1 / 2) * 2 ^ left.exponent ≤
          (9007199254740992 - 3 / 2) * 2 ^ left.exponent :=
        mul_le_mul_of_nonneg_right (by linarith) unit.le
      linarith
    have odd : left.mantissa % 2 = 1 := by omega
    rw [isClosed_ofBinary, odd] at leftOpen
    have strict := leftOpen rfl
    have high : ((left.mantissa : ℚ) + 1 / 2) * 2 ^ left.exponent ≤
        (9007199254740992 - 1 / 2) * 2 ^ left.exponent :=
      mul_le_mul_of_nonneg_right (by linarith) unit.le
    linarith
  · have low := le_ratio_ofBinary_low rightPositive
    have further' : (4503599627370496 : ℚ) + 1 ≤ right.mantissa := by
      rw [bits.2] at further
      exact_mod_cast further
    have rightUnit : (0 : ℚ) < 2 ^ right.exponent := by positivity
    have high : ((left.mantissa : ℚ) + 1 / 2) * 2 ^ left.exponent ≤
        (9007199254740992 - 1 / 2) * 2 ^ left.exponent :=
      mul_le_mul_of_nonneg_right (by linarith) unit.le
    have lowest : ((4503599627370496 : ℚ) + 1 / 2) * 2 ^ right.exponent ≤
        (right.mantissa - 1 / 2) * 2 ^ right.exponent :=
      mul_le_mul_of_nonneg_right (by linarith) rightUnit.le
    linarith

/-- Nothing is rounded to two numbers. -/
theorem eq_of_covers (leftCanonical : left.IsCanonical .double)
    (rightCanonical : right.IsCanonical .double) (leftPositive : 0 < left.mantissa)
    (rightPositive : 0 < right.mantissa)
    (inLeft : (RoundingInterval.ofBinary left).Covers amount)
    (inRight : (RoundingInterval.ofBinary right).Covers amount) :
    left.mantissa = right.mantissa ∧ left.exponent = right.exponent := by
  rcases lt_trichotomy left.exponent right.exponent with less | same | greater
  · exact (not_covers_of_lt_exponent leftCanonical rightCanonical leftPositive rightPositive less
      inLeft inRight).elim
  · rcases lt_trichotomy left.mantissa right.mantissa with less | equal | greater
    · exact (not_covers_of_lt_mantissa leftPositive less same inLeft inRight).elim
    · exact ⟨equal, same⟩
    · exact (not_covers_of_lt_mantissa rightPositive greater same.symm inRight inLeft).elim
  · exact (not_covers_of_lt_exponent rightCanonical leftCanonical rightPositive leftPositive
      greater inRight inLeft).elim

end Numbers

end Binary

end BodyContract
