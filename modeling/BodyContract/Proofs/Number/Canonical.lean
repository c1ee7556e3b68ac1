import BodyContract.Proofs.Number.Values

/-!
# Results of rounding are canonical

A value of a format can be written in one way only: zero with the exponent zero,
and any other number with a mantissa of full length, unless its exponent is the
least one.  Rounding gives numbers of this form, and so does reading a numeral.
-/

namespace BodyContract

theorem cast_twoTo_toNat {exponent : Int} (notNegative : 0 ≤ exponent) :
    (twoTo exponent.toNat : ℚ) = 2 ^ exponent := by
  rw [cast_twoTo, ← zpow_natCast, Int.toNat_of_nonneg notNegative]

namespace Binary

/-- Whether a number is written in the form that is its own in a format. -/
def IsCanonical (precision : Precision) (number : Binary) : Prop :=
  number.mantissa = 0 ∧ number.exponent = 0 ∨
    0 < number.mantissa ∧ number.mantissa < twoTo precision.bits ∧
      precision.leastExponent ≤ number.exponent ∧
        (twoTo (precision.bits - 1) ≤ number.mantissa ∨ number.exponent = precision.leastExponent)

theorem isCanonical_zero (precision : Precision) (isNegative : Bool) :
    (zero isNegative).IsCanonical precision := Or.inl ⟨rfl, rfl⟩

theorem IsCanonical.neg {precision : Precision} {number : Binary}
    (canonical : number.IsCanonical precision) : number.neg.IsCanonical precision := canonical

/-! ## Rounding to whole numbers -/

section Rounding

variable {numerator denominator bound : Nat} {exponent : Int}

/-- A quotient that is not above a whole number is not rounded above it. -/
theorem roundQuotient_le (positive : 0 < denominator) (below : numerator ≤ bound * denominator) :
    roundQuotient numerator denominator ≤ bound := by
  have floor_le : numerator / denominator ≤ bound := Nat.div_le_of_le_mul (by
    rw [Nat.mul_comm]
    exact below)
  rw [roundQuotient]
  split
  · rename_i up
    -- the quotient is rounded up only if it is not whole
    have notWhole : numerator % denominator ≠ 0 := by
      intro whole
      simp [whole, positive.ne] at up
    have parts := Nat.div_add_mod numerator denominator
    rcases Nat.lt_or_eq_of_le floor_le with smaller | same
    · exact smaller
    · rw [same, Nat.mul_comm] at parts
      omega
  · exact floor_le

/-- A quotient that is not below a whole number is not rounded below it. -/
theorem le_roundQuotient (positive : 0 < denominator) (above : bound * denominator ≤ numerator) :
    bound ≤ roundQuotient numerator denominator := by
  have le_floor : bound ≤ numerator / denominator := (Nat.le_div_iff_mul_le positive).mpr above
  rw [roundQuotient]
  split
  · exact le_floor.trans (Nat.le_succ _)
  · exact le_floor

theorem roundUnits_le (positive : 0 < denominator)
    (below : (numerator : ℚ) / denominator ≤ bound * 2 ^ exponent) :
    roundUnits numerator denominator exponent ≤ bound := by
  have positive' : (0 : ℚ) < denominator := Nat.cast_pos.mpr positive
  have unit : (0 : ℚ) < 2 ^ exponent := by positivity
  rw [div_le_iff₀ positive'] at below
  rw [roundUnits]
  split
  · rename_i notNegative
    apply roundQuotient_le (Nat.mul_pos positive (twoTo_pos _))
    rw [← Nat.cast_le (α := ℚ)]
    push_cast [cast_twoTo_toNat notNegative]
    linarith
  · rename_i negative
    apply roundQuotient_le positive
    rw [← Nat.cast_le (α := ℚ)]
    push_cast [cast_twoTo_toNat (Int.neg_nonneg_of_nonpos (Int.le_of_not_le negative))]
    rw [zpow_neg, mul_inv_le_iff₀ unit]
    linarith

theorem le_roundUnits (positive : 0 < denominator)
    (above : bound * 2 ^ exponent ≤ (numerator : ℚ) / denominator) :
    bound ≤ roundUnits numerator denominator exponent := by
  have positive' : (0 : ℚ) < denominator := Nat.cast_pos.mpr positive
  have unit : (0 : ℚ) < 2 ^ exponent := by positivity
  rw [le_div_iff₀ positive'] at above
  rw [roundUnits]
  split
  · rename_i notNegative
    apply le_roundQuotient (Nat.mul_pos positive (twoTo_pos _))
    rw [← Nat.cast_le (α := ℚ)]
    push_cast [cast_twoTo_toNat notNegative]
    linarith
  · rename_i negative
    apply le_roundQuotient positive
    rw [← Nat.cast_le (α := ℚ)]
    push_cast [cast_twoTo_toNat (Int.neg_nonneg_of_nonpos (Int.le_of_not_le negative))]
    rw [zpow_neg, le_mul_inv_iff₀ unit]
    linarith

end Rounding

/-! ## The length of a mantissa -/

section Length

variable {bits numerator denominator : Nat}

theorem log2_bounds {value : Nat} (positive : 0 < value) :
    (2 : ℚ) ^ (value.log2 : Int) ≤ value ∧ (value : ℚ) < 2 ^ (value.log2 + 1 : Int) := by
  constructor
  · have least := Nat.log2_self_le positive.ne'
    rw [zpow_natCast]
    exact_mod_cast least
  · have greatest := @Nat.lt_log2_self value
    have same : (value.log2 + 1 : Int) = ((value.log2 + 1 : Nat) : Int) := rfl
    rw [same, zpow_natCast]
    exact_mod_cast greatest

/-- Whether a fraction reaches a power of two. -/
theorem reaches_iff (positive : 0 < denominator) (shift : Int) :
    (if 0 ≤ shift then decide (denominator * twoTo shift.toNat ≤ numerator)
      else decide (denominator ≤ numerator * twoTo (-shift).toNat)) = true ↔
      (2 : ℚ) ^ shift ≤ numerator / denominator := by
  have positive' : (0 : ℚ) < denominator := Nat.cast_pos.mpr positive
  have unit : (0 : ℚ) < 2 ^ shift := by positivity
  rw [le_div_iff₀ positive']
  split
  · rename_i notNegative
    rw [decide_eq_true_iff, ← Nat.cast_le (α := ℚ)]
    push_cast [cast_twoTo_toNat notNegative]
    rw [mul_comm]
  · rename_i negative
    rw [decide_eq_true_iff, ← Nat.cast_le (α := ℚ)]
    push_cast [cast_twoTo_toNat (Int.neg_nonneg_of_nonpos (Int.le_of_not_le negative))]
    rw [zpow_neg, le_mul_inv_iff₀ unit, mul_comm]

/-- At the full exponent the whole part of a fraction has all binary digits. -/
theorem fullExponent_bounds (numeratorPositive : 0 < numerator) (positive : 0 < denominator) :
    (2 : ℚ) ^ (fullExponent bits numerator denominator + bits - 1) ≤ numerator / denominator ∧
      (numerator : ℚ) / denominator < 2 ^ (fullExponent bits numerator denominator + bits) := by
  have positive' : (0 : ℚ) < denominator := Nat.cast_pos.mpr positive
  obtain ⟨numeratorLeast, numeratorGreatest⟩ := log2_bounds numeratorPositive
  obtain ⟨least, greatest⟩ := log2_bounds positive
  have below : (numerator : ℚ) / denominator <
      2 ^ ((numerator.log2 : Int) - denominator.log2 + 1) := by
    have same : (numerator.log2 : Int) + 1 =
        numerator.log2 - denominator.log2 + 1 + denominator.log2 := by ring
    rw [same, zpow_add₀ two_ne_zero] at numeratorGreatest
    rw [div_lt_iff₀ positive']
    exact numeratorGreatest.trans_le (mul_le_mul_of_nonneg_left least (by positivity))
  have above : (2 : ℚ) ^ ((numerator.log2 : Int) - denominator.log2 - 1) ≤
      numerator / denominator := by
    have same : (numerator.log2 : Int) =
        numerator.log2 - denominator.log2 - 1 + (denominator.log2 + 1) := by ring
    rw [same, zpow_add₀ two_ne_zero] at numeratorLeast
    rw [le_div_iff₀ positive']
    exact (mul_le_mul_of_nonneg_left greatest.le (by positivity)).trans numeratorLeast
  rw [fullExponent]
  simp only [Int.sub_add_cancel]
  have reaches := @reaches_iff numerator denominator positive
    ((numerator.log2 : Int) - denominator.log2)
  by_cases reached : (2 : ℚ) ^ ((numerator.log2 : Int) - denominator.log2) ≤
      numerator / denominator
  · have exponent : (numerator.log2 : Int) - denominator.log2 - bits + 1 + bits =
        numerator.log2 - denominator.log2 + 1 := by ring
    rw [if_pos (reaches.mpr reached), exponent, Int.add_sub_cancel]
    exact ⟨reached, below⟩
  · rw [if_neg (reaches.not.mpr reached), Int.sub_add_cancel]
    exact ⟨above, not_le.mp reached⟩

end Length

/-! ## Formats -/

section Formats

variable {precision : Precision} {isNegative : Bool} {number : Binary}

theorem isCanonical_of_ofFraction? (filled : 0 < precision.bits) {numerator denominator : Nat}
    (positive : 0 < denominator)
    (rounded : ofFraction? precision isNegative numerator denominator = some number) :
    number.IsCanonical precision := by
  rw [ofFraction?] at rounded
  split at rounded
  · cases rounded
    exact isCanonical_zero precision isNegative
  · rename_i notZero
    obtain ⟨least, greatest⟩ := @fullExponent_bounds precision.bits numerator denominator
      (Nat.pos_of_ne_zero notZero) positive
    obtain ⟨full, isFull⟩ : ∃ full, full = fullExponent precision.bits numerator denominator :=
      ⟨_, rfl⟩
    obtain ⟨exponent, isExponent⟩ : ∃ exponent, exponent = max full precision.leastExponent :=
      ⟨_, rfl⟩
    obtain ⟨units, isUnits⟩ : ∃ units, units = roundUnits numerator denominator exponent :=
      ⟨_, rfl⟩
    rw [← isFull] at least greatest rounded
    simp only [← isExponent, ← isUnits] at rounded
    have notLess : precision.leastExponent ≤ exponent := by omega
    have small : units ≤ twoTo precision.bits := by
      rw [isUnits]
      apply roundUnits_le positive
      have power : (2 : ℚ) ^ (full + precision.bits) ≤ 2 ^ (precision.bits + exponent) :=
        zpow_le_zpow_right₀ one_le_two (by omega)
      rw [zpow_add₀ two_ne_zero precision.bits, zpow_natCast, ← cast_twoTo] at power
      exact greatest.le.trans power
    have full_or_least : twoTo (precision.bits - 1) ≤ units ∨
        exponent = precision.leastExponent := by
      rcases Int.le_total full precision.leastExponent with low | high
      · exact Or.inr (by omega)
      · left
        have same : exponent = full := by omega
        rw [isUnits, same]
        apply le_roundUnits positive
        have power : (2 : ℚ) ^ (full + precision.bits - 1) =
            (twoTo (precision.bits - 1) : ℚ) * 2 ^ full := by
          rw [cast_twoTo, ← zpow_natCast, ← zpow_add₀ two_ne_zero]
          congr 1
          omega
        rw [← power]
        exact least
    split at rounded
    · cases rounded
      exact isCanonical_zero precision isNegative
    · rename_i notNone
      split at rounded
      · -- a carry leaves the least full mantissa, with the next exponent
        rename_i carry
        split at rounded
        · cases rounded
        · cases rounded
          have shorter : twoTo (precision.bits - 1) < twoTo precision.bits :=
            Nat.pow_lt_pow_right (by decide) (by omega)
          exact Or.inr ⟨twoTo_pos _, shorter, by dsimp only; omega, Or.inl le_rfl⟩
      · rename_i noCarry
        split at rounded
        · cases rounded
        · cases rounded
          exact Or.inr ⟨Nat.pos_of_ne_zero notNone, Nat.lt_of_le_of_ne small noCarry, notLess,
            full_or_least⟩

theorem isCanonical_of_ofScaled? (filled : 0 < precision.bits) {numerator denominator : Nat}
    (positive : 0 < denominator) {exponent : Int}
    (rounded : ofScaled? precision isNegative numerator denominator exponent = some number) :
    number.IsCanonical precision := by
  rw [ofScaled?] at rounded
  split at rounded
  · exact isCanonical_of_ofFraction? filled positive rounded
  · exact isCanonical_of_ofFraction? filled (Nat.mul_pos positive (twoTo_pos _)) rounded

theorem isCanonical_of_mul? {left right : Binary} (made : left.mul? right = some number) :
    number.IsCanonical .double :=
  isCanonical_of_ofScaled? (by decide) (by decide) made

theorem isCanonical_of_div? {left right : Binary} (notZero : 0 < right.mantissa)
    (made : left.div? right = some number) : number.IsCanonical .double :=
  isCanonical_of_ofScaled? (by decide) notZero made

theorem isCanonical_ofInt (value : Int) : (ofInt value).IsCanonical .double := by
  rw [ofInt]
  cases rounded : ofFraction? .double (value < 0) value.natAbs 1 with
  | none => exact isCanonical_zero .double _
  | some number => exact isCanonical_of_ofFraction? (by decide) (by decide) rounded

end Formats

end Binary

/-! ## Numerals -/

namespace Numeral

theorem powerOfTen_pos {exponent : Nat} (small : exponent ≤ 308) :
    0 < (powerOfTen exponent).mantissa := by
  have each : ∀ exponent : Fin 309, 0 < (powerOfTen exponent).mantissa := by decide +kernel
  exact each ⟨exponent, Nat.lt_succ_of_le small⟩

theorem isCanonical_of_scale {significand number : Binary} {exponent : Int}
    (canonical : significand.IsCanonical .double)
    (scaled : scale significand exponent = some number) : number.IsCanonical .double := by
  induction significand, exponent using scale.induct with
  | case1 significand exponent low zero =>
      rw [scale, if_pos low, if_pos zero] at scaled
      cases scaled
      exact canonical
  | case2 significand exponent low notZero none =>
      rw [scale, if_pos low, if_neg notZero, none] at scaled
      cases scaled
  | case3 significand exponent low notZero quotient divided inductionHypothesis =>
      rw [scale, if_pos low, if_neg notZero, divided] at scaled
      exact inductionHypothesis
        (Binary.isCanonical_of_div? (powerOfTen_pos le_rfl) divided) scaled
  | case4 significand exponent notLow negative =>
      rw [scale, if_neg notLow, if_pos negative] at scaled
      exact Binary.isCanonical_of_div? (powerOfTen_pos (by omega)) scaled
  | case5 significand exponent notLow notNegative small =>
      rw [scale, if_neg notLow, if_neg notNegative, if_pos small] at scaled
      exact Binary.isCanonical_of_mul? scaled
  | case6 significand exponent notLow notNegative notSmall zero =>
      rw [scale, if_neg notLow, if_neg notNegative, if_neg notSmall, if_pos zero] at scaled
      cases scaled
      exact canonical
  | case7 significand exponent notLow notNegative notSmall notZero =>
      rw [scale, if_neg notLow, if_neg notNegative, if_neg notSmall, if_neg notZero] at scaled
      cases scaled

theorem isCanonical_of_toBinary? {numeral : Numeral} {number : Binary}
    (read : numeral.toBinary? = some number) : number.IsCanonical .double := by
  rw [toBinary?] at read
  obtain ⟨magnitude, scaled, same⟩ := Option.map_eq_some_iff.mp read
  have canonical : magnitude.IsCanonical .double := by
    split at scaled
    · exact isCanonical_of_scale (Binary.isCanonical_ofInt _) scaled
    · dsimp only at scaled
      split at scaled
      · split at scaled
        · cases scaled
        · cases scaled
          exact Binary.isCanonical_zero .double false
      · exact isCanonical_of_scale (Binary.isCanonical_ofInt _) scaled
  rw [← same]
  split
  · exact canonical.neg
  · exact canonical

end Numeral

namespace Number

/-- Whether a floating-point number is written in its own form. -/
def IsCanonical : Number → Prop
  | .int _ => True
  | .float value => value.IsCanonical .double

end Number

theorem Numeral.isCanonical_of_toNumber? {numeral : Numeral} {number : Number}
    (read : numeral.toNumber? = some number) : number.IsCanonical := by
  have ofBinary : numeral.toBinary?.map Number.float = some number → number.IsCanonical := by
    intro read
    obtain ⟨value, isValue, same⟩ := Option.map_eq_some_iff.mp read
    rw [← same]
    exact isCanonical_of_toBinary? isValue
  rw [toNumber?] at read
  dsimp only at read
  repeat' split at read
  · cases read
    exact Binary.isCanonical_zero .double true
  · cases read
    exact trivial
  · exact ofBinary read
  · cases read
    exact trivial
  · exact ofBinary read
  · exact ofBinary read

end BodyContract
