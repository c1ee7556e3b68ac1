import BodyContract.Proofs.Number.Shortest
import BodyContract.Proofs.Path.Readability
import BodyContract.Recording.JavaLiteral

/-!
# The text of a number tells the number

The shortest decimal of a floating-point number is in its interval, and its text
tells the value of the decimal, in full and with an exponent.  So numbers with
the same text are the same.
-/

namespace BodyContract

namespace Numeral

theorem value_append (front back : List Char) :
    value (front ++ back) = value front * tenTo back.length + value back := by
  have from_ : ∀ total, valueFrom total back = total * tenTo back.length + valueFrom 0 back := by
    induction back with
    | nil =>
        intro total
        simp [valueFrom]
    | cons digit rest inductionHypothesis =>
        intro total
        have step : ∀ start, valueFrom start (digit :: rest) =
          valueFrom (start * 10 + digitValue digit) rest := fun _ => rfl
        rw [step, step, inductionHypothesis (total * 10 + digitValue digit),
          inductionHypothesis (0 * 10 + digitValue digit), List.length_cons, tenTo_succ]
        ring
  have whole : value (front ++ back) = valueFrom (value front) back := List.foldl_append
  rw [whole, from_]
  rfl

theorem value_zeros (count : Nat) : value (List.replicate count '0') = 0 := by
  induction count with
  | zero => rfl
  | succ count inductionHypothesis =>
      rw [List.replicate_succ', value_append, inductionHypothesis]
      rfl

end Numeral

open Numeral

namespace DecimalDigits

/-- The number that a decimal stands for. -/
def toRat (decimal : DecimalDigits) : ℚ :=
  value decimal.digits * 10 ^ (decimal.exponent + 1 - decimal.digits.length)

/-- A decimal in full is a whole part and a fraction that together are its value. -/
theorem exists_plain_eq {decimal : DecimalDigits}
    (digits : ∀ c ∈ decimal.digits, c.isDigit = true) :
    ∃ whole fraction, decimal.plain = whole ++ '.' :: fraction ∧
      (∀ c ∈ whole, c.isDigit = true) ∧ (∀ c ∈ fraction, c.isDigit = true) ∧
        decimal.toRat = value (whole ++ fraction) / 10 ^ fraction.length := by
  have zeros : ∀ count, ∀ c ∈ List.replicate count '0', c.isDigit = true := by
    intro count c member
    rw [List.eq_of_mem_replicate member]
    decide
  have oneZero : ∀ c ∈ ['0'], c.isDigit = true := zeros 1
  obtain ⟨all, exponent⟩ := decimal
  rw [plain]
  by_cases negative : exponent < 0
  · refine ⟨['0'], List.replicate (exponent.natAbs - 1) '0' ++ all, ?_, ?_, ?_, ?_⟩
    · simp only [if_pos negative]
      rfl
    · exact oneZero
    · intro c member
      rcases List.mem_append.mp member with zero | digit
      · exact zeros _ c zero
      · exact digits c digit
    · have amount : value (['0'] ++ (List.replicate (exponent.natAbs - 1) '0' ++ all)) =
          value all := by
        rw [value_append, value_append, value_zeros]
        have zero : value ['0'] = 0 := rfl
        rw [zero]
        ring
      have power : (exponent + 1 - all.length : Int) =
          -((exponent.natAbs - 1 + all.length : Nat) : Int) := by omega
      rw [toRat, amount, List.length_append, List.length_replicate, div_eq_mul_inv]
      simp only [power, zpow_neg, zpow_natCast]
  · simp only [if_neg negative]
    by_cases short : all.length ≤ exponent.toNat + 1
    · refine ⟨all ++ List.replicate (exponent.toNat + 1 - all.length) '0', ['0'], ?_, ?_, ?_, ?_⟩
      · rw [List.take_of_length_le short, List.drop_of_length_le short]
        rfl
      · intro c member
        rcases List.mem_append.mp member with digit | zero
        · exact digits c digit
        · exact zeros _ c zero
      · exact oneZero
      · have zero : value ['0'] = 0 := rfl
        have power : (exponent + 1 - all.length : Int) =
            ((exponent.toNat + 1 - all.length : Nat) : Int) := by omega
        rw [toRat, value_append, value_append, value_zeros, zero]
        simp only [power, zpow_natCast, List.length_replicate, List.length_singleton]
        push_cast [cast_tenTo]
        ring
    · have noZeros : exponent.toNat + 1 - all.length = 0 := by omega
      have filled : (all.drop (exponent.toNat + 1)).isEmpty = false := by
        rw [List.isEmpty_eq_false_iff, ← List.length_pos_iff, List.length_drop]
        omega
      refine ⟨all.take (exponent.toNat + 1), all.drop (exponent.toNat + 1), ?_, ?_, ?_, ?_⟩
      · rw [noZeros, filled]
        simp
      · exact fun c member => digits c (List.mem_of_mem_take member)
      · exact fun c member => digits c (List.mem_of_mem_drop member)
      · have power : (exponent + 1 - all.length : Int) =
            -((all.length - (exponent.toNat + 1) : Nat) : Int) := by omega
        rw [toRat, List.take_append_drop, List.length_drop, div_eq_mul_inv]
        simp only [power, zpow_neg, zpow_natCast]

theorem notMem_of_isDigit {text : List Char} (digits : ∀ c ∈ text, c.isDigit = true) {c : Char}
    (other : c.isDigit = false) : c ∉ text := by
  intro member
  rw [digits c member] at other
  cases other

/-- The part of a decimal in front of its exponent. -/
def mantissaText : List Char → List Char
  | first :: second :: rest => first :: '.' :: second :: rest
  | digits => digits

theorem mantissaText_injective : Function.Injective mantissaText := by
  intro left right same
  match left, right with
  | [], [] => rfl
  | [], [_] => cases same
  | [], _ :: _ :: _ => cases same
  | [_], [] => cases same
  | [_], [_] => exact same
  | [_], _ :: _ :: _ => cases same
  | _ :: _ :: _, [] => cases same
  | _ :: _ :: _, [_] => cases same
  | _ :: _ :: _, _ :: _ :: _ =>
      cases same
      rfl

theorem notMem_mantissaText {digits : List Char} (each : ∀ c ∈ digits, c.isDigit = true) :
    'e' ∉ mantissaText digits := by
  have none := notMem_of_isDigit each (by decide : 'e'.isDigit = false)
  match digits, none with
  | [], none => exact none
  | [_], none => exact none
  | first :: second :: rest, none =>
      simp only [List.mem_cons, not_or] at none
      simp only [mantissaText, List.mem_cons, not_or]
      exact ⟨none.1, by decide, none.2⟩

theorem scientific_eq (decimal : DecimalDigits) : decimal.scientific =
    mantissaText decimal.digits ++ 'e' :: (if decimal.exponent < 0 then '-' else '+') ::
      Nat.toDigits 10 decimal.exponent.natAbs := by
  obtain ⟨digits, exponent⟩ := decimal
  match digits with
  | [] => rfl
  | [_] => rfl
  | _ :: _ :: _ => rfl

section Texts

variable {left right : DecimalDigits} (leftDigits : ∀ c ∈ left.digits, c.isDigit = true)
  (rightDigits : ∀ c ∈ right.digits, c.isDigit = true)

include leftDigits rightDigits

theorem toRat_eq_of_plain (same : left.plain = right.plain) : left.toRat = right.toRat := by
  obtain ⟨leftWhole, leftFraction, leftText, leftPart, -, leftValue⟩ := exists_plain_eq leftDigits
  obtain ⟨rightWhole, rightFraction, rightText, rightPart, -, rightValue⟩ :=
    exists_plain_eq rightDigits
  rw [leftText, rightText] at same
  obtain ⟨whole, fraction⟩ := append_cons_inj (notMem_of_isDigit leftPart (by decide))
    (notMem_of_isDigit rightPart (by decide)) same
  rw [leftValue, rightValue, whole, fraction]

theorem eq_of_scientific (same : left.scientific = right.scientific) : left = right := by
  rw [scientific_eq, scientific_eq] at same
  obtain ⟨mantissa, power⟩ := append_cons_inj (notMem_mantissaText leftDigits)
    (notMem_mantissaText rightDigits) same
  injection power with sign magnitude
  have size : left.exponent.natAbs = right.exponent.natAbs := by
    have read := congrArg value magnitude
    rw [value_toDigits, value_toDigits] at read
    exact read
  have exponent : left.exponent = right.exponent := by
    split at sign
    · split at sign
      · omega
      · cases sign
    · split at sign
      · cases sign
      · omega
  have digits := mantissaText_injective mantissa
  cases left
  cases right
  cases digits
  cases exponent
  rfl

omit rightDigits in
theorem plain_ne_scientific : left.plain ≠ right.scientific := by
  intro same
  obtain ⟨whole, fraction, text, wholeDigits, fractionDigits, -⟩ := exists_plain_eq leftDigits
  have isThere : 'e' ∈ right.scientific := by
    rw [scientific_eq]
    exact List.mem_append_right _ List.mem_cons_self
  rw [← same, text, List.mem_append, List.mem_cons] at isThere
  rcases isThere with inWhole | isPoint | inFraction
  · exact notMem_of_isDigit wholeDigits (by decide) inWhole
  · exact absurd isPoint (by decide)
  · exact notMem_of_isDigit fractionDigits (by decide) inFraction

theorem toRat_eq_of_text (same : left.text = right.text) : left.toRat = right.toRat := by
  rw [text, text] at same
  split at same
  · split at same
    · exact toRat_eq_of_plain leftDigits rightDigits same
    · exact absurd same (plain_ne_scientific leftDigits)
  · split at same
    · exact absurd same.symm (plain_ne_scientific rightDigits)
    · rw [eq_of_scientific leftDigits rightDigits same]

end Texts

/-- A decimal has a point or an exponent. -/
theorem exists_mark {decimal : DecimalDigits} (digits : ∀ c ∈ decimal.digits, c.isDigit = true) :
    '.' ∈ decimal.text ∨ 'e' ∈ decimal.text := by
  rw [text]
  split
  · obtain ⟨whole, fraction, same, -, -, -⟩ := exists_plain_eq digits
    left
    rw [same]
    exact List.mem_append_right _ List.mem_cons_self
  · right
    rw [scientific_eq]
    exact List.mem_append_right _ List.mem_cons_self

theorem text_ne_minus {decimal : DecimalDigits} (digits : ∀ c ∈ decimal.digits, c.isDigit = true)
    (rest : List Char) : decimal.text ≠ '-' :: rest := by
  have noMinus : ∀ {text others : List Char}, (∀ c ∈ text, c.isDigit = true) →
      text ≠ '-' :: others := by
    rintro text others each rfl
    exact notMem_of_isDigit each (by decide) List.mem_cons_self
  intro same
  rw [text] at same
  split at same
  · obtain ⟨whole, fraction, parts, wholeDigits, -, -⟩ := exists_plain_eq digits
    rw [parts] at same
    cases whole with
    | nil => cases same
    | cons first others =>
        injection same with isMinus _
        exact noMinus wholeDigits (congrArg (· :: others) isMinus)
  · rw [scientific_eq] at same
    cases parts : decimal.digits with
    | nil =>
        rw [parts] at same
        cases same
    | cons first others =>
        rw [parts] at same digits
        -- a second digit has a point in front of it
        cases others with
        | nil =>
            injection same with isMinus _
            exact noMinus digits (congrArg (· :: []) isMinus)
        | cons second rest =>
            injection same with isMinus _
            exact noMinus digits (congrArg (· :: second :: rest) isMinus)

end DecimalDigits

namespace Binary

/-! ## The search -/

theorem pow_digitCount_le {number : Nat} (positive : 0 < number) :
    10 ^ (digitCount number - 1) ≤ number := by
  rw [digitCount, if_neg positive.ne']
  rcases Nat.eq_zero_or_pos ((Nat.toDigits 10 number).length - 1) with single | more
  · rw [single]
    exact positive
  · apply Nat.le_of_not_lt
    rw [← Nat.length_toDigits_le_iff (by decide) more]
    omega

theorem lt_pow_digitCount (number : Nat) : number < 10 ^ digitCount number := by
  rw [digitCount]
  split
  · rename_i zero
    rw [zero]
    decide
  · exact (Nat.length_toDigits_le_iff (by decide) (List.length_pos_iff.mpr Nat.toDigits_ne_nil)).mp
      le_rfl

/-- The leading power of a fraction is not above it. -/
theorem leadingPower_le {fraction : Nat × Nat} (numerator : 0 < fraction.1)
    (denominator : 0 < fraction.2) : (10 : ℚ) ^ leadingPower fraction ≤ ratio fraction := by
  have denominator' : (0 : ℚ) < fraction.2 := Nat.cast_pos.mpr denominator
  rw [leadingPower]
  split
  · rename_i large
    have quotient : 0 < fraction.1 / fraction.2 := Nat.div_pos large denominator
    have least := pow_digitCount_le quotient
    have counted : 0 < digitCount (fraction.1 / fraction.2) := by
      rw [digitCount, if_neg quotient.ne']
      exact List.length_pos_iff.mpr Nat.toDigits_ne_nil
    have power : (digitCount (fraction.1 / fraction.2) : Int) - 1 =
        ((digitCount (fraction.1 / fraction.2) - 1 : Nat) : Int) := by omega
    rw [power, zpow_natCast]
    calc (10 : ℚ) ^ (digitCount (fraction.1 / fraction.2) - 1)
        ≤ ((fraction.1 / fraction.2 : Nat) : ℚ) := by exact_mod_cast least
      _ ≤ ratio fraction := Nat.cast_div_le
  · have greatest := lt_pow_digitCount ((fraction.2 + fraction.1 - 1) / fraction.1 - 1)
    obtain ⟨count, isCount⟩ : ∃ count,
        count = digitCount ((fraction.2 + fraction.1 - 1) / fraction.1 - 1) := ⟨_, rfl⟩
    rw [← isCount] at greatest ⊢
    have rounded : (fraction.2 + fraction.1 - 1) / fraction.1 < 10 ^ count + 1 := by omega
    rw [Nat.div_lt_iff_lt_mul numerator, Nat.add_mul, Nat.one_mul] at rounded
    have product : fraction.2 ≤ 10 ^ count * fraction.1 := by omega
    rw [zpow_neg, zpow_natCast, ratio, le_div_iff₀ denominator', inv_mul_le_iff₀ (by positivity)]
    exact_mod_cast product

theorem contains_search {number : Binary} (canonical : number.IsCanonical .double)
    (positive : 0 < number.mantissa) {found : Nat × Int}
    (isFound : found = (RoundingInterval.ofBinary number).searchAux 18
      (leadingPower (RoundingInterval.ofBinary number).value)) :
    (RoundingInterval.ofBinary number).contains found.1 found.2 = true := by
  have proper := isProper_ofBinary positive
  have unit : (0 : ℚ) < 2 ^ number.exponent := by positivity
  have leading : (10 : ℚ) ^ leadingPower (RoundingInterval.ofBinary number).value ≤
      number.mantissa * 2 ^ number.exponent := by
    have numerator : 0 < (RoundingInterval.ofBinary number).value.1 := by
      have quarter : 0 < number.mantissa * 4 := Nat.mul_pos positive (by decide)
      have same : (RoundingInterval.ofBinary number).value =
        quarters (number.mantissa * 4) number.exponent := rfl
      rw [same, quarters]
      split
      · exact Nat.mul_pos quarter (twoTo_pos _)
      · exact quarter
    rw [← ratio_ofBinary_value]
    exact leadingPower_le numerator proper.value_pos
  have short : (number.mantissa : ℚ) < 9007199254740992 := by
    rcases canonical with ⟨zero, -⟩ | ⟨-, short, -⟩
    · omega
    · exact_mod_cast short
  rw [isFound]
  refine RoundingInterval.contains_searchAux ⟨17, by decide, ?_⟩
  apply RoundingInterval.exists_onGrid? proper
  -- the last grid is seventeen digits below the leading one, finer than half a unit
  have grid : ∀ start : Int, (10 : ℚ) ^ (start - (17 : Nat)) = 10 ^ start / 100000000000000000 := by
    intro start
    rw [zpow_sub₀ (by norm_num), zpow_natCast]
    norm_num
  have bound : (number.mantissa : ℚ) * 2 ^ number.exponent ≤
      9007199254740992 * 2 ^ number.exponent := mul_le_mul_of_nonneg_right short.le unit.le
  rw [ratio_ofBinary_value, ratio_ofBinary_high, grid]
  linarith

theorem exists_zeros (digits : List Char) :
    ∃ count, digits = dropTrailingZeros digits ++ List.replicate count '0' := by
  refine ⟨(digits.reverse.takeWhile (· == '0')).length, ?_⟩
  have parts : digits.reverse.takeWhile (· == '0') ++ digits.reverse.dropWhile (· == '0') =
    digits.reverse := List.takeWhile_append_dropWhile
  have run : digits.reverse.takeWhile (· == '0') =
      List.replicate (digits.reverse.takeWhile (· == '0')).length '0' := by
    rw [List.eq_replicate_iff]
    refine ⟨rfl, fun c member => ?_⟩
    have isZero : (c == '0') = true := List.mem_takeWhile_imp (p := (· == '0')) member
    exact beq_iff_eq.mp isZero
  have backwards := congrArg List.reverse parts
  rw [List.reverse_append, List.reverse_reverse, run, List.reverse_replicate] at backwards
  exact backwards.symm

/-- Without the zeros at its end a decimal keeps its value. -/
theorem toRat_dropTrailingZeros (units : Nat) (power : Int) :
    DecimalDigits.toRat ⟨dropTrailingZeros (Nat.toDigits 10 units),
      power + (Nat.toDigits 10 units).length - 1⟩ = units * 10 ^ power := by
  obtain ⟨count, zeros⟩ := exists_zeros (Nat.toDigits 10 units)
  have amount : units = value (dropTrailingZeros (Nat.toDigits 10 units)) * tenTo count := by
    have whole := congrArg value zeros
    rw [value_toDigits, value_append, value_zeros, List.length_replicate] at whole
    exact whole
  have size : (Nat.toDigits 10 units).length =
      (dropTrailingZeros (Nat.toDigits 10 units)).length + count := by
    have whole := congrArg List.length zeros
    rw [List.length_append, List.length_replicate] at whole
    exact whole
  have exponent : power + (Nat.toDigits 10 units).length - 1 + 1 -
      (dropTrailingZeros (Nat.toDigits 10 units)).length = power + count := by
    rw [size]
    push_cast
    ring
  rw [DecimalDigits.toRat]
  simp only [exponent]
  rw [zpow_add₀ (by norm_num), zpow_natCast]
  conv_rhs => rw [amount]
  push_cast [cast_tenTo]
  ring

/-- The shortest decimal of a number that is not zero is in its interval. -/
theorem covers_shortest {number : Binary} (canonical : number.IsCanonical .double)
    (positive : 0 < number.mantissa) :
    (RoundingInterval.ofBinary number).Covers number.shortest.toRat := by
  have value : number.shortest.toRat =
      ((RoundingInterval.ofBinary number).searchAux 18
        (leadingPower (RoundingInterval.ofBinary number).value)).1 *
      10 ^ ((RoundingInterval.ofBinary number).searchAux 18
        (leadingPower (RoundingInterval.ofBinary number).value)).2 := by
    rw [shortest, if_neg positive.ne']
    exact toRat_dropTrailingZeros _ _
  rw [value]
  exact RoundingInterval.covers_of_contains (isProper_ofBinary positive)
    (contains_search canonical positive rfl)

/-- Canonical numbers with decimals of one value differ in their signs at most. -/
theorem eq_of_shortest {left right : Binary} (leftCanonical : left.IsCanonical .double)
    (rightCanonical : right.IsCanonical .double)
    (same : left.shortest.toRat = right.shortest.toRat) :
    left.mantissa = right.mantissa ∧ left.exponent = right.exponent := by
  have zero : ∀ {number : Binary}, number.mantissa = 0 → number.shortest.toRat = 0 := by
    intro number isZero
    rw [shortest, if_pos isZero, DecimalDigits.toRat]
    have none : value ['0'] = 0 := rfl
    rw [none, Nat.cast_zero, zero_mul]
  have notZero : ∀ {number : Binary}, number.IsCanonical .double → 0 < number.mantissa →
      number.shortest.toRat ≠ 0 := by
    intro number canonical positive isZero
    have low := (covers_shortest canonical positive).low_le
    have unit : (0 : ℚ) < 2 ^ number.exponent := by positivity
    have least := le_ratio_ofBinary_low positive
    have one : (1 : ℚ) ≤ number.mantissa := by exact_mod_cast positive
    have above : (0 : ℚ) < (number.mantissa - 1 / 2) * 2 ^ number.exponent :=
      mul_pos (by linarith) unit
    linarith
  rcases Nat.eq_zero_or_pos left.mantissa with leftZero | leftPositive
  · rcases Nat.eq_zero_or_pos right.mantissa with rightZero | rightPositive
    · rcases leftCanonical with ⟨-, leftExponent⟩ | ⟨impossible, -⟩
      · rcases rightCanonical with ⟨-, rightExponent⟩ | ⟨impossible, -⟩
        · exact ⟨leftZero.trans rightZero.symm, leftExponent.trans rightExponent.symm⟩
        · omega
      · omega
    · exact absurd (same.symm.trans (zero leftZero)) (notZero rightCanonical rightPositive)
  · rcases Nat.eq_zero_or_pos right.mantissa with rightZero | rightPositive
    · exact absurd (same.trans (zero rightZero)) (notZero leftCanonical leftPositive)
    · have inRight := covers_shortest rightCanonical rightPositive
      rw [← same] at inRight
      exact eq_of_covers leftCanonical rightCanonical leftPositive rightPositive
        (covers_shortest leftCanonical leftPositive) inRight

end Binary

namespace Number

/-- A whole number has neither a point nor an exponent. -/
theorem notMem_text_int (value : Int) : '.' ∉ text (.int value) ∧ 'e' ∉ text (.int value) := by
  have digits : ∀ {c : Char}, c.isDigit = false → c ≠ '-' → c ∉ text (.int value) := by
    intro c notDigit notMinus member
    rw [text_int] at member
    split at member
    · rcases List.mem_cons.mp member with isMinus | isDigit
      · exact notMinus isMinus
      · rw [isDigit_of_mem_toDigits isDigit] at notDigit
        cases notDigit
    · rw [isDigit_of_mem_toDigits member] at notDigit
      cases notDigit
  exact ⟨digits (by decide) (by decide), digits (by decide) (by decide)⟩

theorem text_int_injective : Function.Injective fun value => text (.int value) := by
  intro left right same
  dsimp only at same
  rw [text_int, text_int] at same
  have noMinus : ∀ {magnitude : Nat} {rest : List Char},
      Nat.toDigits 10 magnitude ≠ '-' :: rest := by
    intro magnitude rest same
    have isMinus : '-' ∈ Nat.toDigits 10 magnitude := by
      rw [same]
      exact List.mem_cons_self
    exact absurd (isDigit_of_mem_toDigits isMinus) (by decide)
  have magnitude : ∀ {first second : Nat}, Nat.toDigits 10 first = Nat.toDigits 10 second →
      first = second := by
    intro first second same
    have read := congrArg Numeral.value same
    rw [Numeral.value_toDigits, Numeral.value_toDigits] at read
    exact read
  split at same
  · split at same
    · injection same with _ digits
      have size := magnitude digits
      omega
    · exact absurd same.symm noMinus
  · split at same
    · exact absurd same noMinus
    · have size := magnitude same
      omega

theorem exists_mark_text_float (value : Binary) :
    '.' ∈ text (.float value) ∨ 'e' ∈ text (.float value) := by
  have marked := DecimalDigits.exists_mark fun c => value.isDigit_of_mem_shortest (c := c)
  rw [text]
  split
  · exact marked.imp (List.mem_cons_of_mem _) (List.mem_cons_of_mem _)
  · exact marked

theorem eq_of_text_float {left right : Binary} (leftCanonical : left.IsCanonical .double)
    (rightCanonical : right.IsCanonical .double)
    (same : text (.float left) = text (.float right)) : left = right := by
  have digits : ∀ number : Binary, ∀ c ∈ number.shortest.digits, c.isDigit = true :=
    fun _ _ member => Binary.isDigit_of_mem_shortest member
  have parts : left.isNegative = right.isNegative ∧ left.shortest.text = right.shortest.text := by
    rw [text, text] at same
    cases leftSign : left.isNegative with
    | true =>
        cases rightSign : right.isNegative with
        | true =>
            rw [leftSign, rightSign, if_pos rfl, if_pos rfl] at same
            injection same with _ texts
            exact ⟨rfl, texts⟩
        | false =>
            rw [leftSign, rightSign, if_pos rfl, if_neg Bool.false_ne_true] at same
            exact absurd same.symm (DecimalDigits.text_ne_minus (digits right) _)
    | false =>
        cases rightSign : right.isNegative with
        | true =>
            rw [leftSign, rightSign, if_pos rfl, if_neg Bool.false_ne_true] at same
            exact absurd same (DecimalDigits.text_ne_minus (digits left) _)
        | false =>
            rw [leftSign, rightSign, if_neg Bool.false_ne_true] at same
            exact ⟨rfl, same⟩
  have value := DecimalDigits.toRat_eq_of_text (digits left) (digits right) parts.2
  have equal := Binary.eq_of_shortest leftCanonical rightCanonical value
  cases left
  cases right
  cases parts.1
  cases equal.1
  cases equal.2
  rfl

theorem eq_of_text {left right : Number} (leftCanonical : left.IsCanonical)
    (rightCanonical : right.IsCanonical) (same : left.text = right.text) : left = right := by
  cases left with
  | int leftValue =>
      cases right with
      | int rightValue => rw [text_int_injective same]
      | float rightValue =>
          have marked := exists_mark_text_float rightValue
          rw [← same] at marked
          exact (marked.elim (notMem_text_int leftValue).1 (notMem_text_int leftValue).2).elim
  | float leftValue =>
      cases right with
      | int rightValue =>
          have marked := exists_mark_text_float leftValue
          rw [same] at marked
          exact (marked.elim (notMem_text_int rightValue).1 (notMem_text_int rightValue).2).elim
      | float rightValue => rw [eq_of_text_float leftCanonical rightCanonical same]

theorem eq_of_javaLiteral {left right : Number} (leftCanonical : left.IsCanonical)
    (rightCanonical : right.IsCanonical) (same : left.javaLiteral = right.javaLiteral) :
    left = right := by
  have noMark : ∀ {number : Number}, 'L' ∉ number.text := by
    intro number member
    exact absurd (isNumberChar_of_mem_text member) (by decide)
  have chars : left.text ++ (if left.isWide then ['L'] else []) =
      right.text ++ (if right.isWide then ['L'] else []) := by
    have inside := congrArg String.toList same
    rwa [javaLiteral, javaLiteral, String.toList_ofList, String.toList_ofList] at inside
  apply eq_of_text leftCanonical rightCanonical
  split at chars
  · split at chars
    · exact List.append_cancel_right chars
    · rw [List.append_nil] at chars
      exact absurd (chars ▸ List.mem_append_right _ List.mem_cons_self) noMark
  · split at chars
    · rw [List.append_nil] at chars
      exact absurd (chars.symm ▸ List.mem_append_right _ List.mem_cons_self) noMark
    · exact List.append_cancel_right chars

end Number

end BodyContract
