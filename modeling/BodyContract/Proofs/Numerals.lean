import Mathlib.Data.List.TakeDrop
import BodyContract.Json.Printer
import BodyContract.Json.Reader

/-!
# Decimal texts of whole numbers

The text of a whole number of a document reads back as that number.
-/

namespace BodyContract

/-! ## Runs of characters -/

/-- Whether a text does not go on with a character of a class. -/
def StopsAt (member : Char → Bool) (rest : List Char) : Prop :=
  ∀ c, rest.head? = some c → member c = false

theorem stopsAt_nil (member : Char → Bool) : StopsAt member [] := by
  intro c impossible
  cases impossible

theorem stopsAt_cons {member : Char → Bool} {c : Char} (outside : member c = false)
    (rest : List Char) : StopsAt member (c :: rest) := by
  intro other head
  cases head
  exact outside

theorem takeWhile_append {member : Char → Bool} {run rest : List Char}
    (inside : ∀ c ∈ run, member c = true) (stops : StopsAt member rest) :
    (run ++ rest).takeWhile member = run := by
  rw [List.takeWhile_append_of_pos inside]
  cases rest with
  | nil => rw [List.takeWhile_nil, List.append_nil]
  | cons c rest => simp [stops c rfl]

theorem dropWhile_append {member : Char → Bool} {run rest : List Char}
    (inside : ∀ c ∈ run, member c = true) (stops : StopsAt member rest) :
    (run ++ rest).dropWhile member = rest := by
  rw [List.dropWhile_append_of_pos inside]
  cases rest with
  | nil => rfl
  | cons c rest => simp [stops c rfl]

/-- Texts that do not contain a character are told from what follows behind it. -/
theorem append_cons_inj {c : Char} {left right before behind : List Char} (inLeft : c ∉ left)
    (inRight : c ∉ right) (same : left ++ c :: before = right ++ c :: behind) :
    left = right ∧ before = behind := by
  induction left generalizing right with
  | nil =>
      cases right with
      | nil =>
          injection same with _ equal
          exact ⟨rfl, equal⟩
      | cons first rest =>
          injection same with isFirst _
          rw [isFirst] at inRight
          exact absurd List.mem_cons_self inRight
  | cons first rest inductionHypothesis =>
      cases right with
      | nil =>
          injection same with isFirst _
          rw [isFirst] at inLeft
          exact absurd List.mem_cons_self inLeft
      | cons other others =>
          injection same with isFirst later
          obtain ⟨equal, behind⟩ := inductionHypothesis
            (fun member => inLeft (List.mem_cons_of_mem first member))
            (fun member => inRight (List.mem_cons_of_mem other member)) later
          exact ⟨by rw [isFirst, equal], behind⟩

/-! ## Digits -/

namespace Numeral

theorem value_eq_ofDigitChars (digits : List Char) :
    value digits = Nat.ofDigitChars 10 digits 0 := by
  have from_ : ∀ total, valueFrom total digits = Nat.ofDigitChars 10 digits total := by
    intro total
    rw [valueFrom, Nat.ofDigitChars]
    congr 1
    funext sofar digit
    rw [Nat.mul_comm, digitValue]
  exact from_ 0

@[simp]
theorem value_toDigits (number : Nat) : value (Nat.toDigits 10 number) = number := by
  rw [value_eq_ofDigitChars, Nat.ofDigitChars_ten_toDigits]

end Numeral

theorem isDigit_of_mem_toDigits {number : Nat} {c : Char} (member : c ∈ Nat.toDigits 10 number) :
    c.isDigit = true :=
  Nat.isDigit_of_mem_toDigits (by decide) (by decide) member

/-- The decimal digits of a positive number do not begin with a zero. -/
theorem head?_toDigits_ne_zero {number : Nat} (positive : 0 < number) :
    (Nat.toDigits 10 number).head? ≠ some '0' := by
  induction number using Nat.strongRecOn with
  | ind number inductionHypothesis =>
      by_cases small : number < 10
      · rw [Nat.toDigits_of_lt_base small, List.head?_cons]
        have cases_ : number = 1 ∨ number = 2 ∨ number = 3 ∨ number = 4 ∨ number = 5 ∨
            number = 6 ∨ number = 7 ∨ number = 8 ∨ number = 9 := by omega
        rcases cases_ with rfl | rfl | rfl | rfl | rfl | rfl | rfl | rfl | rfl <;> decide
      · have large : 10 ≤ number := Nat.le_of_not_lt small
        have smaller := inductionHypothesis (number / 10)
          (Nat.div_lt_self positive (by decide)) (Nat.div_pos large (by decide))
        rw [Nat.toDigits_of_base_le (by decide) large, List.head?_append]
        cases digits : Nat.toDigits 10 (number / 10) with
        | nil => exact absurd digits Nat.toDigits_ne_nil
        | cons first rest =>
            rw [digits] at smaller
            simpa using smaller

namespace Json

/-- What is not the beginning of more digits, of a fraction or of an exponent. -/
def EndsNumeral (rest : List Char) : Prop :=
  StopsAt (fun c => c.isDigit || c == '.' || c == 'e' || c == 'E') rest

theorem readNumeral?_toDigits (number : Nat) {rest : List Char} (isNegative : Bool)
    (ends : EndsNumeral rest) :
    readNumeral? isNegative (Nat.toDigits 10 number ++ rest) =
      some (⟨isNegative, Nat.toDigits 10 number, none, none⟩, rest) := by
  have digits : ∀ c ∈ Nat.toDigits 10 number, c.isDigit = true :=
    fun c member => isDigit_of_mem_toDigits member
  have stops : StopsAt Char.isDigit rest := by
    intro c head
    have outside := ends c head
    simp only [Bool.or_eq_false_iff] at outside
    exact outside.1.1.1
  have span : spanDigits (Nat.toDigits 10 number ++ rest) = (Nat.toDigits 10 number, rest) := by
    rw [spanDigits, List.span_eq_takeWhile_dropWhile, takeWhile_append digits stops,
      dropWhile_append digits stops]
  have fraction : readFraction? rest = some (none, rest) := by
    cases rest with
    | nil => rfl
    | cons c rest =>
        have outside := ends c rfl
        rw [readFraction?]
        intro others same
        cases same
        simp at outside
  have exponent : readExponent? rest = some (none, rest) := by
    cases rest with
    | nil => rfl
    | cons c rest =>
        have outside := ends c rfl
        simp only [Bool.or_eq_false_iff, beq_eq_false_iff_ne] at outside
        simp [readExponent?, outside.1.2, outside.2]
  rw [readNumeral?, span]
  dsimp only
  split
  · rename_i empty
    exact absurd empty Nat.toDigits_ne_nil
  · rename_i first rest same
    have zero : ¬ 0 < number := by
      intro positive
      apply head?_toDigits_ne_zero positive
      rw [same]
      rfl
    have isZero : number = 0 := Nat.eq_zero_of_not_pos zero
    rw [isZero, Nat.toDigits_zero] at same
    cases same
  · rw [fraction]
    simp [exponent]

end Json

namespace Number

/-- Whether a whole number is one that a document can hold. -/
def fits (value : Int) : Bool := -twoTo 63 ≤ value && value ≤ twoTo 64 - 1

theorem text_int (value : Int) :
    text (.int value) =
      if value < 0 then '-' :: Nat.toDigits 10 value.natAbs else Nat.toDigits 10 value.natAbs := by
  cases value with
  | ofNat magnitude =>
      have notNegative : ¬ Int.ofNat magnitude < 0 := by
        rw [Int.ofNat_eq_natCast]
        omega
      rw [if_neg notNegative]
      simp [text, Int.repr]
  | negSucc magnitude =>
      rw [if_pos (Int.negSucc_lt_zero magnitude)]
      simp [text, Int.repr]

end Number

namespace Json

/-- The text of a whole number reads back as the number. -/
theorem readNumber?_int {value : Int} {rest : List Char} (fits : Number.fits value = true)
    (ends : EndsNumeral rest) :
    readNumber? (Number.text (.int value) ++ rest) = some (.int value, rest) := by
  rw [Number.fits, Bool.and_eq_true, decide_eq_true_eq, decide_eq_true_eq] at fits
  have limits : (twoTo 63 : Int) = 9223372036854775808 ∧ (twoTo 64 : Int) = 18446744073709551616 :=
    ⟨rfl, rfl⟩
  have limit : Numeral.significandLimit = 18446744073709551615 := rfl
  rw [Number.text_int]
  by_cases negative : value < 0
  · have read := readNumeral?_toDigits value.natAbs true ends
    have nonzero : ¬ value.natAbs = 0 := by omega
    have small : value.natAbs ≤ twoTo 63 := by
      have same : twoTo 63 = 9223372036854775808 := rfl
      omega
    have magnitude : -(value.natAbs : Int) = value := by omega
    rw [if_pos negative, List.cons_append, readNumber?]
    generalize value.natAbs = size at read nonzero small magnitude
    simp [read, Numeral.toNumber?, nonzero, small, magnitude, int]
  · have read := readNumeral?_toDigits value.natAbs false ends
    have small : value.natAbs ≤ Numeral.significandLimit := by omega
    have magnitude : (value.natAbs : Int) = value := by omega
    rw [if_neg negative, readNumber?]
    · generalize value.natAbs = size at read small magnitude
      simp [read, Numeral.toNumber?, small, magnitude, int]
    · intro others same
      cases digits : Nat.toDigits 10 value.natAbs with
      | nil => exact Nat.toDigits_ne_nil digits
      | cons first more =>
          have isDigit : first.isDigit = true :=
            isDigit_of_mem_toDigits (by rw [digits]; exact List.mem_cons_self)
          rw [digits, List.cons_append] at same
          injection same with sameHead _
          rw [sameHead] at isDigit
          exact absurd isDigit (by decide)

end Json

end BodyContract
