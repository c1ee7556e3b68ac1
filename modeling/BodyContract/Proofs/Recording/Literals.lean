import BodyContract.Json.Reader
import BodyContract.Proofs.Number.Decimal
import BodyContract.Proofs.Recording.Words

/-!
# Arguments of calls

A text is told by its literal: the escapes that a literal is written with are
read back as escapes of a document.  Whatever is written between the
parentheses of a call is an argument.
-/

namespace BodyContract

/-! ## Texts -/

theorem hexValue?_toUpper_hexDigit (digit : Nat) (small : digit < 16) :
    Json.hexValue? (hexDigit digit).toUpper = some digit := by
  have each : ∀ digit : Fin 16, Json.hexValue? (hexDigit digit).toUpper = some digit.val := by
    decide
  exact each ⟨digit, small⟩

theorem upperHexDigits_four (unit : Nat) : upperHexDigits unit 4 =
    [(hexDigit (unit / 16 / 16 / 16 % 16)).toUpper, (hexDigit (unit / 16 / 16 % 16)).toUpper,
      (hexDigit (unit / 16 % 16)).toUpper, (hexDigit (unit % 16)).toUpper] := by
  simp [upperHexDigits, hexDigits]

theorem readUnit?_upperHexDigits {unit : Nat} (small : unit < 65536) (rest : List Char) :
    Json.readUnit? (upperHexDigits unit 4 ++ rest) = some (unit, rest) := by
  have digit : ∀ value, Json.hexValue? (hexDigit (value % 16)).toUpper = some (value % 16) :=
    fun value => hexValue?_toUpper_hexDigit _ (Nat.mod_lt value (by decide))
  have total : ((unit / 16 / 16 / 16 % 16 * 16 + unit / 16 / 16 % 16) * 16 + unit / 16 % 16) * 16 +
      unit % 16 = unit := by omega
  rw [upperHexDigits_four]
  simp only [List.cons_append, List.nil_append, Json.readUnit?, digit, Option.bind_eq_bind,
    Option.bind_some, total]

theorem readCodePoint?_single {unit : Nat} (small : unit < 65536)
    (noHalf : unit < 0xD800 ∨ 0xDFFF < unit) (rest : List Char) :
    Json.readCodePoint? (upperHexDigits unit 4 ++ rest) = some (Char.ofNat unit, rest) := by
  have notLower : ¬ (0xDC00 ≤ unit ∧ unit ≤ 0xDFFF) := by omega
  have notUpper : ¬ (0xD800 ≤ unit ∧ unit ≤ 0xDBFF) := by omega
  simp only [Json.readCodePoint?, readUnit?_upperHexDigits small, Option.bind_eq_bind,
    Option.bind_some, Bool.and_eq_true, decide_eq_true_eq, notLower, notUpper, if_false]

theorem readCodePoint?_pair {upper lower : Nat} (isUpper : 0xD800 ≤ upper ∧ upper ≤ 0xDBFF)
    (isLower : 0xDC00 ≤ lower ∧ lower ≤ 0xDFFF) (rest : List Char) :
    Json.readCodePoint?
        (upperHexDigits upper 4 ++ '\\' :: 'u' :: (upperHexDigits lower 4 ++ rest)) =
      some (Char.ofNat (0x10000 + (upper - 0xD800) * 0x400 + (lower - 0xDC00)), rest) := by
  have notLower : ¬ (0xDC00 ≤ upper ∧ upper ≤ 0xDFFF) := by omega
  have upperSmall : upper < 65536 := by omega
  have lowerSmall : lower < 65536 := by omega
  simp only [Json.readCodePoint?, readUnit?_upperHexDigits upperSmall,
    readUnit?_upperHexDigits lowerSmall, Option.bind_eq_bind, Option.bind_some, Bool.and_eq_true,
    decide_eq_true_eq, notLower, isUpper, isLower, if_false, if_true, and_self]

/-- The escapes of the units of a character are read back. -/
theorem readEscape?_units (c : Char) (rest : List Char) :
    ∃ behind, (utf16Units c).flatMap unitEscape ++ rest = '\\' :: 'u' :: behind ∧
      Json.readCodePoint? behind = some (c, rest) := by
  have valid : c.toNat < 0xD800 ∨ 0xDFFF < c.toNat ∧ c.toNat < 0x110000 := c.valid
  by_cases short : c.toNat < 0x10000
  · -- a single unit is no half of a pair
    refine ⟨upperHexDigits c.toNat 4 ++ rest, ?_, ?_⟩
    · rw [utf16Units, if_pos short]
      simp [unitEscape]
    · rw [readCodePoint?_single short (by omega), Char.ofNat_toNat]
  · obtain ⟨upper, isUpper⟩ : ∃ upper, upper = 0xD800 + (c.toNat - 0x10000) / 0x400 := ⟨_, rfl⟩
    obtain ⟨lower, isLower⟩ : ∃ lower, lower = 0xDC00 + (c.toNat - 0x10000) % 0x400 := ⟨_, rfl⟩
    have total : 0x10000 + (upper - 0xD800) * 0x400 + (lower - 0xDC00) = c.toNat := by omega
    refine ⟨upperHexDigits upper 4 ++ '\\' :: 'u' :: (upperHexDigits lower 4 ++ rest), ?_, ?_⟩
    · rw [utf16Units, if_neg short, ← isUpper, ← isLower]
      simp [unitEscape]
    · rw [readCodePoint?_pair (by omega) (by omega), total, Char.ofNat_toNat]

/-- Reads a character of a literal. -/
def readJavaChar? : List Char → Option (Char × List Char)
  | [] => none
  | c :: rest => if c = '\\' then Json.readEscape? rest else some (c, rest)

theorem readJavaChar?_escapeJavaChar (c : Char) (rest : List Char) :
    readJavaChar? (escapeJavaChar c ++ rest) = some (c, rest) := by
  rw [escapeJavaChar]
  repeat' split
  all_goals try (subst_vars; rfl)
  · obtain ⟨behind, same, read⟩ := readEscape?_units c rest
    rw [same, readJavaChar?, if_pos rfl, Json.readEscape?]
    exact read
  · rename_i notBackslash _ _ _ _ _ _
    rw [List.singleton_append, readJavaChar?, if_neg notBackslash]

theorem isPrefixFree_escapeJavaChar : IsPrefixFree escapeJavaChar := by
  intro left right before behind same
  have read := congrArg readJavaChar? same
  rw [readJavaChar?_escapeJavaChar, readJavaChar?_escapeJavaChar] at read
  cases read
  exact ⟨rfl, rfl⟩

theorem escapeJavaChar_ne_nil (c : Char) : escapeJavaChar c ≠ [] := by
  intro empty
  have read := readJavaChar?_escapeJavaChar c []
  rw [empty] at read
  cases read

theorem javaString_injective : Function.Injective javaString := by
  intro left right same
  have inside : left.toList.flatMap escapeJavaChar = right.toList.flatMap escapeJavaChar := by
    simpa [javaString, escapeJava] using congrArg String.toList same
  exact String.toList_injective
    (isPrefixFree_escapeJavaChar.flatMap_injective escapeJavaChar_ne_nil inside)

theorem toList_quoteOnly (text : String) :
    (quoteOnly text).toList = '"' :: (escapedFor '"' text.toList ++ ['"']) := by
  have same : (fun c => if c = '"' then ['\\', '"'] else [c]) =
      fun c => if c = '"' then ['\\', c] else [c] := by
    funext c
    by_cases isQuote : c = '"'
    · rw [isQuote]
    · rw [if_neg isQuote, if_neg isQuote]
  rw [quoteOnly, String.toList_ofList, same]
  rfl

theorem quoteOnly_injective : Function.Injective quoteOnly := by
  intro left right same
  have inside := congrArg String.toList same
  rw [toList_quoteOnly, toList_quoteOnly] at inside
  injection inside with _ escaped
  exact String.toList_injective (escapedFor_injective '"' (List.append_cancel_right escaped))

/-! ## Arguments -/

theorem isArgument_quoteOnly (text : String) : IsArgument (quoteOnly text).toList := by
  rw [toList_quoteOnly]
  exact .quoted text.toList

theorem quoteOnly_ne_empty (text : String) : quoteOnly text ≠ "" := by
  intro same
  have chars := congrArg String.toList same
  rw [toList_quoteOnly] at chars
  cases chars

theorem notMem_unitEscape {c : Char} (noOpening : c ≠ '\\' ∧ c ≠ 'u')
    (noDigit : ∀ digit : Fin 16, (hexDigit digit).toUpper ≠ c) (unit : Nat) :
    c ∉ unitEscape unit := by
  have digit : ∀ value, (hexDigit (value % 16)).toUpper ≠ c :=
    fun value => noDigit ⟨value % 16, Nat.mod_lt value (by decide)⟩
  rw [unitEscape, upperHexDigits_four]
  simp only [List.mem_cons, List.not_mem_nil, or_false, not_or]
  exact ⟨noOpening.1, noOpening.2, (digit _).symm, (digit _).symm, (digit _).symm, (digit _).symm⟩

theorem notMem_escapeJavaChar {c : Char} (other : c ≠ '"') : '"' ∉ escapeJavaChar c := by
  rw [escapeJavaChar, if_neg other]
  repeat' split
  all_goals try decide
  · intro member
    obtain ⟨unit, -, isIn⟩ := List.mem_flatMap.mp member
    exact notMem_unitEscape (by decide) (by decide) unit isIn
  · rw [List.mem_singleton]
    exact other.symm

theorem isArgument_javaString (text : String) : IsArgument (javaString text).toList := by
  have inside : ∃ plain, text.toList.flatMap escapeJavaChar = escapedFor '"' plain := by
    induction text.toList with
    | nil => exact ⟨[], rfl⟩
    | cons c rest inductionHypothesis =>
        obtain ⟨plain, same⟩ := inductionHypothesis
        rw [List.flatMap_cons, same]
        by_cases isQuote : c = '"'
        · rw [isQuote]
          exact ⟨'"' :: plain, rfl⟩
        · refine ⟨escapeJavaChar c ++ plain, ?_⟩
          have parts : escapedFor '"' (escapeJavaChar c ++ plain) =
            escapedFor '"' (escapeJavaChar c) ++ escapedFor '"' plain := List.flatMap_append
          rw [parts, escapedFor_of_notMem (notMem_escapeJavaChar isQuote)]
  obtain ⟨plain, same⟩ := inside
  have chars : (javaString text).toList = '"' :: (escapedFor '"' plain ++ ['"']) := by
    simp [javaString, escapeJava, same]
  rw [chars]
  exact .quoted plain

/-- Characters of numbers and a mark for wide ones make an argument. -/
theorem isArgument_of_isNumberChar {text : List Char}
    (each : ∀ c ∈ text, Path.isNumberChar c = true ∨ c = 'L') : IsArgument text := by
  refine .plain (fun member => ?_) fun member => ?_
  · rcases each _ member with isPart | isMark
    · exact absurd isPart (by decide)
    · exact absurd isMark (by decide)
  · rcases each _ member with isPart | isMark
    · exact absurd isPart (by decide)
    · exact absurd isMark (by decide)

theorem isNumberChar_of_mem_javaLiteral {number : Number} {c : Char}
    (member : c ∈ number.javaLiteral.toList) : Path.isNumberChar c = true ∨ c = 'L' := by
  rw [Number.javaLiteral, String.toList_ofList] at member
  rcases List.mem_append.mp member with inText | isMark
  · exact Or.inl (Number.isNumberChar_of_mem_text inText)
  · split at isMark
    · exact Or.inr (List.mem_singleton.mp isMark)
    · cases isMark

theorem toList_toString (number : Nat) : (toString number).toList = Nat.toDigits 10 number := by
  simp [Nat.repr]

theorem isArgument_toString (number : Nat) : IsArgument (toString number).toList := by
  refine isArgument_of_isNumberChar fun c member => Or.inl ?_
  rw [toList_toString] at member
  exact Json.isNumberChar_of_isDigit (isDigit_of_mem_toDigits member)

theorem toString_injective : Function.Injective (toString : Nat → String) := by
  intro left right same
  have read := congrArg (fun text => Numeral.value text.toList) same
  simp only [toList_toString, Numeral.value_toDigits] at read
  exact read

/-! ## Scalars -/

/-- A value that is compared as a whole. -/
inductive Scalar where
  | text (content : String)
  | number (amount : Number)
  | flag (holds : Bool)

namespace Scalar

def toJson : Scalar → Json
  | .text content => .string content
  | .number amount => .number amount
  | .flag holds => .bool holds

/-- The argument of an equality with the value. -/
def literal : Scalar → String
  | .text content => javaString content
  | .number amount => amount.javaLiteral
  | .flag holds => if holds then "true" else "false"

def IsCanonical : Scalar → Prop
  | .number amount => amount.IsCanonical
  | _ => True

theorem isArgument_flag (holds : Bool) :
    IsArgument (if holds then "true" else "false").toList := by
  cases holds with
  | true => exact .plain (by decide) (by decide)
  | false => exact .plain (by decide) (by decide)

theorem isArgument_literal (value : Scalar) : IsArgument value.literal.toList := by
  cases value with
  | text content => exact isArgument_javaString content
  | number amount => exact isArgument_of_isNumberChar fun c => isNumberChar_of_mem_javaLiteral
  | flag holds => exact isArgument_flag holds

theorem quotedLabel_number (number : Number) :
    (Json.number number).quotedLabel.toList = number.text := by
  rw [Json.quotedLabel, Json.render, String.toList_ofList, Json.chars]
  intro text impossible
  cases impossible

theorem quotedLabel_flag (holds : Bool) :
    (Json.bool holds).quotedLabel = if holds then "true" else "false" := by
  cases holds <;> rfl

theorem isArgument_quotedLabel (value : Scalar) :
    IsArgument value.toJson.quotedLabel.toList := by
  cases value with
  | text content => exact isArgument_quoteOnly content
  | number amount =>
      rw [toJson, quotedLabel_number]
      exact isArgument_of_isNumberChar fun c member =>
        Or.inl (Number.isNumberChar_of_mem_text member)
  | flag holds =>
      rw [toJson, quotedLabel_flag]
      exact isArgument_flag holds

/-- How an argument begins that is a text, a number or a truth value. -/
inductive Begins : Scalar → List Char → Prop where
  | text (content : String) (rest : List Char) : Begins (.text content) ('"' :: rest)
  | number (amount : Number) {c : Char} (isPart : Path.isNumberChar c = true) (rest : List Char) :
      Begins (.number amount) (c :: rest)
  | flag (holds : Bool) : Begins (.flag holds) (if holds then "true" else "false").toList

theorem begins_number (amount : Number) (mark : List Char) :
    Begins (.number amount) (amount.text ++ mark) := by
  obtain ⟨c, rest, same⟩ := List.exists_cons_of_ne_nil amount.text_ne_nil
  have member : c ∈ amount.text := by
    rw [same]
    exact List.mem_cons_self
  rw [same]
  exact .number amount (Number.isNumberChar_of_mem_text member) _

theorem begins_literal (value : Scalar) : value.Begins value.literal.toList := by
  cases value with
  | text content =>
      have chars : (javaString content).toList = '"' :: ((escapeJava content).toList ++ ['"']) := by
        simp [javaString]
      rw [literal, chars]
      exact .text content _
  | number amount =>
      rw [literal, Number.javaLiteral, String.toList_ofList]
      exact begins_number amount _
  | flag holds => exact .flag holds

theorem begins_quotedLabel (value : Scalar) : value.Begins value.toJson.quotedLabel.toList := by
  cases value with
  | text content =>
      rw [toJson, Json.quotedLabel, toList_quoteOnly]
      exact .text content _
  | number amount =>
      rw [toJson, quotedLabel_number]
      have begins := begins_number amount []
      rwa [List.append_nil] at begins
  | flag holds =>
      rw [toJson, quotedLabel_flag]
      exact .flag holds

/-- Scalars of different kinds begin differently, and truth values are told apart. -/
theorem eq_of_begins {left right : Scalar} {argument : List Char}
    (isLeft : left.Begins argument) (isRight : right.Begins argument)
    (texts : ∀ first second, left = .text first → right = .text second → first = second)
    (numbers : ∀ first second, left = .number first → right = .number second → first = second) :
    left = right := by
  have noPart : ∀ (holds : Bool) {c : Char} {rest : List Char}, Path.isNumberChar c = true →
      (if holds then "true" else "false").toList ≠ c :: rest := by
    intro holds c rest isPart same
    cases holds with
    | true =>
        injection same with isFirst _
        rw [← isFirst] at isPart
        exact absurd isPart (by decide)
    | false =>
        injection same with isFirst _
        rw [← isFirst] at isPart
        exact absurd isPart (by decide)
  cases left with
  | text leftText =>
      cases right with
      | text rightText => rw [texts leftText rightText rfl rfl]
      | number rightNumber =>
          cases isLeft
          cases isRight with
          | number _ isPart => exact absurd isPart (by decide)
      | flag rightFlag =>
          generalize same : argument = chars at isRight
          cases isLeft
          cases isRight
          cases rightFlag <;> cases same
  | number leftNumber =>
      cases right with
      | text rightText =>
          cases isRight
          cases isLeft with
          | number _ isPart => exact absurd isPart (by decide)
      | number rightNumber => rw [numbers leftNumber rightNumber rfl rfl]
      | flag rightFlag =>
          generalize same : argument = chars at isRight
          cases isLeft with
          | number _ isPart rest =>
              cases isRight
              exact absurd same.symm (noPart rightFlag isPart)
  | flag leftFlag =>
      generalize same : argument = chars at isRight
      cases isLeft
      cases isRight with
      | text rightText rest => cases leftFlag <;> cases same
      | number _ isPart rest => exact absurd same (noPart leftFlag isPart)
      | flag rightFlag => cases leftFlag <;> cases rightFlag <;> first | rfl | cases same

variable {left right : Scalar} (leftCanonical : left.IsCanonical)
  (rightCanonical : right.IsCanonical)

include leftCanonical rightCanonical

theorem eq_of_literal (same : left.literal = right.literal) : left = right := by
  have isRight := right.begins_literal
  rw [← same] at isRight
  refine eq_of_begins left.begins_literal isRight ?_ ?_
  · rintro first second rfl rfl
    exact javaString_injective same
  · rintro first second rfl rfl
    exact Number.eq_of_javaLiteral leftCanonical rightCanonical same

theorem eq_of_quotedLabel (same : left.toJson.quotedLabel = right.toJson.quotedLabel) :
    left = right := by
  have isRight := right.begins_quotedLabel
  rw [← same] at isRight
  refine eq_of_begins left.begins_quotedLabel isRight ?_ ?_
  · rintro first second rfl rfl
    exact quoteOnly_injective same
  · rintro first second rfl rfl
    have texts := congrArg String.toList same
    rw [toJson, toJson, quotedLabel_number, quotedLabel_number] at texts
    exact Number.eq_of_text leftCanonical rightCanonical texts

end Scalar

end BodyContract
