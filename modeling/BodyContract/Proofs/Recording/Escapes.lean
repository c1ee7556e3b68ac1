import BodyContract.Proofs.Recording.Quoting

/-!
# Escaped texts

An escaped text is the inside of a string literal: it has printable characters of
ASCII only, every backslash begins a whole escape, and every quote belongs to one.
The units that the literal stands for are those of the text, and from its units a
text is put together again.
-/

namespace BodyContract

namespace Java

/-! ## Units -/

/-- The first half of a pair of units. -/
def isUpperHalf (unit : Nat) : Bool := 0xD800 ≤ unit && unit ≤ 0xDBFF

/-- The second half of a pair of units. -/
def isLowerHalf (unit : Nat) : Bool := 0xDC00 ≤ unit && unit ≤ 0xDFFF

/-- The characters of UTF-16 units, if no half of a pair stands alone. -/
def ofUtf16? : List Nat → Option (List Char)
  | [] => some []
  | unit :: rest =>
      if isUpperHalf unit then
        match rest with
        | [] => none
        | lower :: others =>
            if isLowerHalf lower then
              (ofUtf16? others).map fun text =>
                Char.ofNat (0x10000 + (unit - 0xD800) * 0x400 + (lower - 0xDC00)) :: text
            else none
      else if isLowerHalf unit then none
      else (ofUtf16? rest).map fun text => Char.ofNat unit :: text

theorem ofUtf16?_single {unit : Nat} (noUpper : isUpperHalf unit = false)
    (noLower : isLowerHalf unit = false) (rest : List Nat) :
    ofUtf16? (unit :: rest) = (ofUtf16? rest).map fun text => Char.ofNat unit :: text := by
  rw [ofUtf16?.eq_def]
  simp only [noUpper, noLower, Bool.false_eq_true, if_false]

theorem ofUtf16?_pair {upper lower : Nat} (isUpper : isUpperHalf upper = true)
    (isLower : isLowerHalf lower = true) (rest : List Nat) :
    ofUtf16? (upper :: lower :: rest) = (ofUtf16? rest).map fun text =>
      Char.ofNat (0x10000 + (upper - 0xD800) * 0x400 + (lower - 0xDC00)) :: text := by
  rw [ofUtf16?.eq_def]
  simp only [isUpper, isLower, if_true]

/-- A character is put together from its units, whatever follows. -/
theorem ofUtf16?_utf16Units (c : Char) (rest : List Nat) :
    ofUtf16? (utf16Units c ++ rest) = (ofUtf16? rest).map fun text => c :: text := by
  have valid : c.toNat < 0xD800 ∨ 0xDFFF < c.toNat ∧ c.toNat < 0x110000 := c.valid
  rw [utf16Units]
  by_cases short : c.toNat < 0x10000
  · -- a single unit is no half of a pair
    have noUpper : isUpperHalf c.toNat = false := by
      simp only [isUpperHalf, Bool.and_eq_false_iff, decide_eq_false_iff_not]
      omega
    have noLower : isLowerHalf c.toNat = false := by
      simp only [isLowerHalf, Bool.and_eq_false_iff, decide_eq_false_iff_not]
      omega
    rw [if_pos short, List.singleton_append, ofUtf16?_single noUpper noLower, Char.ofNat_toNat]
  · obtain ⟨upper, isUpper⟩ : ∃ upper, upper = 0xD800 + (c.toNat - 0x10000) / 0x400 := ⟨_, rfl⟩
    obtain ⟨lower, isLower⟩ : ∃ lower, lower = 0xDC00 + (c.toNat - 0x10000) % 0x400 := ⟨_, rfl⟩
    have upperHalf : isUpperHalf upper = true := by
      simp only [isUpperHalf, Bool.and_eq_true, decide_eq_true_eq]
      omega
    have lowerHalf : isLowerHalf lower = true := by
      simp only [isLowerHalf, Bool.and_eq_true, decide_eq_true_eq]
      omega
    have total : 0x10000 + (upper - 0xD800) * 0x400 + (lower - 0xDC00) = c.toNat := by omega
    rw [if_neg short, ← isUpper, ← isLower, List.cons_append, List.singleton_append,
      ofUtf16?_pair upperHalf lowerHalf, total, Char.ofNat_toNat]

theorem ofUtf16?_utf16 (text : String) : ofUtf16? (utf16 text) = some text.toList := by
  rw [utf16]
  induction text.toList with
  | nil => rfl
  | cons c rest inductionHypothesis =>
      rw [List.flatMap_cons, ofUtf16?_utf16Units, inductionHypothesis]
      rfl

/-! ## The inside of a literal -/

/-- The units of what stands between the quotes of a literal. -/
def readBody? (body : String) : Option (List Nat) :=
  match readFrom? ([], .literal [] [] [] .plain) body.toList with
  | some ([], .literal [] [] units .plain) => some units
  | _ => none

/-- The text that a literal stands for. -/
def unescape? (body : String) : Option String :=
  ((readBody? body).bind ofUtf16?).map String.ofList

/-- Whether a character is one of those from the blank to the last one of ASCII. -/
def isBasic (c : Char) : Bool := 0x20 ≤ c.toNat && c.toNat ≤ 0x7F

/-- Whether a character and a backslash in front of it are an escape. -/
def isShortEscape (c : Char) : Bool := ['"', '\\', 'b', 'n', 't', 'f', 'r'].contains c

def isUpperHexDigit (c : Char) : Bool := c.isDigit || ('A' ≤ c && c ≤ 'F')

/-- Whether every backslash begins a whole escape and every quote belongs to one. -/
def isClosedBody : List Char → Bool
  | [] => true
  | '\\' :: 'u' :: first :: second :: third :: fourth :: rest =>
      [first, second, third, fourth].all isUpperHexDigit && isClosedBody rest
  | '\\' :: c :: rest => isShortEscape c && isClosedBody rest
  | c :: rest => !(c == '\\' || c == '"') && isClosedBody rest

theorem isUpperHexDigit_hexDigit (value : Nat) :
    isUpperHexDigit (hexDigit (value % 16)).toUpper = true := by
  have each : ∀ digit : Fin 16, isUpperHexDigit (hexDigit digit).toUpper = true := by decide
  exact each ⟨value % 16, Nat.mod_lt value (by decide)⟩

theorem isBasic_of_isUpperHexDigit {c : Char} (digit : isUpperHexDigit c = true) :
    isBasic c = true := by
  simp only [isUpperHexDigit, Char.isDigit, Bool.or_eq_true, Bool.and_eq_true, decide_eq_true_eq,
    Char.le_def, UInt32.le_iff_toNat_le, ge_iff_le] at digit
  simp only [isBasic, Bool.and_eq_true, decide_eq_true_eq]
  have zero : ('0' : Char).val.toNat = 48 := rfl
  have nine : ('9' : Char).val.toNat = 57 := rfl
  have first : ('A' : Char).val.toNat = 65 := rfl
  have last : ('F' : Char).val.toNat = 70 := rfl
  have value : c.toNat = c.val.toNat := rfl
  omega

theorem isClosedBody_unitEscape (unit : Nat) (rest : List Char) :
    isClosedBody (unitEscape unit ++ rest) = isClosedBody rest := by
  rw [unitEscape, upperHexDigits_four]
  simp [isClosedBody, isUpperHexDigit_hexDigit]

theorem isClosedBody_unitEscapes (units : List Nat) (rest : List Char) :
    isClosedBody (units.flatMap unitEscape ++ rest) = isClosedBody rest := by
  induction units with
  | nil => rfl
  | cons unit others inductionHypothesis =>
      rw [List.flatMap_cons, List.append_assoc, isClosedBody_unitEscape, inductionHypothesis]

theorem isClosedBody_plain {c : Char} (noBackslash : c ≠ '\\') (noQuote : c ≠ '"')
    (rest : List Char) : isClosedBody (c :: rest) = isClosedBody rest := by
  rw [isClosedBody]
  · simp [noBackslash, noQuote]
  · exact fun _ _ _ _ _ same _ => noBackslash same
  · exact fun _ _ same _ => noBackslash same

theorem isClosedBody_escapeJavaChar (c : Char) (rest : List Char) :
    isClosedBody (escapeJavaChar c ++ rest) = isClosedBody rest := by
  rw [escapeJavaChar]
  repeat' split
  all_goals try (simp [isClosedBody, isShortEscape])
  · exact isClosedBody_unitEscapes _ rest
  · rename_i noQuote noBackslash _ _ _ _ _ _
    exact isClosedBody_plain noBackslash noQuote rest

theorem isClosedBody_escapeJava (text : String) :
    isClosedBody (escapeJava text).toList = true := by
  rw [escapeJava, String.toList_ofList]
  induction text.toList with
  | nil => rfl
  | cons c rest inductionHypothesis =>
      rw [List.flatMap_cons, isClosedBody_escapeJavaChar, inductionHypothesis]

theorem isBasic_of_mem_unitEscape {unit : Nat} {c : Char} (member : c ∈ unitEscape unit) :
    isBasic c = true := by
  rw [unitEscape, upperHexDigits_four] at member
  have digit := fun value => isBasic_of_isUpperHexDigit (isUpperHexDigit_hexDigit value)
  simp only [List.mem_cons, List.not_mem_nil, or_false] at member
  rcases member with rfl | rfl | rfl | rfl | rfl | rfl
  · rfl
  · rfl
  all_goals exact digit _

theorem isBasic_of_mem_escapeJavaChar {c written : Char} (member : written ∈ escapeJavaChar c) :
    isBasic written = true := by
  rw [escapeJavaChar] at member
  repeat' split at member
  all_goals try (simp only [List.mem_cons, List.not_mem_nil, or_false] at member)
  all_goals try (rcases member with rfl | rfl <;> rfl)
  · obtain ⟨unit, -, isIn⟩ := List.mem_flatMap.mp member
    exact isBasic_of_mem_unitEscape isIn
  · rename_i inside
    simp only [Bool.or_eq_true, decide_eq_true_eq] at inside
    rw [member, isBasic, Bool.and_eq_true, decide_eq_true_eq, decide_eq_true_eq]
    omega

theorem isBasic_escapeJava (text : String) :
    (escapeJava text).toList.all isBasic = true := by
  rw [escapeJava, String.toList_ofList, List.all_eq_true]
  intro c member
  obtain ⟨written, -, isIn⟩ := List.mem_flatMap.mp member
  exact isBasic_of_mem_escapeJavaChar isIn

/-! ## Reading escapes back -/

theorem readBody?_escapeJava (text : String) : readBody? (escapeJava text) = some (utf16 text) := by
  have leads : Leads ([], .literal [] [] [] .plain) (escapeJava text).toList
      ([], .literal [] [] (utf16 text) .plain) := by
    rw [escapeJava, String.toList_ofList]
    exact spells_flatMap (fun c _ => spells_escapeJavaChar c) [] [] [] []
  rw [readBody?, leads]

theorem unescape?_escapeJava (text : String) : unescape? (escapeJava text) = some text := by
  rw [unescape?, readBody?_escapeJava, Option.bind_some, ofUtf16?_utf16, Option.map_some,
    String.ofList_toList]

/-- An escaped text has basic characters only, its escapes are whole, and between
quotes it is one literal of an argument.  It is read back as the text that has been
escaped, so different texts are escaped differently. -/
theorem escapeJava_isLossless :
    (∀ text : String, (escapeJava text).toList.all isBasic = true ∧
      isClosedBody (escapeJava text).toList = true ∧
        FillsArgument (javaString text).toList [utf16 text] ∧
          unescape? (escapeJava text) = some text) ∧ Function.Injective escapeJava := by
  refine ⟨?_, ?_⟩
  · intro text
    exact ⟨isBasic_escapeJava text, isClosedBody_escapeJava text, fillsArgument_javaString text,
      unescape?_escapeJava text⟩
  · intro left right same
    have read := congrArg unescape? same
    rw [unescape?_escapeJava, unescape?_escapeJava] at read
    exact Option.some.inj read

/-- A text that looks like an escape is not read as one. -/
example : unescape? (escapeJava "\\u00E9😀") = some "\\u00E9😀" := by cbv

end Java

end BodyContract
