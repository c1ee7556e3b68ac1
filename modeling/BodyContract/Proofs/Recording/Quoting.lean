import BodyContract.Proofs.Recording.JavaSource
import BodyContract.Proofs.Recording.Literals

/-!
# Texts in sources

What is written between the quotes of a literal is read back as the text that it
was written for, where every character that needs it is escaped, and also where
only the quotes are escaped, if the text has neither a backslash nor the end of a
line.  The text of a document has the literals of its texts.
-/

namespace BodyContract

/-! ## Escapes -/

namespace Java

theorem hexValue?_hexDigit {digit : Nat} (small : digit < 16) :
    hexValue? (hexDigit digit) = some digit ∧ hexValue? (hexDigit digit).toUpper = some digit := by
  have each : ∀ digit : Fin 16, hexValue? (hexDigit digit) = some digit.val ∧
      hexValue? (hexDigit digit).toUpper = some digit.val := by decide
  exact each ⟨digit, small⟩

theorem spells_hexDigits {digitOf : Nat → Char}
    (reads : ∀ digit, digit < 16 → hexValue? (digitOf digit) = some digit) {unit : Nat}
    (small : unit < 65536) (allowed : isDelimiting unit = false) :
    Spells ['\\', 'u', digitOf (unit / 16 / 16 / 16 % 16), digitOf (unit / 16 / 16 % 16),
      digitOf (unit / 16 % 16), digitOf (unit % 16)] [unit] := by
  have total : ((unit / 16 / 16 / 16 % 16 * 16 + unit / 16 / 16 % 16) * 16 + unit / 16 % 16) * 16 +
      unit % 16 = unit := by omega
  have digit : ∀ value, hexValue? (digitOf (value % 16)) = some (value % 16) :=
    fun value => reads _ (Nat.mod_lt value (by decide))
  have spells := spells_unit (digit _) (digit _) (digit _) (digit _) (total ▸ allowed)
  rwa [total] at spells

theorem spells_unitEscape {unit : Nat} (small : unit < 65536)
    (allowed : isDelimiting unit = false) : Spells (unitEscape unit) [unit] := by
  rw [unitEscape, upperHexDigits_four]
  exact spells_hexDigits (fun _ isDigit => (hexValue?_hexDigit isDigit).2) small allowed

theorem isDelimiting_toNat {c : Char} (plain : isPlainInLiteral c = true) :
    isDelimiting c.toNat = false := by
  simp only [isPlainInLiteral, Bool.not_eq_true', Bool.or_eq_false_iff, beq_eq_false_iff_ne]
    at plain
  obtain ⟨⟨⟨noQuote, noBackslash⟩, noFeed⟩, noReturn⟩ := plain
  have other : ∀ delimiter : Char, c ≠ delimiter → c.toNat ≠ delimiter.toNat :=
    fun delimiter different same => different (Char.toNat_inj.mp same)
  simp only [isDelimiting, Bool.or_eq_false_iff, beq_eq_false_iff_ne]
  exact ⟨⟨⟨other _ noQuote, other _ noBackslash⟩, other _ noFeed⟩, other _ noReturn⟩

theorem isDelimiting_of_mem_utf16Units {c : Char} (plain : isPlainInLiteral c = true) {unit : Nat}
    (member : unit ∈ utf16Units c) : unit < 65536 ∧ isDelimiting unit = false := by
  have valid : c.toNat < 0xD800 ∨ 0xDFFF < c.toNat ∧ c.toNat < 0x110000 := c.valid
  rw [utf16Units] at member
  split at member
  · rename_i short
    rw [List.mem_singleton.mp member]
    exact ⟨by omega, isDelimiting_toNat plain⟩
  · simp only [List.mem_cons, List.not_mem_nil, or_false] at member
    simp only [isDelimiting, Bool.or_eq_false_iff, beq_eq_false_iff_ne]
    omega

theorem spells_unitEscapes {units : List Nat}
    (each : ∀ unit ∈ units, unit < 65536 ∧ isDelimiting unit = false) :
    Spells (units.flatMap unitEscape) units := by
  induction units with
  | nil => exact spells_nil
  | cons unit rest inductionHypothesis =>
      obtain ⟨small, allowed⟩ := each unit List.mem_cons_self
      have later := inductionHypothesis fun other member => each other (List.mem_cons_of_mem unit member)
      exact (spells_unitEscape small allowed).append later

theorem spells_escapeJavaChar (c : Char) : Spells (escapeJavaChar c) (utf16Units c) := by
  rw [escapeJavaChar]
  repeat' split
  all_goals try (subst_vars; exact spells_escaped rfl)
  · rename_i noQuote noBackslash _ noFeed _ _ noReturn _
    exact spells_unitEscapes fun unit => isDelimiting_of_mem_utf16Units
      (by simp [isPlainInLiteral, noQuote, noBackslash, noFeed, noReturn])
  · rename_i noQuote noBackslash _ noFeed _ _ noReturn _
    exact spells_plain (by simp [isPlainInLiteral, noQuote, noBackslash, noFeed, noReturn])

/-- A character as it stands in a string of a document. -/
theorem spells_escapeChar (c : Char) : Spells (Json.escapeChar c) (utf16Units c) := by
  rw [Json.escapeChar]
  repeat' split
  all_goals try (subst_vars; exact spells_escaped rfl)
  · rename_i noQuote noBackslash _ _ noFeed _ noReturn control
    have small : c.toNat < 0x10000 := by omega
    have digits := spells_hexDigits (fun _ isDigit => (hexValue?_hexDigit isDigit).1) small
      (isDelimiting_toNat (c := c)
        (by simp [isPlainInLiteral, noQuote, noBackslash, noFeed, noReturn]))
    rw [utf16Units, if_pos small]
    simpa [hexDigits] using digits
  · rename_i noQuote noBackslash _ _ noFeed _ noReturn _
    exact spells_plain (by simp [isPlainInLiteral, noQuote, noBackslash, noFeed, noReturn])

/-! ## Literals and arguments -/

theorem fillsArgument_javaString (text : String) :
    FillsArgument (javaString text).toList [utf16 text] := by
  have chars : (javaString text).toList = '"' :: (text.toList.flatMap escapeJavaChar ++ ['"']) := by
    simp [javaString, escapeJava]
  rw [chars]
  exact (spells_flatMap fun c _ => spells_escapeJavaChar c).fillsArgument

/-- Whether a character is lost by a literal in which only the quotes are escaped. -/
def isLost (c : Char) : Bool := c == '\\' || c == '\n' || c == '\r'

theorem isPlainInLiteral_eq (c : Char) : isPlainInLiteral c = !(c == '"' || isLost c) := by
  rw [isPlainInLiteral, isLost, ← Bool.or_assoc, ← Bool.or_assoc]

/-- Whether a text is told by its literal if only its quotes are escaped: it has
neither a backslash nor the end of a line. -/
def isQuotable (text : String) : Bool := text.toList.all fun c => !isLost c

theorem fillsArgument_quoteOnly {text : String} (quotable : isQuotable text = true) :
    FillsArgument (quoteOnly text).toList [utf16 text] := by
  rw [toList_quoteOnly]
  refine (spells_flatMap fun c member => ?_).fillsArgument
  have plain := List.all_eq_true.mp quotable c member
  by_cases quote : c = '"'
  · subst quote
    exact spells_escaped rfl
  · rw [if_neg quote]
    apply spells_plain
    rw [isPlainInLiteral_eq, beq_eq_false_iff_ne.mpr quote]
    exact plain

theorem fillsArgument_quoted (text : String) :
    FillsArgument (Json.quoted text) [utf16 text] :=
  (spells_flatMap fun c _ => spells_escapeChar c).fillsArgument

/-! ### What a literal is written with -/

/-- The number of units that a text is written with at least: a unit that cannot stand
for itself needs an escape. -/
def weight (units : List Nat) : Nat := units.length + units.countP isDelimiting

theorem weight_append (units more : List Nat) :
    weight (units ++ more) = weight units + weight more := by
  rw [weight, List.length_append, List.countP_append, weight, weight]
  omega

theorem weight_singleton (unit : Nat) : weight [unit] ≤ 2 := by
  rw [weight, List.countP_singleton]
  split <;> simp

theorem weight_utf16Units (c : Char) :
    weight (utf16Units c) = (utf16Units c).length + if isPlainInLiteral c then 0 else 1 := by
  by_cases plain : isPlainInLiteral c = true
  · rw [weight, if_pos plain, List.countP_eq_zero.mpr]
    intro unit member
    rw [(isDelimiting_of_mem_utf16Units plain member).2]
    decide
  · have delimits : c = '"' ∨ c = '\\' ∨ c = '\n' ∨ c = '\r' := by
      simpa [isPlainInLiteral, or_iff_not_imp_left] using plain
    rcases delimits with rfl | rfl | rfl | rfl <;> rfl

/-- The units of an escape that has begun. -/
def LiteralPlace.pending : LiteralPlace → Nat
  | .plain => 0
  | .escape => 1
  | _ => 2

/-- The units behind a literal or inside it that are not read as part of it yet. -/
def pendingBehind : Option LiteralPlace → Nat
  | none => 1
  | some place => place.pending

theorem length_utf16Units_pos (c : Char) : 0 < (utf16Units c).length := by
  rw [utf16Units]
  split <;> simp

variable {c : Char} {units : List Nat} {behind : Option LiteralPlace}

theorem cost_nextPlain? (next : LiteralPlace.nextPlain? c = some (units, behind)) :
    weight units + pendingBehind behind ≤ (utf16Units c).length := by
  have positive := length_utf16Units_pos c
  rw [LiteralPlace.nextPlain?] at next
  split at next
  · cases next
    exact positive
  split at next
  · cases next
    exact positive
  split at next
  · cases next
  · rename_i noQuote noBackslash noBreak
    rw [not_or] at noBreak
    cases next
    have plain : isPlainInLiteral c = true := by
      simp [isPlainInLiteral, noQuote, noBackslash, noBreak.1, noBreak.2]
    rw [weight_utf16Units, if_pos plain]
    exact Nat.le_refl _

theorem cost_nextDigit? {left value : Nat}
    (next : LiteralPlace.nextDigit? left value c = some (units, behind)) :
    weight units + pendingBehind behind ≤ 2 := by
  rw [LiteralPlace.nextDigit?.eq_def] at next
  split at next
  · cases next
  · split at next
    · cases next
    · cases next
      exact weight_singleton _
  · cases next
    exact Nat.le_refl _

/-- A character of a literal costs its units. -/
theorem cost_next? {place : LiteralPlace} (next : place.next? c = some (units, behind)) :
    weight units + pendingBehind behind ≤ place.pending + (utf16Units c).length := by
  have positive := length_utf16Units_pos c
  cases place with
  | plain =>
      rw [LiteralPlace.pending, Nat.zero_add]
      exact cost_nextPlain? next
  | escape =>
      have enough : 2 ≤ LiteralPlace.escape.pending + (utf16Units c).length :=
        Nat.add_le_add_left positive 1
      rw [LiteralPlace.next?] at next
      split at next
      · cases next
        exact enough
      split at next
      · cases next
        exact (weight_singleton _).trans enough
      · cases next
        exact enough
      · cases next
  | marked =>
      rw [LiteralPlace.next?] at next
      split at next
      · cases next
        exact Nat.le_add_right 2 _
      · exact Nat.le_add_right_of_le (cost_nextDigit? next)
  | digits left value => exact Nat.le_add_right_of_le (cost_nextDigit? next)
  | octal left value =>
      have begun : (LiteralPlace.octal left value).pending = 2 := rfl
      rw [LiteralPlace.next?.eq_def] at next
      dsimp only at next
      split at next
      · cases next
        exact Nat.le_add_right 2 _
      · obtain ⟨⟨more, goesOn⟩, plain, same⟩ := Option.map_eq_some_iff.mp next
        cases same
        have cheap := cost_nextPlain? plain
        have first : weight (value :: more) = weight [value] + weight more :=
          weight_append [value] more
        have single := weight_singleton value
        dsimp only
        omega

/-- The units that have been read at least: those of closed literals with their quotes,
and those of an open one. -/
def Place.cost : Place → Nat
  | .argument _ literals => (literals.map fun units => weight units + 2).sum
  | .literal _ literals units place =>
      (literals.map fun units => weight units + 2).sum + (weight units + place.pending + 1)
  | _ => 0

theorem cost_step {start behind : Reading} (next : next? start c = some behind) :
    behind.2.cost ≤ start.2.cost + (utf16Units c).length := by
  have positive := length_utf16Units_pos c
  obtain ⟨calls, place⟩ := start
  cases place with
  | front =>
      rw [next?] at next
      split at next
      · cases next
        exact Nat.zero_le _
      · cases next
  | name letters =>
      rw [next?] at next
      split at next
      · cases next
        exact Nat.zero_le _
      split at next
      · cases next
        exact Nat.zero_le _
      · cases next
  | argument name literals =>
      rw [next?] at next
      split at next
      · cases next
        exact Nat.zero_le _
      split at next
      · cases next
        exact Nat.add_le_add_left positive _
      split at next
      · cases next
        exact Nat.le_add_right _ _
      · cases next
  | literal name literals units place =>
      rw [next?] at next
      obtain ⟨⟨more, goesOn⟩, read, same⟩ := Option.map_eq_some_iff.mp next
      have cheap := cost_next? read
      cases goesOn with
      | none =>
          cases same
          simp only [Place.cost, List.map_append, List.map_cons, List.map_nil, List.sum_append,
            List.sum_cons, List.sum_nil, weight_append]
          rw [pendingBehind] at cheap
          omega
      | some place =>
          cases same
          simp only [Place.cost, weight_append]
          rw [pendingBehind] at cheap
          omega

theorem Leads.cost_le {start behind : Reading} {text : List Char}
    (leads : Leads start text behind) :
    behind.2.cost ≤ start.2.cost + (text.flatMap utf16Units).length := by
  induction text generalizing start with
  | nil =>
      cases leads
      exact Nat.le_refl _
  | cons c rest inductionHypothesis =>
      obtain ⟨middle, first, later⟩ := Option.bind_eq_some_iff.mp leads
      have step := cost_step first
      have steps := inductionHypothesis later
      rw [List.flatMap_cons, List.length_append]
      omega

theorem length_units_escapedFor (text : List Char) :
    ((escapedFor '"' text).flatMap utf16Units).length =
      (text.flatMap utf16Units).length + text.countP (· == '"') := by
  induction text with
  | nil => rfl
  | cons c rest inductionHypothesis =>
      rw [escapedFor_cons, List.flatMap_append, List.length_append, inductionHypothesis,
        List.flatMap_cons, List.length_append, List.countP_cons]
      by_cases quote : c = '"'
      · rw [if_pos quote, if_pos (beq_iff_eq.mpr quote), quote]
        have two : ((['\\', '"'] : List Char).flatMap utf16Units).length = 2 := rfl
        have one : (utf16Units '"').length = 1 := rfl
        omega
      · rw [if_neg quote, if_neg (fun same => quote (beq_iff_eq.mp same)), List.flatMap_singleton]
        omega

theorem weight_units (text : List Char) : weight (text.flatMap utf16Units) =
    (text.flatMap utf16Units).length + (text.countP (· == '"') + text.countP isLost) := by
  induction text with
  | nil => rfl
  | cons c rest inductionHypothesis =>
      have kinds : (if isPlainInLiteral c = true then 0 else 1) =
          (if (c == '"') = true then 1 else 0) + if isLost c = true then 1 else 0 := by
        by_cases quote : c = '"'
        · subst quote
          rfl
        · rw [isPlainInLiteral_eq, beq_eq_false_iff_ne.mpr quote]
          cases isLost c <;> rfl
      rw [List.flatMap_cons, weight_append, weight_utf16Units, inductionHypothesis,
        List.length_append, List.countP_cons, List.countP_cons, kinds]
      omega

/-- A text is given back by the literal in which only its quotes are escaped exactly if
it has neither a backslash nor the end of a line. -/
theorem fillsArgument_quoteOnly_iff (text : String) :
    FillsArgument (quoteOnly text).toList [utf16 text] ↔ isQuotable text = true := by
  refine ⟨?_, fillsArgument_quoteOnly⟩
  intro fills
  have cheap := (fills [] [] []).cost_le
  have quotes : ((quoteOnly text).toList.flatMap utf16Units).length =
      (text.toList.flatMap utf16Units).length + text.toList.countP (· == '"') + 2 := by
    have one : (utf16Units '"').length = 1 := rfl
    rw [toList_quoteOnly, List.flatMap_cons, List.flatMap_append, List.length_append,
      List.length_append, length_units_escapedFor, List.flatMap_singleton, one]
    omega
  have needed : weight (utf16 text) = (text.toList.flatMap utf16Units).length +
      (text.toList.countP (· == '"') + text.toList.countP isLost) := weight_units text.toList
  have noneLost : text.toList.countP isLost = 0 := by
    simp only [Place.cost, List.nil_append, List.map_cons, List.map_nil, List.sum_cons,
      List.sum_nil] at cheap
    omega
  rw [isQuotable, List.all_eq_true]
  intro c member
  rw [Bool.not_eq_true', Bool.eq_false_iff]
  exact List.countP_eq_zero.mp noneLost c member

theorem isPlainInArgument_of_isNumberChar {c : Char} (isPart : Path.isNumberChar c = true) :
    isPlainInArgument c = true := by
  have other : ∀ delimiter, Path.isNumberChar delimiter = false → c ≠ delimiter := by
    rintro delimiter noPart rfl
    rw [isPart] at noPart
    cases noPart
  simp [isPlainInArgument, other '"' rfl, other '(' rfl, other ')' rfl, other '\'' rfl,
    other '\\' rfl, other '\n' rfl, other '\r' rfl]

theorem fillsArgument_toString (number : Nat) : FillsArgument (toString number).toList [] := by
  refine fillsArgument_plain (List.all_eq_true.mpr fun c member => ?_)
  rw [toList_toString] at member
  exact isPlainInArgument_of_isNumberChar
    (Json.isNumberChar_of_isDigit (isDigit_of_mem_toDigits member))

theorem fillsArgument_numberText (number : Number) : FillsArgument number.text [] :=
  fillsArgument_plain (List.all_eq_true.mpr fun _ member =>
    isPlainInArgument_of_isNumberChar (Number.isNumberChar_of_mem_text member))

theorem fillsArgument_javaLiteral (number : Number) :
    FillsArgument number.javaLiteral.toList [] := by
  refine fillsArgument_plain (List.all_eq_true.mpr fun c member => ?_)
  rcases isNumberChar_of_mem_javaLiteral member with isPart | rfl
  · exact isPlainInArgument_of_isNumberChar isPart
  · rfl

end Java

/-! ## Documents -/

namespace Json

mutual

/-- The texts of a document, in the order in which they are written: the names of
members and the values that are texts. -/
def texts : Json → List String
  | .string text => [text]
  | .array elements => textsOfElements elements
  | .object members => textsOfMembers members
  | _ => []

def textsOfElements : List Json → List String
  | [] => []
  | element :: rest => element.texts ++ textsOfElements rest

def textsOfMembers : List (String × Json) → List String
  | [] => []
  | (name, value) :: rest => name :: (value.texts ++ textsOfMembers rest)

end

end Json

namespace Java

mutual

/-- The literals of a document in an argument are those of its texts. -/
theorem fillsArgument_chars (document : Json) :
    FillsArgument document.chars (document.texts.map utf16) := by
  cases document with
  | null => exact fillsArgument_plain rfl
  | bool holds =>
      cases holds with
      | true => exact fillsArgument_plain rfl
      | false => exact fillsArgument_plain rfl
  | number amount => exact fillsArgument_numberText amount
  | string text => exact fillsArgument_quoted text
  | array elements =>
      rw [Json.chars, Json.texts]
      have ending : FillsArgument [']'] [] := fillsArgument_plain rfl
      have fills := ((fillsArgument_charsOfElements elements).append ending).cons
        (c := '[') rfl
      rwa [List.append_nil] at fills
  | object members =>
      rw [Json.chars, Json.texts]
      have ending : FillsArgument ['\x7d'] [] := fillsArgument_plain rfl
      have fills := ((fillsArgument_charsOfMembers members).append ending).cons
        (c := '\x7b') rfl
      rwa [List.append_nil] at fills

theorem fillsArgument_charsOfElements (elements : List Json) :
    FillsArgument (Json.charsOfElements elements)
      ((Json.textsOfElements elements).map utf16) := by
  match elements with
  | [] => exact fillsArgument_nil
  | [element] =>
      rw [Json.charsOfElements, Json.textsOfElements, Json.textsOfElements, List.append_nil]
      exact fillsArgument_chars element
  | element :: second :: rest =>
      rw [Json.charsOfElements, Json.textsOfElements, List.map_append]
      · exact (fillsArgument_chars element).append
          ((fillsArgument_charsOfElements (second :: rest)).cons rfl)
      · simp

theorem fillsArgument_charsOfMembers (members : List (String × Json)) :
    FillsArgument (Json.charsOfMembers members) ((Json.textsOfMembers members).map utf16) := by
  match members with
  | [] => exact fillsArgument_nil
  | [(name, value)] =>
      rw [Json.charsOfMembers, Json.textsOfMembers, Json.textsOfMembers, List.append_nil]
      exact (fillsArgument_quoted name).append ((fillsArgument_chars value).cons rfl)
  | (name, value) :: second :: rest =>
      rw [Json.charsOfMembers, Json.textsOfMembers, List.map_cons, List.map_append]
      · exact (fillsArgument_quoted name).append (((fillsArgument_chars value).append
          ((fillsArgument_charsOfMembers (second :: rest)).cons rfl)).cons rfl)
      · simp

end

end Java

end BodyContract
