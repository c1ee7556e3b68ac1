import BodyContract.Proofs.Path.Pieces
import BodyContract.Proofs.Pattern.Literal
import BodyContract.Regex.Match

/-!
# Literal expressions as conditions

Where a path holds a literal expression, the whole match of it is read as the
sequence of its characters between the ends of the text, and its text matches.
-/

namespace BodyContract

namespace Regex

open Pattern (IsLiteral isSpecial ne_of_not_isSpecial ne_of_isEscapable)

/-- The expression that matches a character. -/
def character (c : Char) : Regex := .oneOf (.single c)

/-- The expression that matches a text as a whole. -/
def wholeText (text : List Char) : Regex :=
  .sequence [.look .textStart, .group (ofSequence (text.map character)), .look .textEnd]

variable {pattern text : List Char}

/-! ## Reading -/

section Reading

variable (fuel : Nat) (branches : List Regex) (items : List RegexItem) (names : List String)
  (rest : List Char)

theorem readBranches?_plain {c : Char} (noMeaning : isSpecial c = false) :
    readBranches? (fuel + 1) branches items ⟨c :: rest, .initial, names⟩ =
      readBranches? fuel branches (some (character c) :: items) ⟨rest, .initial, names⟩ := by
  have other : ∀ special, isSpecial special = true → c = special → False :=
    fun special hasMeaning => ne_of_not_isSpecial noMeaning special hasMeaning
  have same : (RegexCursor.mk (c :: rest) .initial names).skipBlanks =
      ⟨c :: rest, .initial, names⟩ := rfl
  rw [readBranches?, same]
  dsimp only
  split
  all_goals first
    | exact absurd rfl (other _ (by decide))
    | rfl

theorem readEscape?_of_isEscapable {c : Char} (escapable : isEscapable c = true) :
    readEscape? ⟨c :: rest, .initial, names⟩ =
      some (.literal c false, ⟨rest, .initial, names⟩) := by
  have other : ∀ letter, isEscapable letter = false → c = letter → False :=
    fun letter isLetter => ne_of_isEscapable escapable letter isLetter
  rw [readEscape?]
  dsimp only
  split
  all_goals first
    | exact absurd rfl (other _ (by decide))
    | exact if_pos escapable

theorem readBranches?_escaped {c : Char} (escapable : isEscapable c = true) :
    readBranches? (fuel + 1) branches items ⟨'\\' :: c :: rest, .initial, names⟩ =
      readBranches? fuel branches (some (character c) :: items) ⟨rest, .initial, names⟩ := by
  have same : (RegexCursor.mk ('\\' :: c :: rest) .initial names).skipBlanks =
      ⟨'\\' :: c :: rest, .initial, names⟩ := rfl
  have behind : (RegexCursor.mk ('\\' :: c :: rest) .initial names).withRest (c :: rest) =
      ⟨c :: rest, .initial, names⟩ := rfl
  rw [readBranches?, same]
  simp only [behind, readEscape?_of_isEscapable names rest escapable]
  rfl

/-- A literal expression is read character by character. -/
theorem readBranches?_literal (literal : IsLiteral pattern text) :
    readBranches? (fuel + text.length) branches items ⟨pattern ++ rest, .initial, names⟩ =
      readBranches? fuel branches ((text.map fun c => some (character c)).reverse ++ items)
        ⟨rest, .initial, names⟩ := by
  induction literal generalizing items with
  | nil => rfl
  | plain noMeaning _ inductionHypothesis =>
      rw [List.length_cons, ← Nat.add_assoc, List.cons_append,
        readBranches?_plain _ _ _ _ _ noMeaning, inductionHypothesis]
      simp
  | escaped escapable _ _ inductionHypothesis =>
      rw [List.length_cons, ← Nat.add_assoc, List.cons_append, List.cons_append,
        readBranches?_escaped _ _ _ _ _ escapable, inductionHypothesis]
      simp

end Reading

theorem filterMap_characters (text : List Char) :
    (text.map fun c => some (character c)).filterMap id = text.map character := by
  rw [List.filterMap_map]
  exact congrFun List.filterMap_eq_map text

/-- The whole match of a literal expression is read as that of its text. -/
theorem readBranches?_whole (literal : IsLiteral pattern text) (fuel : Nat) :
    readBranches? (fuel + text.length + 4) [] []
        ⟨'^' :: '(' :: '?' :: ':' :: (pattern ++ [')', '$']), .initial, []⟩ =
      some (wholeText text, ⟨[], .initial, []⟩) := by
  have body : readBranches? (fuel + text.length + 2) [] []
      ⟨pattern ++ [')', '$'], .initial, []⟩ =
        some (ofSequence (text.map character), ⟨[')', '$'], .initial, []⟩) := by
    rw [Nat.add_right_comm, readBranches?_literal _ _ _ _ _ literal, List.append_nil]
    have closed : ofItems (text.map fun c => some (character c)).reverse =
        ofSequence (text.map character) := by
      rw [ofItems, List.reverse_reverse, filterMap_characters]
    rw [← closed]
    rfl
  have opened : openGroup? ⟨'?' :: ':' :: (pattern ++ [')', '$']), .initial, []⟩ =
      some (.group ⟨pattern ++ [')', '$'], .initial, []⟩) := rfl
  have start : readBranches? (fuel + text.length + 4) [] []
      ⟨'^' :: '(' :: '?' :: ':' :: (pattern ++ [')', '$']), .initial, []⟩ =
        readBranches? (fuel + text.length + 3) [] [some (.look .textStart)]
          ⟨'(' :: '?' :: ':' :: (pattern ++ [')', '$']), .initial, []⟩ := rfl
  have group : readBranches? (fuel + text.length + 3) [] [some (.look .textStart)]
      ⟨'(' :: '?' :: ':' :: (pattern ++ [')', '$']), .initial, []⟩ =
        readBranches? (fuel + text.length + 2) []
          [some (.group (ofSequence (text.map character))), some (.look .textStart)]
          ⟨['$'], .initial, []⟩ := by
    have same : (RegexCursor.mk ('(' :: '?' :: ':' :: (pattern ++ [')', '$'])) .initial
        []).skipBlanks = ⟨'(' :: '?' :: ':' :: (pattern ++ [')', '$']), .initial, []⟩ := rfl
    have behind : (RegexCursor.mk ('(' :: '?' :: ':' :: (pattern ++ [')', '$'])) .initial
        []).withRest ('?' :: ':' :: (pattern ++ [')', '$'])) =
          ⟨'?' :: ':' :: (pattern ++ [')', '$']), .initial, []⟩ := rfl
    rw [readBranches?, same]
    simp only [behind, opened, bind, Option.bind, body]
  rw [start, group]
  rfl

/-! ## The size of the machine -/

theorem bytes_character_le (c : Char) : (character c).bytes ≤ 320 := by
  rw [character, bytes, setBytes, CharSet.ranges_single]
  dsimp only
  split <;> decide

theorem bytes_ofSequence_le (items : List Regex) :
    (ofSequence items).bytes ≤ 32 + bytesOfList items := by
  match items with
  | [] => exact Nat.le_refl 32
  | [only] =>
      rw [ofSequence, bytesOfList, bytesOfList]
      omega
  | first :: second :: rest =>
      have same : (ofSequence (first :: second :: rest)).bytes =
          bytesOfList (first :: second :: rest) := rfl
      omega

theorem bytesOfList_characters_le (text : List Char) :
    bytesOfList (text.map character) ≤ 320 * text.length := by
  induction text with
  | nil => exact Nat.le_refl 0
  | cons c rest inductionHypothesis =>
      have first := bytes_character_le c
      rw [List.map_cons, bytesOfList, List.length_cons]
      omega

theorem heightOfList_characters (text : List Char) :
    heightOfList (text.map character) = 0 := by
  induction text with
  | nil => rfl
  | cons c rest inductionHypothesis =>
      rw [List.map_cons, heightOfList, inductionHypothesis]
      rfl

theorem height_characters_le (text : List Char) :
    (ofSequence (text.map character)).height ≤ 1 := by
  match text with
  | [] => exact Nat.zero_le 1
  | [only] => exact Nat.zero_le 1
  | first :: second :: rest =>
      have flat := heightOfList_characters (first :: second :: rest)
      have same : (ofSequence ((first :: second :: rest).map character)).height =
          1 + heightOfList ((first :: second :: rest).map character) := rfl
      omega

/-- The whole match of a literal expression that is not too long is accepted. -/
theorem parse?_whole (literal : IsLiteral pattern text) (short : text.length < 32768) :
    parse? ("^(?:" ++ String.ofList pattern ++ ")$") = some (wholeText text) := by
  have chars : ("^(?:" ++ String.ofList pattern ++ ")$").toList =
      '^' :: '(' :: '?' :: ':' :: (pattern ++ [')', '$']) := by
    simp
  have long := Pattern.length_le_of_isLiteral literal
  obtain ⟨spare, enough⟩ : ∃ spare,
      2 * ('^' :: '(' :: '?' :: ':' :: (pattern ++ [')', '$'])).length + 2 =
        spare + text.length + 4 := by
    refine ⟨2 * ('^' :: '(' :: '?' :: ':' :: (pattern ++ [')', '$'])).length + 2 -
      (text.length + 4), ?_⟩
    simp only [List.length_cons, List.length_append, List.length_nil]
    omega
  have low : (wholeText text).height ≤ heightLimit := by
    have inner := height_characters_le text
    rw [wholeText, height, heightOfList, heightOfList, heightOfList, heightOfList, height, height,
      height, heightLimit]
    omega
  have small : (wholeText text).bytes ≤ bytesLimit := by
    have inner := bytes_ofSequence_le (text.map character)
    have each := bytesOfList_characters_le text
    have limit : bytesLimit = 10485760 := by decide
    rw [limit, wholeText, bytes, bytesOfList, bytesOfList, bytesOfList, bytesOfList, bytes, bytes,
      bytes, stateBytes]
    omega
  rw [parse?, chars, enough, readBranches?_whole literal]
  simp [low, small]

/-! ## Matching -/

theorem advance_ofSequence (text : Array Char) (items : List Regex) (places : List Nat) :
    advance text (ofSequence items) places = advanceThrough text items places := by
  match items with
  | [] => rfl
  | [only] => rfl
  | first :: second :: rest => rfl

/-- Characters lead from their place in a text to the place behind them. -/
theorem mem_advanceThrough_characters (front text : List Char) {places : List Nat}
    (here : front.length ∈ places) : (front ++ text).length ∈
      advanceThrough (front ++ text).toArray (text.map character) places := by
  induction text generalizing front places with
  | nil =>
      rw [List.append_nil]
      exact here
  | cons c rest inductionHypothesis =>
      have step : (front ++ [c]).length ∈
          advance (front ++ c :: rest).toArray (character c) places := by
        rw [character, advance, List.mem_filterMap]
        refine ⟨front.length, here, ?_⟩
        simp
      have later := inductionHypothesis (front ++ [c]) step
      rw [List.append_assoc, List.singleton_append] at later
      rw [List.map_cons, advanceThrough]
      exact later

theorem isMatch_wholeText (text : List Char) :
    (wholeText text).isMatch (String.ofList text) = true := by
  have started : 0 ∈ (List.range (text.toArray.size + 1)).filter
      (Look.textStart.holdsAt text.toArray) := by
    simp [Look.holdsAt, Look.holds]
  have reached : text.length ∈ advance text.toArray (ofSequence (text.map character))
      ((List.range (text.toArray.size + 1)).filter (Look.textStart.holdsAt text.toArray)) := by
    rw [advance_ofSequence]
    exact mem_advanceThrough_characters [] text started
  have ended : text.length ∈ advance text.toArray (wholeText text)
      (List.range (text.toArray.size + 1)) := by
    rw [wholeText, advance, advanceThrough, advanceThrough, advanceThrough, advanceThrough,
      advance, advance, advance, List.mem_filter]
    exact ⟨reached, by simp [Look.holdsAt, Look.holds]⟩
  rw [isMatch, String.toList_ofList, Bool.not_eq_true', List.isEmpty_eq_false_iff]
  exact List.ne_nil_of_mem ended

end Regex

namespace Path

open Pattern (IsLiteral)

/-- A literal expression with its slashes plain is literal and has the same text. -/
theorem plainSlashes?_literal {pattern text : List Char} (literal : IsLiteral pattern text) :
    ∃ plain, plainSlashes? pattern = some plain ∧ IsLiteral plain text := by
  induction literal with
  | nil => exact ⟨[], rfl, .nil⟩
  | @plain c pattern text noMeaning _ inductionHypothesis =>
      obtain ⟨plain, isPlain, later⟩ := inductionHypothesis
      refine ⟨c :: plain, ?_, .plain noMeaning later⟩
      rw [plainSlashes?_plain (Pattern.ne_of_not_isSpecial noMeaning _ (by decide)), isPlain]
      rfl
  | @escaped c pattern text escapable noBackslash _ inductionHypothesis =>
      obtain ⟨plain, isPlain, later⟩ := inductionHypothesis
      by_cases slash : c = '/'
      · subst slash
        refine ⟨'/' :: plain, ?_, .plain (by decide) later⟩
        rw [plainSlashes?, isPlain]
        rfl
      · refine ⟨'\\' :: c :: plain, ?_, .escaped escapable noBackslash later⟩
        rw [plainSlashes?, isPlain, Option.map_some, if_neg slash]

/-- A literal expression that is not too long matches its text as a whole. -/
theorem wholeMatch?_literal {pattern text : List Char} (literal : IsLiteral pattern text)
    (short : text.length < 32768) : ∃ regex, wholeMatch? (String.ofList pattern) = some regex ∧
      regex.regex.isMatch (String.ofList text) = true := by
  obtain ⟨plain, isPlain, plainLiteral⟩ := plainSlashes?_literal literal
  refine ⟨⟨"^(?:" ++ String.ofList plain ++ ")$", Regex.wholeText text⟩, ?_,
    Regex.isMatch_wholeText text⟩
  rw [wholeMatch?, String.toList_ofList, isPlain, Option.bind_eq_bind, Option.bind_some, fullMatch?]
  simp [Regex.parse?_whole plainLiteral short]

end Path

end BodyContract
