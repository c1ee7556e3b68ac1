import BodyContract.Proofs.Automaton.Construction
import BodyContract.Proofs.Pattern.Expansion
import BodyContract.Regex.Parser

/-!
# Literal expressions

An expression of plain and escaped characters describes one text: each of these
characters stands for itself.  Such an expression has no shorthands, it is read
as a sequence of single characters, and its automaton accepts no other text.

An escaped backslash is left out.  The shorthands are written out wherever they
stand, and behind an escaped backslash a letter can look like one.
-/

namespace BodyContract

namespace CharSet

theorem isValidChar_toNat (c : Char) :
    c.toNat ≤ 0xD7FF ∨ (0xE000 ≤ c.toNat ∧ c.toNat ≤ 0x10FFFF) := by
  have valid : c.toNat.isValidChar := c.valid
  rw [Nat.isValidChar] at valid
  omega

theorem ranges_single (c : Char) : (single c).ranges = [⟨c.toNat, c.toNat⟩] := by
  have sorted : normalize [⟨c.toNat, c.toNat⟩] = [⟨c.toNat, c.toNat⟩] := by
    simp [normalize, Interval.inhabited, join, joinAux]
  rw [single, range, ofRanges, inter, sorted, univ]
  rcases isValidChar_toNat c with low | ⟨high, last⟩
  · have notHigh : ¬ 0xE000 ≤ c.toNat := by omega
    simp [meet, Interval.inhabited, low, notHigh]
  · have notLow : ¬ c.toNat ≤ 0xD7FF := by omega
    have notLower : ¬ c.toNat < 0xD7FF := by omega
    simp [meet, Interval.inhabited, maxCodePoint, high, last, notLow, notLower]

@[simp]
theorem contains_single_iff (c other : Char) : (single c).contains other = true ↔ other = c := by
  rw [contains, containsPoint, ranges_single, List.any_cons, List.any_nil, Bool.or_false,
    Interval.contains, Bool.and_eq_true, decide_eq_true_eq, decide_eq_true_eq, ← Char.toNat_inj]
  dsimp only
  omega

end CharSet

namespace Pattern

/-- Whether a character means something else than itself in an expression. -/
def isSpecial (c : Char) : Bool := "()|[?*+\x7b\\.^$\"".toList.contains c

/-- Expressions of plain and escaped characters, with the text that they stand for. -/
inductive IsLiteral : List Char → List Char → Prop where
  | nil : IsLiteral [] []
  | plain {c : Char} {pattern text : List Char} (noMeaning : isSpecial c = false)
      (later : IsLiteral pattern text) : IsLiteral (c :: pattern) (c :: text)
  | escaped {c : Char} {pattern text : List Char} (escapable : Regex.isEscapable c = true)
      (noBackslash : c ≠ '\\') (later : IsLiteral pattern text) :
      IsLiteral ('\\' :: c :: pattern) (c :: text)

theorem ne_of_not_isSpecial {c : Char} (noMeaning : isSpecial c = false) (special : Char)
    (hasMeaning : isSpecial special = true) : c ≠ special := by
  rintro rfl
  rw [noMeaning] at hasMeaning
  cases hasMeaning

/-- A letter cannot be escaped. -/
theorem ne_of_isEscapable {c : Char} (escapable : Regex.isEscapable c = true) (letter : Char)
    (isLetter : Regex.isEscapable letter = false) : c ≠ letter := by
  rintro rfl
  rw [escapable] at isLetter
  cases isLetter

variable {pattern text : List Char}

/-! ## Reading -/

theorem expandShorthandsAux_literal (literal : IsLiteral pattern text) :
    expandShorthandsAux pattern = pattern := by
  induction literal with
  | nil => rfl
  | plain noMeaning _ inductionHypothesis =>
      rw [expand_plain (ne_of_not_isSpecial noMeaning _ (by decide)), inductionHypothesis]
  | @escaped c pattern text escapable noBackslash _ inductionHypothesis =>
      have noShorthand : opensShorthand (c :: pattern) = false := by
        simp [opensShorthand, isShorthand, ne_of_isEscapable escapable 'd' (by decide),
          ne_of_isEscapable escapable 'w' (by decide),
          ne_of_isEscapable escapable 's' (by decide)]
      rw [expand_backslash noShorthand, expand_plain noBackslash, inductionHypothesis]

theorem opensOperator_literal (literal : IsLiteral pattern text) : opensOperator pattern = false := by
  cases literal with
  | nil => rfl
  | plain noMeaning _ =>
      simp [opensOperator, isOperator, ne_of_not_isSpecial noMeaning '*' (by decide),
        ne_of_not_isSpecial noMeaning '+' (by decide),
        ne_of_not_isSpecial noMeaning '?' (by decide),
        ne_of_not_isSpecial noMeaning '\x7b' (by decide)]
  | escaped _ _ _ => rfl

theorem escaped?_of_isEscapable {c : Char} (escapable : Regex.isEscapable c = true) :
    escaped? c = some (.single c) := by
  rw [escaped?.eq_def]
  split
  all_goals first
    | rfl
    | exact absurd escapable (by decide)

theorem readAtom_plain {c : Char} (noMeaning : isSpecial c = false) (fuel position : Nat)
    (rest : List Char) : readAtom (fuel + 1) c ⟨position, c :: rest⟩ =
      .ok (.literal c, ⟨position + c.utf8Size, rest⟩) := by
  have other : ∀ special, isSpecial special = true → c = special → False :=
    fun special hasMeaning => ne_of_not_isSpecial noMeaning special hasMeaning
  rw [readAtom]
  · rfl
  all_goals exact other _ (by decide)

theorem readAtom_escaped {c : Char} (escapable : Regex.isEscapable c = true) (fuel position : Nat)
    (rest : List Char) : readAtom (fuel + 1) '\\' ⟨position, '\\' :: c :: rest⟩ =
      .ok (.literal c, ⟨position + '\\'.utf8Size + c.utf8Size, rest⟩) := by
  have skipped : (Cursor.mk position ('\\' :: c :: rest)).skip =
      ⟨position + '\\'.utf8Size, c :: rest⟩ := rfl
  rw [readAtom, skipped, readEscape_cons, escaped?_of_isEscapable escapable]
  rfl

/-- A literal expression is read character by character. -/
theorem readSequence_literal (literal : IsLiteral pattern text) (fuel position : Nat) :
    ∃ behind, readSequence (fuel + text.length + 2) ⟨position, pattern⟩ =
      .ok (text.map .literal, ⟨behind, []⟩) := by
  induction literal generalizing position with
  | nil => exact ⟨position, readSequence_end rfl _ _⟩
  | @plain c pattern text noMeaning later inductionHypothesis =>
      have within : endsSequence c = false := by
        simp [endsSequence, ne_of_not_isSpecial noMeaning '|' (by decide),
          ne_of_not_isSpecial noMeaning ')' (by decide)]
      obtain ⟨behind, others⟩ := inductionHypothesis (position + c.utf8Size)
      refine ⟨behind, ?_⟩
      rw [List.length_cons, ← Nat.add_assoc, Nat.add_right_comm _ 1 2, readSequence_cons within,
        readAtom_plain noMeaning]
      simp only [bind, Except.bind]
      rw [readRepetitions_other _ _ _ (opensOperator_literal later)]
      simp only [others]
      rfl
  | @escaped c pattern text escapable noBackslash later inductionHypothesis =>
      obtain ⟨behind, others⟩ :=
        inductionHypothesis (position + '\\'.utf8Size + c.utf8Size)
      refine ⟨behind, ?_⟩
      rw [List.length_cons, ← Nat.add_assoc, Nat.add_right_comm _ 1 2,
        readSequence_cons (by decide), readAtom_escaped escapable]
      simp only [bind, Except.bind]
      rw [readRepetitions_other _ _ _ (opensOperator_literal later)]
      simp only [others]
      rfl

theorem length_le_of_isLiteral (literal : IsLiteral pattern text) :
    text.length ≤ pattern.length := by
  induction literal with
  | nil => exact Nat.le_refl 0
  | plain _ _ inductionHypothesis =>
      simp only [List.length_cons]
      omega
  | escaped _ _ _ inductionHypothesis =>
      simp only [List.length_cons]
      omega

/-- A literal expression is read as the sequence of its characters. -/
theorem parse_literal (literal : IsLiteral pattern text) :
    parse (expandShorthands (String.ofList pattern)) = .ok (ofSequence (text.map .literal)) := by
  have short := length_le_of_isLiteral literal
  obtain ⟨spare, enough⟩ : ∃ spare, enoughFuel pattern.length = spare + text.length + 2 + 1 :=
    ⟨enoughFuel pattern.length - (text.length + 3), by rw [enoughFuel]; omega⟩
  obtain ⟨behind, items⟩ := readSequence_literal literal spare 0
  have ended : (Cursor.mk behind []).eat? '|' = none := by simp [Cursor.eat?, Cursor.peek?]
  have branches : readChoice (enoughFuel pattern.length) ⟨0, pattern⟩ =
      .ok ([ofSequence (text.map .literal)], ⟨behind, []⟩) := by
    rw [enough, readChoice, items]
    simp only [bind, Except.bind]
    rw [ended]
  rw [expandShorthands, String.toList_ofList, expandShorthandsAux_literal literal, parse,
    Cursor.ofString, String.toList_ofList, bind_eq_ok_iff]
  exact ⟨_, branches, rfl⟩

/-! ## The text of a literal expression -/

theorem mem_languageOfSequence_literals (text word : List Char) :
    word ∈ languageOfSequence (text.map .literal) ↔ word = text := by
  induction text generalizing word with
  | nil => exact Set.mem_singleton_iff
  | cons c rest inductionHypothesis =>
      rw [List.map_cons, languageOfSequence, Language.mem_mul]
      constructor
      · rintro ⟨front, isFirst, back, isLater, rfl⟩
        obtain ⟨other, isMember, rfl⟩ := (mem_language_oneOf (.single c) front).mp isFirst
        rw [(CharSet.contains_single_iff c other).mp isMember,
          (inductionHypothesis back).mp isLater]
        rfl
      · rintro rfl
        exact ⟨[c], (mem_language_oneOf _ _).mpr ⟨c, (CharSet.contains_single_iff c c).mpr rfl, rfl⟩,
          rest, (inductionHypothesis rest).mpr rfl, rfl⟩

/-- A sequence without a node of its own has the same texts. -/
theorem language_ofSequence (items : List Pattern) :
    (ofSequence items).language = languageOfSequence items := by
  match items with
  | [] => rfl
  | [only] =>
      rw [languageOfSequence, languageOfSequence]
      exact (mul_one _).symm
  | first :: second :: rest => rfl

theorem hasOrderedCounts_literals (text : List Char) :
    (ofSequence (text.map .literal)).hasOrderedCounts = true := by
  have each : haveOrderedCounts (text.map .literal) = true := by
    induction text with
    | nil => rfl
    | cons c rest inductionHypothesis => exact inductionHypothesis
  match text with
  | [] => rfl
  | [only] => rfl
  | first :: second :: rest => exact each

end Pattern

namespace Automaton

/-- The automaton of a pattern accepts what the links of the pattern spell. -/
theorem accepts_iff_spells {pattern : Pattern} {automaton : Automaton}
    (built : ofPattern pattern = .ok automaton) (text : String) :
    automaton.accepts text = true ↔
      Spells (pattern.links 0) 0 text.toList (pattern.size - 1) := by
  obtain ⟨full, explored, rfl⟩ := exists_explored_of_ofPattern built
  have positive : 0 < subsetLimit := by decide
  have isOrdered : full.IsOrdered := fun number state isState =>
    Graph.ascending_of_explore positive explored isState
  rw [accepts, acceptsFrom_prune isOrdered,
    Graph.explore_accepts_iff (Graph.isBounded_ofPattern pattern) positive explored]
  exact Graph.walks_ofPattern_iff pattern 0 (pattern.size - 1) text.toList

/-- The automaton of a literal expression accepts its text and nothing else. -/
theorem accepts_literal_iff {text : List Char} {automaton : Automaton}
    (built : ofPattern (.ofSequence (text.map .literal)) = .ok automaton) (word : String) :
    automaton.accepts word = true ↔ word.toList = text := by
  have spells := Pattern.spellsLanguage _ (Pattern.hasOrderedCounts_literals text) 0 word.toList
  rw [Nat.zero_add] at spells
  rw [accepts_iff_spells built, spells, Pattern.language_ofSequence,
    Pattern.mem_languageOfSequence_literals]

end Automaton

end BodyContract
