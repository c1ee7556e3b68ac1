import BodyContract.Matcher.Condition
import BodyContract.Proofs.Path.Comparing

/-!
# Slashes in the patterns of matchers

A matcher writes its pattern in parentheses between slashes, and escapes all
slashes of the pattern unless one of them stands behind a backslash.  So where its
slashes are of one kind, the pattern is written as one is whose slashes are
escaped one by one.
-/

namespace BodyContract

namespace Matcher

open BodyContract.Path

/-! ## Slashes of one kind -/

/-- Whether a pattern has no backslash in front of a slash, or no slash without one that
escapes it. -/
def HasUniformSlashes (pattern : String) : Prop :=
  containsText pattern "\\/" = false ∨ escapeSlashes pattern = pattern

instance (pattern : String) : Decidable (HasUniformSlashes pattern) :=
  inferInstanceAs (Decidable (_ ∨ _))

theorem escapeSlashesAux_concat {c : Char} (noSlash : c ≠ '/') (isEscaped : Bool)
    (text : List Char) :
    escapeSlashesAux isEscaped (text ++ [c]) = escapeSlashesAux isEscaped text ++ [c] := by
  induction text generalizing isEscaped with
  | nil => simp [escapeSlashesAux, noSlash]
  | cons first rest inductionHypothesis =>
      rw [List.cons_append, escapeSlashesAux, escapeSlashesAux, inductionHypothesis]
      split <;> rfl

theorem toList_grouped (pattern : String) :
    ("(" ++ pattern ++ ")").toList = '(' :: (pattern.toList ++ [')']) := by
  simp

theorem escapeSlashesAux_grouped (pattern : String) :
    escapeSlashesAux false ("(" ++ pattern ++ ")").toList =
      '(' :: (escapeSlashesAux false pattern.toList ++ [')']) := by
  rw [toList_grouped, escapeSlashesAux_plain (by decide) (by decide),
    escapeSlashesAux_concat (by decide)]

/-- A closing parenthesis ends an escape, so a pattern in parentheses does not end inside
of one. -/
theorem exists_plainSlashes?_grouped (pattern : String) :
    ∃ body, plainSlashes? ("(" ++ pattern ++ ")").toList = some body := by
  have closed : ∀ text : List Char, ∃ body, plainSlashes? (text ++ [')']) = some body := by
    intro text
    induction text using plainSlashes?.induct with
    | case1 => exact ⟨[')'], rfl⟩
    | case2 => exact ⟨['\\', ')'], rfl⟩
    | case3 c rest inductionHypothesis =>
        obtain ⟨body, isPlain⟩ := inductionHypothesis
        rw [List.cons_append, List.cons_append, plainSlashes?, isPlain]
        exact ⟨_, rfl⟩
    | case4 c rest noEnd noEscape inductionHypothesis =>
        obtain ⟨body, isPlain⟩ := inductionHypothesis
        rw [List.cons_append, plainSlashes?_plain (ne_backslash noEnd noEscape), isPlain]
        exact ⟨_, rfl⟩
  obtain ⟨body, isPlain⟩ := closed pattern.toList
  rw [toList_grouped, plainSlashes?_plain (by decide), isPlain]
  exact ⟨_, rfl⟩

/-- Where no slash stands behind a backslash, escaping those that are not escaped escapes
all. -/
theorem replaceAllAux_slashes {text : List Char} (noneBehind : hasInfix ['\\', '/'] text = false) :
    replaceAllAux ['/'] ['\\', '/'] 0 text = escapeSlashesAux false text := by
  have skip : ∀ {c : Char}, c ≠ '/' → ∀ rest, replaceAllAux ['/'] ['\\', '/'] 0 (c :: rest) =
      c :: replaceAllAux ['/'] ['\\', '/'] 0 rest := by
    intro c noSlash rest
    have different : ('/' == c) = false := beq_false_of_ne (Ne.symm noSlash)
    simp [replaceAllAux, List.isPrefixOf, different]
  induction text using plainSlashes?.induct with
  | case1 => rfl
  | case2 => rfl
  | case3 c rest inductionHypothesis =>
      rw [hasInfix, hasInfix, Bool.or_eq_false_iff, Bool.or_eq_false_iff] at noneBehind
      obtain ⟨here, -, later⟩ := noneBehind
      have noSlash : c ≠ '/' := by
        rintro rfl
        exact absurd here (by simp [List.isPrefixOf])
      rw [skip (by decide), skip noSlash, escapeSlashesAux_escape, inductionHypothesis later]
  | case4 c rest noEnd noEscape inductionHypothesis =>
      rw [hasInfix, Bool.or_eq_false_iff] at noneBehind
      have same := inductionHypothesis noneBehind.2
      by_cases slash : c = '/'
      · subst slash
        have replaced : replaceAllAux ['/'] ['\\', '/'] 0 ('/' :: rest) =
            '\\' :: '/' :: replaceAllAux ['/'] ['\\', '/'] 0 rest := by
          simp [replaceAllAux, List.isPrefixOf]
        rw [replaced, same, escapeSlashesAux_slash]
      · rw [skip slash, same, escapeSlashesAux_plain slash (ne_backslash noEnd noEscape)]

/-- The pattern of a matcher as it is written between slashes, without the parentheses. -/
def slashed (pattern : String) : String :=
  if containsText pattern "\\/" then pattern else replaceAll pattern "/" "\\/"

theorem patternCondition_eq (operand pattern : String) :
    patternCondition operand pattern = operand ++ " =~ /(" ++ slashed pattern ++ ")/" := rfl

theorem slashed_eq_iff (pattern : String) :
    slashed pattern = escapeSlashes pattern ↔ HasUniformSlashes pattern := by
  rw [slashed, HasUniformSlashes]
  cases behind : containsText pattern "\\/" with
  | true => simp [eq_comm]
  | false =>
      have escaped : replaceAll pattern "/" "\\/" = escapeSlashes pattern := by
        have slash : "/".toList = ['/'] := rfl
        have escape : "\\/".toList = ['\\', '/'] := rfl
        rw [containsText, escape] at behind
        rw [replaceAll, escapeSlashes, slash, escape, replaceAllAux_slashes behind]
      simp [escaped]

/-- A pattern with slashes of one kind is written like one in parentheses whose slashes are
escaped one by one. -/
theorem toList_slashed {pattern : String} (uniform : HasUniformSlashes pattern) :
    ("/(" ++ slashed pattern ++ ")/").toList =
      '/' :: (escapeSlashesAux false ("(" ++ pattern ++ ")").toList ++ ['/']) := by
  rw [(slashed_eq_iff pattern).mpr uniform, escapeSlashesAux_grouped]
  simp [escapeSlashes]

theorem escapeSlashesAux_of_notMem {text : List Char} (noSlash : '/' ∉ text)
    (isEscaped : Bool) : escapeSlashesAux isEscaped text = text := by
  induction text generalizing isEscaped with
  | nil => rfl
  | cons c rest inductionHypothesis =>
      rw [List.mem_cons, not_or] at noSlash
      rw [escapeSlashesAux, inductionHypothesis noSlash.2]
      simp [Ne.symm noSlash.1]

theorem hasUniformSlashes_of_notMem {pattern : String} (noSlash : '/' ∉ pattern.toList) :
    HasUniformSlashes pattern := by
  right
  rw [escapeSlashes, escapeSlashesAux_of_notMem noSlash, String.ofList_toList]

/-- A pattern without slashes stays as it is in parentheses. -/
theorem plainSlashes?_grouped_of_notMem {pattern : String} (noSlash : '/' ∉ pattern.toList) :
    plainSlashes? ("(" ++ pattern ++ ")").toList = some ("(" ++ pattern ++ ")").toList := by
  have unchanged : ∀ text : List Char, '/' ∉ text →
      plainSlashes? (text ++ [')']) = some (text ++ [')']) := by
    intro text noSlash
    induction text using plainSlashes?.induct with
    | case1 => rfl
    | case2 => rfl
    | case3 c rest inductionHypothesis =>
        rw [List.mem_cons, List.mem_cons, not_or, not_or] at noSlash
        obtain ⟨-, notSlash, noneLater⟩ := noSlash
        rw [List.cons_append, List.cons_append, plainSlashes?, inductionHypothesis noneLater,
          Option.map_some, if_neg (Ne.symm notSlash)]
    | case4 c rest noEnd noEscape inductionHypothesis =>
        rw [List.mem_cons, not_or] at noSlash
        rw [List.cons_append, plainSlashes?_plain (ne_backslash noEnd noEscape),
          inductionHypothesis noSlash.2, Option.map_some]
  rw [toList_grouped, plainSlashes?_plain (by decide), unchanged _ noSlash, Option.map_some]

/-! ## Where a pattern breaks off -/

/-- A pattern that has a slash without a backslash that escapes it, with what stands in front
of the first such slash. -/
theorem exists_bare_slash {text : List Char} (changed : escapeSlashesAux false text ≠ text) :
    ∃ front back plain, text = front ++ '/' :: back ∧ plainSlashes? front = some plain ∧
      escapeSlashesAux false front = front := by
  induction text using plainSlashes?.induct with
  | case1 => exact absurd rfl changed
  | case2 => exact absurd rfl changed
  | case3 c rest inductionHypothesis =>
      rw [escapeSlashesAux_escape] at changed
      obtain ⟨front, back, plain, rfl, isPlain, unchanged⟩ :=
        inductionHypothesis fun same => changed (by rw [same])
      refine ⟨'\\' :: c :: front, back, if c = '/' then '/' :: plain else '\\' :: c :: plain, rfl,
        ?_, by rw [escapeSlashesAux_escape, unchanged]⟩
      rw [plainSlashes?, isPlain, Option.map_some]
  | case4 c rest noEnd noEscape inductionHypothesis =>
      have noBackslash := ne_backslash noEnd noEscape
      by_cases slash : c = '/'
      · subst slash
        exact ⟨[], rest, [], rfl, rfl, rfl⟩
      · rw [escapeSlashesAux_plain slash noBackslash] at changed
        obtain ⟨front, back, plain, rfl, isPlain, unchanged⟩ :=
          inductionHypothesis fun same => changed (by rw [same])
        refine ⟨c :: front, back, c :: plain, rfl, ?_,
          by rw [escapeSlashesAux_plain slash noBackslash, unchanged]⟩
        rw [plainSlashes?_plain noBackslash, isPlain]
        rfl

end Matcher

end BodyContract
