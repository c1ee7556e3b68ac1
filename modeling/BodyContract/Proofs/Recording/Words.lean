import Mathlib.Data.List.Basic
import BodyContract.Proofs.Path.Lexical
import BodyContract.Recording.Recorder

/-!
# Records are read back from their ends

The text of a chain is the texts of its calls, one behind the other.  A quoted
argument may hold anything, a whole call as well, and its backslashes are not
doubled.  So it cannot be told from the front where it ends, but it can be told
from the back where it begins: every quote inside has a backslash in front of
it, and the opening one has not.
-/

namespace BodyContract

/-! ## Codes -/

/-- Whether the code of an element can be told from what follows it. -/
def IsPrefixFree {α : Type} (code : α → List Char) : Prop :=
  ∀ left right before behind, code left ++ before = code right ++ behind →
    left = right ∧ before = behind

theorem IsPrefixFree.flatMap_injective {α : Type} {code : α → List Char}
    (free : IsPrefixFree code) (filled : ∀ element, code element ≠ []) :
    Function.Injective (List.flatMap code) := by
  intro left right same
  induction left generalizing right with
  | nil =>
      cases right with
      | nil => rfl
      | cons first rest =>
          rw [List.flatMap_nil, List.flatMap_cons, eq_comm, List.append_eq_nil_iff] at same
          exact absurd same.1 (filled first)
  | cons first rest inductionHypothesis =>
      cases right with
      | nil =>
          rw [List.flatMap_nil, List.flatMap_cons, List.append_eq_nil_iff] at same
          exact absurd same.1 (filled first)
      | cons other others =>
          rw [List.flatMap_cons, List.flatMap_cons] at same
          obtain ⟨equal, later⟩ := free first other _ _ same
          rw [equal, inductionHypothesis later]

/-! ## Escaped quotes, from the end -/

/-- A character of an escaped text as it is met from the end. -/
def escapedBackwards (quote c : Char) : List Char := if c = quote then [c, '\\'] else [c]

theorem reverse_escapedFor (quote : Char) (text : List Char) :
    (escapedFor quote text).reverse = text.reverse.flatMap (escapedBackwards quote) := by
  have each : ∀ c, (if c = quote then ['\\', c] else [c]).reverse = escapedBackwards quote c := by
    intro c
    rw [escapedBackwards]
    split <;> rfl
  rw [escapedFor, List.reverse_flatMap]
  exact List.flatMap_congr fun c _ => each c

theorem isPrefixFree_escapedBackwards (quote : Char) : IsPrefixFree (escapedBackwards quote) := by
  intro left right before behind same
  rw [escapedBackwards, escapedBackwards] at same
  by_cases leftQuote : left = quote
  · by_cases rightQuote : right = quote
    · rw [if_pos leftQuote, if_pos rightQuote] at same
      injection same with equal later
      injection later with _ rest
      exact ⟨equal, rest⟩
    · rw [if_pos leftQuote, if_neg rightQuote] at same
      injection same with equal _
      exact absurd (equal.symm.trans leftQuote) rightQuote
  · by_cases rightQuote : right = quote
    · rw [if_neg leftQuote, if_pos rightQuote] at same
      injection same with equal _
      exact absurd (equal.trans rightQuote) leftQuote
    · rw [if_neg leftQuote, if_neg rightQuote] at same
      injection same with equal rest
      exact ⟨equal, rest⟩

/-- A text is told by its escaped form, whatever backslashes it has. -/
theorem escapedFor_injective (quote : Char) : Function.Injective (escapedFor quote) := by
  intro left right same
  have backwards := congrArg List.reverse same
  rw [reverse_escapedFor, reverse_escapedFor] at backwards
  have filled : ∀ c, escapedBackwards quote c ≠ [] := by
    intro c
    rw [escapedBackwards]
    split <;> exact List.cons_ne_nil _ _
  exact List.reverse_injective
    ((isPrefixFree_escapedBackwards quote).flatMap_injective filled backwards)

theorem wrap_ne_of_isWholeNumber {number other : String} (whole : isWholeNumber number = true)
    (notWhole : isWholeNumber other = false) :
    NameStyle.bracketed.wrap number ≠ NameStyle.bracketed.wrap other := by
  intro same
  have chars := congrArg String.toList same
  obtain ⟨first, rest, begins, isWhole, -⟩ := Path.chars_of_isWholeNumber whole
  rw [Path.wrap_of_whole whole, begins, Path.toList_wrap_of_not_whole notWhole] at chars
  injection chars with isBracket
  rw [isBracket] at isWhole
  rcases isWhole with other | other | other <;> exact absurd other (by decide)

theorem wrap_injective (style : NameStyle) : Function.Injective style.wrap := by
  intro left right same
  cases style with
  | plain => exact same
  | bracketed =>
      cases leftWhole : isWholeNumber left with
      | true =>
          cases rightWhole : isWholeNumber right with
          | true =>
              rw [Path.wrap_of_whole leftWhole, Path.wrap_of_whole rightWhole] at same
              exact same
          | false => exact absurd same (wrap_ne_of_isWholeNumber leftWhole rightWhole)
      | false =>
          cases rightWhole : isWholeNumber right with
          | true => exact absurd same.symm (wrap_ne_of_isWholeNumber rightWhole leftWhole)
          | false =>
              have chars := congrArg String.toList same
              rw [Path.toList_wrap_of_not_whole leftWhole,
                Path.toList_wrap_of_not_whole rightWhole] at chars
              injection chars with _ inside
              injection inside with _ inside
              exact String.toList_injective
                (escapedFor_injective '\'' (List.append_cancel_right inside))

/-- Met from the end, an escaped text is told from what stands in front of its
opening quote. -/
theorem escapedBackwards_append_inj {quote opening : Char} (notBackslash : opening ≠ '\\')
    {left right before behind : List Char}
    (same : left.flatMap (escapedBackwards quote) ++ quote :: opening :: before =
      right.flatMap (escapedBackwards quote) ++ quote :: opening :: behind) :
    left = right ∧ before = behind := by
  -- an escaped quote has a backslash where the opening quote has something else
  have apart : ∀ (c : Char) (first second third : List Char), quote :: opening :: first ≠
      escapedBackwards quote c ++ second.flatMap (escapedBackwards quote) ++ third := by
    intro c first second third same
    rw [escapedBackwards] at same
    by_cases isQuote : c = quote
    · rw [if_pos isQuote] at same
      injection same with _ later
      injection later with isBackslash _
      exact notBackslash isBackslash
    · rw [if_neg isQuote] at same
      injection same with equal _
      exact isQuote equal.symm
  induction left generalizing right with
  | nil =>
      cases right with
      | nil =>
          injection same with _ later
          injection later with _ equal
          exact ⟨rfl, equal⟩
      | cons first rest => exact absurd same (apart first _ rest _)
  | cons first rest inductionHypothesis =>
      cases right with
      | nil => exact absurd same.symm (apart first _ rest _)
      | cons other others =>
          rw [List.flatMap_cons, List.flatMap_cons, List.append_assoc, List.append_assoc] at same
          obtain ⟨equal, later⟩ := isPrefixFree_escapedBackwards quote _ _ _ _ same
          obtain ⟨restEqual, behind⟩ := inductionHypothesis later
          exact ⟨by rw [equal, restEqual], behind⟩

/-! ## Words -/

/-- What stands between the parentheses of a call. -/
inductive IsArgument : List Char → Prop where
  | plain {text : List Char} (noOpening : '(' ∉ text) (noQuote : '"' ∉ text) : IsArgument text
  | quoted (text : List Char) : IsArgument ('"' :: (escapedFor '"' text ++ ['"']))

/-- One call as it is written. -/
@[ext]
structure Word where
  name : String
  argument : String
  hasNoPoint : '.' ∉ name.toList
  isArgument : IsArgument argument.toList

/-- Met from the end, an argument is told from what stands in front of its
opening parenthesis. -/
theorem IsArgument.append_inj {left right before behind : List Char} (isLeft : IsArgument left)
    (isRight : IsArgument right)
    (same : left.reverse ++ '(' :: before = right.reverse ++ '(' :: behind) :
    left = right ∧ before = behind := by
  -- a plain argument does not end with a quote, and neither does an opening parenthesis
  have apart : ∀ {text first second : List Char}, '"' ∉ text →
      text.reverse ++ '(' :: first ≠ '"' :: second := by
    intro text first second noQuote same
    cases reversed : text.reverse with
    | nil =>
        rw [reversed] at same
        cases same
    | cons last others =>
        rw [reversed] at same
        injection same with isQuote _
        rw [← List.mem_reverse, reversed, isQuote] at noQuote
        exact noQuote List.mem_cons_self
  have ending : ∀ text : List Char, ('"' :: (escapedFor '"' text ++ ['"'])).reverse =
      '"' :: (text.reverse.flatMap (escapedBackwards '"') ++ ['"']) := by
    intro text
    rw [List.reverse_cons, List.reverse_append, reverse_escapedFor]
    rfl
  cases isLeft with
  | plain leftOpening leftQuote =>
      cases isRight with
      | plain rightOpening rightQuote =>
          rw [← List.mem_reverse] at leftOpening rightOpening
          obtain ⟨equal, rest⟩ := append_cons_inj leftOpening rightOpening same
          exact ⟨List.reverse_injective equal, rest⟩
      | quoted text =>
          rw [ending, List.cons_append] at same
          exact absurd same (apart leftQuote)
  | quoted leftText =>
      cases isRight with
      | plain rightOpening rightQuote =>
          rw [ending, List.cons_append] at same
          exact absurd same.symm (apart rightQuote)
      | quoted rightText =>
          rw [ending, ending, List.cons_append, List.cons_append, List.append_assoc,
            List.append_assoc] at same
          injection same with _ inside
          obtain ⟨equal, rest⟩ := escapedBackwards_append_inj (by decide) inside
          rw [List.reverse_injective equal]
          exact ⟨rfl, rest⟩

namespace Word

def text (word : Word) : String := "." ++ word.name ++ "(" ++ word.argument ++ ")"

def backwards (word : Word) : List Char := word.text.toList.reverse

theorem backwards_eq (word : Word) : word.backwards =
    ')' :: (word.argument.toList.reverse ++ '(' :: (word.name.toList.reverse ++ ['.'])) := by
  simp [backwards, text]

theorem isPrefixFree_backwards : IsPrefixFree backwards := by
  intro left right before behind same
  rw [backwards_eq, backwards_eq, List.cons_append, List.cons_append, List.append_assoc,
    List.append_assoc, List.cons_append, List.cons_append, List.append_assoc,
    List.append_assoc] at same
  injection same with _ inside
  obtain ⟨argument, later⟩ := left.isArgument.append_inj right.isArgument inside
  have leftPoint : '.' ∉ left.name.toList.reverse := by
    rw [List.mem_reverse]
    exact left.hasNoPoint
  have rightPoint : '.' ∉ right.name.toList.reverse := by
    rw [List.mem_reverse]
    exact right.hasNoPoint
  obtain ⟨name, rest⟩ := append_cons_inj leftPoint rightPoint later
  exact ⟨Word.ext (String.toList_injective (List.reverse_injective name))
    (String.toList_injective argument), rest⟩

/-- Calls are told by their texts, even if these stand one behind the other. -/
theorem join_injective : Function.Injective fun words : List Word =>
    String.join (words.map text) := by
  have reversed : ∀ words : List Word,
      (String.join (words.map text)).toList.reverse = words.reverse.flatMap backwards := by
    intro words
    rw [String.toList_join, List.flatMap_map, List.reverse_flatMap]
    rfl
  have filled : ∀ word : Word, word.backwards ≠ [] := by
    intro word
    rw [backwards_eq]
    exact List.cons_ne_nil _ _
  intro left right same
  have backwards := congrArg (fun joined => joined.toList.reverse) same
  simp only [reversed] at backwards
  exact List.reverse_injective (isPrefixFree_backwards.flatMap_injective filled backwards)

theorem text_injective : Function.Injective text := by
  intro left right same
  have joined : String.join ([left].map text) = String.join ([right].map text) := by
    rw [List.map_singleton, List.map_singleton, same]
  exact List.singleton_inj.mp (join_injective joined)

end Word

end BodyContract
