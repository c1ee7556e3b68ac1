import Mathlib.Computability.Language
import BodyContract.Pattern.Basic

/-!
# The language of a pattern

`Pattern.language` says which texts a pattern describes, without any
automaton: a sequence is a product of languages, a choice a sum, and a
repetition collects the powers that its counts allow.
-/

namespace BodyContract.Pattern

/-- Whether a repetition with these counts may run `count` times. -/
def AllowsCount (least : Nat) (most : Option Nat) (count : Nat) : Prop :=
  least ≤ count ∧ ∀ bound, most = some bound → count ≤ bound

mutual

/-- The texts of a pattern. -/
def language : Pattern → Language Char
  | .empty => 1
  | .oneOf set => {text | ∃ c, set.contains c = true ∧ text = [c]}
  | .sequence items => languageOfSequence items
  | .choice branches => languageOfChoice branches
  | .repeated body least most =>
      {text | ∃ count, AllowsCount least most count ∧ text ∈ language body ^ count}

/-- One text of each item, one behind the other. -/
def languageOfSequence : List Pattern → Language Char
  | [] => 1
  | item :: rest => language item * languageOfSequence rest

/-- The texts of all branches. -/
def languageOfChoice : List Pattern → Language Char
  | [] => 0
  | branch :: rest => language branch + languageOfChoice rest

end

mutual

/-- Whether no repetition in the pattern has an upper count below its lower
one. -/
def hasOrderedCounts : Pattern → Bool
  | .empty => true
  | .oneOf _ => true
  | .sequence items => haveOrderedCounts items
  | .choice branches => haveOrderedCounts branches
  | .repeated body least most =>
      most.all (fun bound => decide (least ≤ bound)) && hasOrderedCounts body

/-- Whether this holds for every pattern of a list. -/
def haveOrderedCounts : List Pattern → Bool
  | [] => true
  | pattern :: rest => hasOrderedCounts pattern && haveOrderedCounts rest

end

theorem mem_language_oneOf (set : CharSet) (text : List Char) :
    text ∈ language (.oneOf set) ↔ ∃ c, set.contains c = true ∧ text = [c] := by
  rw [language]
  rfl

theorem mem_language_repeated (body : Pattern) (least : Nat) (most : Option Nat)
    (text : List Char) :
    text ∈ language (.repeated body least most) ↔
      ∃ count, AllowsCount least most count ∧ text ∈ language body ^ count := by
  rw [language]
  rfl

end BodyContract.Pattern
