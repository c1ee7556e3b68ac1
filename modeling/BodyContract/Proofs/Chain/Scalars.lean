import BodyContract.Proofs.Chain.Walk

/-!
# The chains of values that are no containers

A value that is no container is checked where the chain stands, and among the
elements of an array it is also looked for there.  What all chains with these
checks have, the recorded chains have.  In particular they hold on a document
in which the condition on the place of the chain finds the value.
-/

namespace BodyContract

namespace Recorder

theorem Stands.isFinished {key : Recorder} {pieces : List (List Hop)} (stands : key.Stands pieces) :
    key.isFinished = false := by
  rw [Recorder.isFinished, stands.unchecked]
  rfl

theorem focus_ne_field_of_isIterating {key : Recorder} (iterating : key.delegate.isIterating = true) :
    key.delegate.focus ≠ .field := by
  intro isField
  rw [Asserter.isIterating, isField] at iterating
  cases iterating

/-- A property of the chains that check a value: of the check itself, and among
elements of the search for the value. -/
structure HasChecks (key : Recorder) (value : Json) (property : Recorder → Prop) : Prop where
  checked : ∀ chain : Recorder, chain.Ends key [equalityCall value] → property chain
  contained : key.delegate.isIterating = true → ∀ chain : Recorder,
    chain.Ends key.arrayField [.contains value, .isPresent] → property chain

section

variable {key : Recorder} {pieces : List (List Hop)} {value : Json} {names : String → Prop}
  {numbers : Number → Prop} {property : Recorder → Prop} (stands : key.Stands pieces)
  (plain : value.Plain names numbers) (scalar : value.isContainer = false)

include stands plain scalar

/-- The check of a value. -/
theorem Stands.checking : ∃ chain, key.checking value = .ok chain ∧
    chain.Ends key [equalityCall value] := by
  obtain ⟨chain, made, ends⟩ := isEqualTo_ends stands.lenient scalar
  refine ⟨chain, ?_, ends⟩
  rw [Recorder.checking, stands.isFinished, plain.markedPattern?_eq_none]
  exact made

theorem yields_leaf (has : key.HasChecks value property) :
    Chains.Yields property (key.leaf value) := by
  obtain ⟨checked, made, ends⟩ := stands.checking plain scalar
  have alone : Chains.Yields property (.ok [checked]) :=
    Chains.yields_singleton (has.checked checked ends)
  cases iterating : key.delegate.isIterating with
  | false => cases value <;> simpa [leaf, made, iterating, bind, Except.bind] using alone
  | true =>
      obtain ⟨contained, asked, searches⟩ := contains_ends stands.arrayField.lenient rfl value
      have both : Chains.Yields property (.ok [contained, checked]) :=
        Chains.Yields.append (Chains.yields_singleton (has.contained iterating contained searches))
          alone
      cases value <;> simp [leaf, made, asked, iterating, bind, Except.bind] <;> assumption

end

end Recorder

namespace Chains

open Recorder

section

variable {inText : TextWalk} {isOrdered : Bool} {key : Recorder} {pieces : List (List Hop)}
  {value : Json} {names : String → Prop} {numbers : Number → Prop} {property : Recorder → Prop}

/-- The chains of a value that is no container have what its checks have. -/
theorem yields_walk_of_hasChecks (stands : key.Stands pieces) (plain : value.Plain names numbers)
    (scalar : value.isContainer = false) (has : key.HasChecks value property) :
    Yields property (walk inText isOrdered key value) := by
  have leaf := yields_leaf stands plain scalar has
  obtain ⟨checked, made, ends⟩ := stands.checking plain scalar
  cases value with
  | null => simpa only [walk] using leaf
  | bool flag => simpa only [walk] using leaf
  | number number => simpa only [walk] using leaf
  | string text =>
      rw [walk]
      split
      · exact leaf
      · cases plain with
        | string noObject =>
            rw [noObject, made]
            exact yields_singleton (has.checked checked ends)
  | array elements => cases scalar
  | object members => cases scalar

theorem walk_finished (finished : key.isFinished = true) (focus : key.delegate.focus = .checked)
    (plain : value.Plain names numbers) (scalar : value.isContainer = false) :
    walk inText isOrdered key value = .ok [key] := by
  have leaf := leaf_of_checked finished focus value
  cases value with
  | null => simpa only [walk] using leaf
  | bool flag => simpa only [walk] using leaf
  | number number => simpa only [walk] using leaf
  | string text =>
      rw [walk]
      split
      · exact leaf
      · cases plain with
        | string noObject =>
            rw [noObject, checking_of_finished finished]
            rfl
  | array elements => cases scalar
  | object members => cases scalar

/-- The chains of an element that is checked before it is walked. -/
theorem yields_checked_of_hasChecks (stands : key.Stands pieces)
    (plain : value.Plain names numbers) (scalar : value.isContainer = false)
    (has : key.HasChecks value property) :
    ∃ checked, key.checking value = .ok checked ∧
      Yields property (walk inText isOrdered checked value) := by
  obtain ⟨checked, made, ends⟩ := stands.checking plain scalar
  refine ⟨checked, made, ?_⟩
  rw [walk_finished ends.finished ends.focus plain scalar]
  exact yields_singleton (has.checked checked ends)

end

/-! ## Chains that hold -/

end Chains

/-- Whether the literal of a value is found behind hops, whatever equal value
it is read as. -/
def FindsLiteral (hops : List Hop × List Hop) (value document : Json) : Prop :=
  ∀ read, Path.LiteralReads value read → value.equalsInFilter read = true →
    Finds hops.1 hops.2 read document

namespace Chains

open Recorder

variable {inText : TextWalk} {isOrdered : Bool} {key : Recorder} {pieces : List (List Hop)}
  {value document : Json} {names : String → Prop}

/-- The checks of a value hold where its literal is found. -/
theorem hasChecks_of_findsLiteral (stands : key.Stands pieces)
    (plain : value.Plain names Number.ReadsBack) (scalar : value.isContainer = false)
    (found : FindsLiteral (conditionHops key.delegate.focus pieces) value document) :
    key.HasChecks value fun chain => chain.Holds document := by
  obtain ⟨read, literal, equal⟩ := plain.literalReads scalar
  refine ⟨fun chain ends => ?_, fun iterating chain ends => ?_⟩
  · exact (ends.equality_holds_iff stands rfl literal document).mpr (found read literal equal)
  · rw [conditionHops_other (focus_ne_field_of_isIterating iterating)] at found
    exact (ends.contains_holds_iff stands.arrayField rfl literal document).mpr
      (found read literal equal)

/-- The chains of a value that is no container hold where its literal is found. -/
theorem yields_walk_scalar (stands : key.Stands pieces)
    (plain : value.Plain names Number.ReadsBack) (scalar : value.isContainer = false)
    (found : FindsLiteral (conditionHops key.delegate.focus pieces) value document) :
    Yields (fun chain => chain.Holds document) (walk inText isOrdered key value) :=
  yields_walk_of_hasChecks stands plain scalar (hasChecks_of_findsLiteral stands plain scalar found)

/-- The chains of an element that is checked before it is walked hold there too. -/
theorem yields_walk_checked (stands : key.Stands pieces)
    (plain : value.Plain names Number.ReadsBack) (scalar : value.isContainer = false)
    (found : FindsLiteral (conditionHops key.delegate.focus pieces) value document) :
    ∃ checked, key.checking value = .ok checked ∧
      Yields (fun chain => chain.Holds document) (walk inText isOrdered checked value) :=
  yields_checked_of_hasChecks stands plain scalar
    (hasChecks_of_findsLiteral stands plain scalar found)

end Chains

end BodyContract
