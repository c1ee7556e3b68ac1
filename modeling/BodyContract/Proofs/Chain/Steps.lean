import BodyContract.Proofs.Chain.Walk
import BodyContract.Proofs.Json.Canonical
import BodyContract.Proofs.Recording.Marks

/-!
# What the steps of a walk write

Every step of a walk adds words to the text of a chain and calls to its record.
A check is made once; what it writes depends on whether the chain stands among
the elements of an array of simple values.
-/

namespace BodyContract

theorem Json.isCanonical_of_membersInText? {text : String} {members : List (String × Json)}
    (isObject : membersInText? text = some members) : (Json.object members).IsCanonical := by
  rw [membersInText?] at isObject
  split at isObject
  · rename_i others read
    cases isObject
    exact isCanonical_of_parse? read
  · cases isObject

namespace Recorder

/-- What a step has added to a chain. -/
structure Adds (next key : Recorder) (words : List Word) (calls : List Call) : Prop where
  methods_eq : next.methods = key.methods ++ words.map Word.text
  calls_eq : next.calls = key.calls ++ calls
  isStrict_eq : next.delegate.isStrict = key.delegate.isStrict
  style_eq : next.style = key.style

section Navigation

variable (key : Recorder) (name : String)

theorem adds_traverseField : (key.traverseField name).Adds key [.field (key.style.wrap name)]
    [.field (key.style.wrap name)] := ⟨rfl, rfl, rfl, rfl⟩

theorem adds_array : (key.array name).Adds key [.array (key.style.wrap name)]
    [.array (key.style.wrap name)] := ⟨rfl, rfl, rfl, rfl⟩

theorem adds_arrayFieldNamed : (key.arrayFieldNamed name).Adds key [.array (key.style.wrap name)]
    [.field (key.style.wrap name), .arrayField] := ⟨rfl, rfl, rfl, rfl⟩

theorem adds_anonymousArray : key.anonymousArray.Adds key [.anonymousArray] [.anonymousArray] :=
  ⟨rfl, rfl, rfl, rfl⟩

theorem adds_arrayField : key.arrayField.Adds key [.arrayField] [.arrayField] :=
  ⟨rfl, rfl, rfl, rfl⟩

theorem adds_elementWithIndex (index : Nat) : (key.elementWithIndex index).Adds key
    [.elementWithIndex index] [.elementWithIndex index] := ⟨rfl, rfl, rfl, rfl⟩

end Navigation

theorem Adds.trans {last next key : Recorder} {words more : List Word} {calls others : List Call}
    (later : last.Adds next more others) (adds : next.Adds key words calls) :
    last.Adds key (words ++ more) (calls ++ others) where
  methods_eq := by
    rw [later.methods_eq, adds.methods_eq, List.map_append, List.append_assoc]
  calls_eq := by
    rw [later.calls_eq, adds.calls_eq, List.append_assoc]
  isStrict_eq := later.isStrict_eq.trans adds.isStrict_eq
  style_eq := later.style_eq.trans adds.style_eq

section Checks

variable {key : Recorder} (lenient : key.delegate.isStrict = false)

include lenient

theorem isEmpty_adds : ∃ chain, key.isEmpty = .ok chain ∧ chain.Adds key [.isEmpty] [.isEmpty] := by
  rw [isEmpty, Asserter.isEmpty, lenient]
  exact ⟨_, rfl, rfl, rfl, rfl, rfl⟩

theorem hasSize_adds (size : Nat) :
    ∃ chain, key.hasSize size = .ok chain ∧ chain.Adds key [.hasSize size] [.hasSize size] := by
  rw [hasSize, Asserter.hasSize, lenient]
  exact ⟨_, rfl, rfl, rfl, rfl, rfl⟩

theorem arrayField_contains_adds (value : Scalar) :
    ∃ chain, key.arrayField.contains value.toJson = .ok chain ∧
      chain.Adds key.arrayField [.contains value, .value] [.contains value.toJson, .isPresent] := by
  have asserting : key.arrayField.delegate.isAssertingArrayValue = true := rfl
  have selected : (key.arrayField.delegate.contains value.toJson).isPresent =
      .ok (key.arrayField.delegate.contains value.toJson).finished :=
    Asserter.check_of_lenient lenient
  rw [contains, asserting, if_pos rfl, selected]
  refine ⟨_, rfl, ?_, rfl, rfl, rfl⟩
  simp only [record, recordWith, finish, extend, List.append_assoc]
  rfl

theorem contains_adds (value : Scalar) : ∃ chain, key.arrayField.contains value.toJson = .ok chain ∧
    chain.Adds key (Mark.contains value).words (Mark.contains value).calls := by
  obtain ⟨chain, made, adds⟩ := arrayField_contains_adds lenient value
  exact ⟨chain, made, adds.trans (adds_arrayField key)⟩

end Checks

/-! ## Equalities and patterns -/

/-- The step that compares with a value, among the elements of an array or elsewhere. -/
def equalityMark (isElement : Bool) : Json → Mark
  | .null => .isNull
  | .bool holds => if isElement then .truth holds else .equals (.flag holds) false
  | .number amount => .equals (.number amount) false
  | .string content => .equals (.text content) isElement
  | .array elements => .equals (.text (Json.array elements).render) isElement
  | .object members => .equals (.text (Json.object members).render) isElement

/-- The step that checks a value or its pattern. -/
def checkMark (isElement : Bool) (value : Json) : Mark :=
  match Placeholder.markedPattern? value with
  | some pattern => .pattern pattern isElement
  | none => equalityMark isElement value

theorem checkMark_ne_values (isElement : Bool) (value : Json) :
    checkMark isElement value ≠ .values := by
  rw [checkMark]
  cases Placeholder.markedPattern? value with
  | some pattern => exact Mark.noConfusion
  | none =>
      cases value with
      | bool holds => cases isElement <;> exact Mark.noConfusion
      | _ => exact Mark.noConfusion

theorem checkMark_ne_truth (value : Json) (holds : Bool) :
    checkMark false value ≠ .truth holds := by
  rw [checkMark]
  cases Placeholder.markedPattern? value with
  | some pattern => exact Mark.noConfusion
  | none => cases value <;> exact Mark.noConfusion

theorem checkMark_ne_truth_of_ne_bool (isElement : Bool) {value : Json}
    (notBool : ∀ holds, value ≠ .bool holds) (holds : Bool) :
    checkMark isElement value ≠ .truth holds := by
  rw [checkMark]
  cases Placeholder.markedPattern? value with
  | some pattern => exact Mark.noConfusion
  | none =>
      cases value with
      | bool other => exact absurd rfl (notBool other)
      | _ => exact Mark.noConfusion

theorem isCanonical_checkMark (isElement : Bool) {value : Json} (canonical : value.IsCanonical) :
    (checkMark isElement value).IsCanonical := by
  rw [checkMark]
  cases Placeholder.markedPattern? value with
  | some pattern => exact trivial
  | none =>
      cases canonical with
      | bool holds => cases isElement <;> exact trivial
      | number canonical => exact canonical
      | _ => exact trivial

/-- What a check leaves behind. -/
structure Checks (chain key : Recorder) (mark : Mark) : Prop where
  adds : chain.Adds key mark.words mark.calls
  finished : chain.isFinished = true
  focus : chain.delegate.focus = .checked

section Checking

variable {key : Recorder} {isElement : Bool} (lenient : key.delegate.isStrict = false)
  (asserting : key.delegate.isAssertingArrayValue = isElement)
  (last : isElement = true → key.lastRecord? = some ".arrayField()")

include lenient

theorem check_withCondition (sign right : String) :
    (key.delegate.withCondition sign right).check =
      .ok (key.delegate.withCondition sign right) := by
  refine Asserter.check_of_lenient ?_
  rw [isStrict_withCondition]
  exact lenient

include asserting

theorem matching_checks (pattern : String) : ∃ chain, key.matching pattern = .ok chain ∧
    chain.Checks key (.pattern pattern isElement) := by
  have strict := isStrict_withCondition key.delegate "=~" ("/" ++ escapeSlashes pattern ++ "/")
  have focus := focus_withCondition key.delegate "=~" ("/" ++ escapeSlashes pattern ++ "/")
  rw [matching, Asserter.matching, check_withCondition lenient, asserting]
  cases isElement with
  | true =>
      refine ⟨_, rfl, ⟨?_, rfl, strict, rfl⟩, rfl, focus⟩
      simp only [record, recordWith, finish, extend, List.append_assoc]
      rfl
  | false => exact ⟨_, rfl, ⟨rfl, rfl, strict, rfl⟩, rfl, focus⟩

theorem isEqualToBool_checks (holds : Bool) : ∃ chain, key.isEqualToBool holds = .ok chain ∧
    chain.Checks key (if isElement then .truth holds else .equals (.flag holds) false) := by
  have strict := fun right => isStrict_withCondition key.delegate "==" right
  have focus := fun right => focus_withCondition key.delegate "==" right
  rw [isEqualToBool, Asserter.isEqualTo, check_withCondition lenient, asserting]
  cases isElement with
  | true => exact ⟨_, rfl, ⟨rfl, rfl, strict _, rfl⟩, rfl, focus _⟩
  | false => exact ⟨_, rfl, ⟨rfl, rfl, strict _, rfl⟩, rfl, focus _⟩

include last

theorem isEqualToText_checks (content : String) : ∃ chain, key.isEqualToText content = .ok chain ∧
    chain.Checks key (.equals (.text content) isElement) := by
  have strict := fun right => isStrict_withCondition key.delegate "==" right
  have focus := fun right => focus_withCondition key.delegate "==" right
  rw [isEqualToText, Asserter.isEqualTo, check_withCondition lenient, asserting]
  cases isElement with
  | true =>
      rw [last rfl]
      refine ⟨_, rfl, ⟨?_, rfl, strict _, rfl⟩, rfl, focus _⟩
      simp only [record, recordWith, finish, extend, List.append_assoc]
      rfl
  | false => exact ⟨_, rfl, ⟨rfl, rfl, strict _, rfl⟩, rfl, focus _⟩

theorem isEqualToNumber_checks (amount : Number) :
    ∃ chain, key.isEqualToNumber amount = .ok chain ∧
      chain.Checks key (.equals (.number amount) false) := by
  have strict := fun right => isStrict_withCondition key.delegate "==" right
  have focus := fun right => focus_withCondition key.delegate "==" right
  rw [isEqualToNumber, Asserter.isEqualTo, check_withCondition lenient, asserting]
  cases isElement with
  | true =>
      rw [last rfl]
      exact ⟨_, rfl, ⟨rfl, rfl, strict _, rfl⟩, rfl, focus _⟩
  | false => exact ⟨_, rfl, ⟨rfl, rfl, strict _, rfl⟩, rfl, focus _⟩

theorem isEqualTo_checks (value : Json) : ∃ chain, key.isEqualTo value = .ok chain ∧
    chain.Checks key (equalityMark isElement value) := by
  cases value with
  | null =>
      have strict := isStrict_withCondition key.delegate "==" "null"
      have focus := focus_withCondition key.delegate "==" "null"
      rw [isEqualTo, isNull, Asserter.isNull, check_withCondition lenient]
      exact ⟨_, rfl, ⟨rfl, rfl, strict, rfl⟩, rfl, focus⟩
  | bool holds => exact isEqualToBool_checks lenient asserting holds
  | number amount => exact isEqualToNumber_checks lenient asserting last amount
  | string content => exact isEqualToText_checks lenient asserting last content
  | array elements => exact isEqualToText_checks lenient asserting last (Json.array elements).render
  | object members => exact isEqualToText_checks lenient asserting last (Json.object members).render

theorem checking_checks (unfinished : key.isFinished = false) (value : Json) :
    ∃ chain, key.checking value = .ok chain ∧ chain.Checks key (checkMark isElement value) := by
  rw [checking, unfinished, if_neg Bool.false_ne_true, checkMark]
  cases Placeholder.markedPattern? value with
  | some pattern => exact matching_checks lenient asserting pattern
  | none => exact isEqualTo_checks lenient asserting last value

end Checking

/-- The chains for a value that is not looked into. -/
theorem leaf_eq {key checked : Recorder} {value : Json} (made : key.checking value = .ok checked) :
    key.leaf value = .ok [checked] ∨ ∀ contained, key.arrayField.contains value = .ok contained →
      key.leaf value = .ok [contained, checked] := by
  rw [leaf, made]
  cases value with
  | null => exact Or.inl rfl
  | _ =>
      cases iterating : key.delegate.isIterating with
      | false => exact Or.inl rfl
      | true =>
          right
          intro contained asked
          simp [asked, bind, Except.bind]

end Recorder

end BodyContract
