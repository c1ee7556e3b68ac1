import BodyContract.Proofs.Recording.Navigation

/-!
# What a recorded check says

A check ends a chain that stands somewhere.  Replayed on any document, the
chain succeeds exactly if

* an equality finds its literal behind the hops of the chain,
* a check of emptiness leads to nothing but empty values,
* a check of a size counts that many values.

Recording a check never fails, because the recorded assertion is lenient.
-/

namespace BodyContract

namespace Asserter

theorem check_of_lenient {asserter : Asserter} (lenient : asserter.isStrict = false) :
    asserter.check = .ok asserter := by
  rw [check, checkPath, lenient]
  rfl

/-- A strict check succeeds where its path is read and selects something. -/
theorem check_ok_iff {asserter : Asserter} (strict : asserter.isStrict = true) {parsed : Path}
    (read : Path.parse asserter.path = .ok parsed) :
    (∃ next, asserter.check = .ok next) ↔ parsed.evaluate asserter.document ≠ [] := by
  rw [check, checkPath, strict, matched, read]
  simp only [if_true, bind, Except.bind]
  cases parsed.evaluate asserter.document with
  | nil => simp
  | cons value others => simp

end Asserter

namespace Recorder

/-- Whether all calls of a chain succeed on a document. -/
def Holds (chain : Recorder) (document : Json) : Prop :=
  ∃ asserter, chain.replay (.ofDocument document) = .ok asserter

/-- A chain without a check holds everywhere. -/
theorem Stands.holds {key : Recorder} {pieces : List (List Hop)} (stands : key.Stands pieces)
    (document : Json) : key.Holds document :=
  ⟨_, stands.replays document⟩

/-- A chain that has made further calls, the last of them a check. -/
structure Ends (chain key : Recorder) (calls : List Call) : Prop where
  calls_eq : chain.calls = key.calls ++ calls
  finished : chain.isFinished = true
  focus : chain.delegate.focus = .checked

/-- Whether a chain with a check holds depends on the check alone. -/
theorem Ends.holds_iff {chain key : Recorder} {calls : List Call} (ends : chain.Ends key calls)
    {pieces : List (List Hop)} (stands : key.Stands pieces) (document : Json) :
    chain.Holds document ↔
      ∃ asserter, Call.applyAll calls (key.delegate.strictOn document) = .ok asserter := by
  have before := stands.replays document
  rw [replay] at before
  rw [Holds, replay, ends.calls_eq, applyAll_append, before]
  rfl

theorem applyAll_singleton (call : Call) (asserter : Asserter) :
    Call.applyAll [call] asserter = call.apply asserter := by
  rw [Call.applyAll]
  cases call.apply asserter with
  | error failure => rfl
  | ok next => rfl

/-! ## Equality -/

/-- The hops in front of a condition and those inside it.  A member that has
been gone to last is part of the condition. -/
def conditionHops (focus : Focus) (pieces : List (List Hop)) : List Hop × List Hop :=
  if focus = .field then (pieces.dropLast.flatten, pieces.getLast?.getD []) else (pieces.flatten, [])

theorem conditionHops_field (pieces : List (List Hop)) (last : List Hop) :
    conditionHops .field (pieces ++ [last]) = (pieces.flatten, last) := by
  rw [conditionHops, if_pos rfl, List.dropLast_concat, List.getLast?_concat, Option.getD_some]

theorem conditionHops_other {focus : Focus} (other : focus ≠ .field)
    (pieces : List (List Hop)) : conditionHops focus pieces = (pieces.flatten, []) := by
  rw [conditionHops, if_neg other]

/-- What a condition on a standing chain speaks of, and the path that it makes. -/
theorem Stands.path_withCondition {key : Recorder} {pieces : List (List Hop)}
    (stands : key.Stands pieces) {front inside : List Hop}
    (hops : conditionHops key.delegate.focus pieces = (front, inside)) :
    front ++ inside = pieces.flatten ∧ AreNames inside ∧
      ∀ document sign right, ((key.delegate.strictOn document).withCondition sign right).path =
        Path.pathText front ++
          ("[?(@" ++ Hop.textOf inside ++ " " ++ sign ++ " " ++ right ++ ")]") := by
  by_cases isField : key.delegate.focus = .field
  · obtain ⟨others, name, rfl, named⟩ := stands.lastField isField
    rw [isField, conditionHops_field] at hops
    cases hops
    refine ⟨by rw [List.flatten_append, List.flatten_singleton], ?_, ?_⟩
    · intro hop member
      rw [List.mem_singleton] at member
      exact ⟨name, member⟩
    · intro document sign right
      have focus : (key.delegate.strictOn document).focus = .field := isField
      have field : (key.delegate.strictOn document).fieldName =
        some (NameStyle.bracketed.wrap name) := named
      have shorter : (key.delegate.strictOn document).pieces.dropLast =
          "$" :: others.map Hop.textOf := by
        have same : (key.delegate.strictOn document).pieces =
          "$" :: (others ++ [[Hop.member name]]).map Hop.textOf := stands.pieces_eq
        rw [same, List.map_append, ← List.cons_append, List.map_singleton, List.dropLast_concat]
      simp only [Asserter.withCondition, focus, field, shorter, Asserter.path]
      rw [String.join_append, join_pieces, String.join_cons, String.join_nil, String.append_empty,
        Hop.textOf_singleton, Hop.text]
      have dot : "[?(@." = "[?(@" ++ "." := rfl
      rw [dot]
      simp only [String.append_assoc]
  · rw [conditionHops_other isField] at hops
    cases hops
    refine ⟨List.append_nil _, fun _ member => absurd member List.not_mem_nil, ?_⟩
    intro document sign right
    have same : (key.delegate.strictOn document).pieces = "$" :: pieces.map Hop.textOf :=
      stands.pieces_eq
    rw [Asserter.withCondition]
    split
    · rename_i focus field
      exact absurd focus isField
    · rw [Asserter.path, same, String.join_append, join_pieces, String.join_cons, String.join_nil,
        String.append_empty, Hop.textOf_nil]
      have blank : "[?(@ " = "[?(@" ++ "" ++ " " := rfl
      rw [blank]

/-- The path that a condition of equality makes. -/
theorem Stands.condition {key : Recorder} {pieces : List (List Hop)} (stands : key.Stands pieces)
    {front inside : List Hop} (hops : conditionHops key.delegate.focus pieces = (front, inside)) :
    front ++ inside = pieces.flatten ∧ AreNames inside ∧
      ∀ document value, ((key.delegate.strictOn document).withCondition "=="
        value.filterLiteral).path = Path.pathText front ++ Path.conditionText inside value := by
  obtain ⟨whole, named, path⟩ := stands.path_withCondition hops
  refine ⟨whole, named, fun document value => ?_⟩
  have sign : " == " = " " ++ "==" ++ " " := rfl
  rw [path, Path.conditionText, sign]
  simp only [String.append_assoc]

/-- The call that checks the equality with a value that is no container. -/
def equalityCall : Json → Call
  | .null => .isNull
  | value => .isEqualTo value

theorem equalityCall_apply (value : Json) (asserter : Asserter) :
    (equalityCall value).apply asserter =
      (asserter.withCondition "==" value.filterLiteral).check := by
  cases value <;> rfl

theorem focus_withCondition (asserter : Asserter) (sign right : String) :
    (asserter.withCondition sign right).focus = .checked := by
  rw [Asserter.withCondition]
  split <;> rfl

theorem isStrict_withCondition (asserter : Asserter) (sign right : String) :
    (asserter.withCondition sign right).isStrict = asserter.isStrict := by
  rw [Asserter.withCondition]
  split <;> rfl

theorem document_withCondition (asserter : Asserter) (sign right : String) :
    (asserter.withCondition sign right).document = asserter.document := by
  rw [Asserter.withCondition]
  split <;> rfl

/-- What is written down once an equality with a value that is no container has been
checked. -/
theorem isEqualTo_of_check {key : Recorder} {value : Json} (scalar : value.isContainer = false)
    {next : Asserter}
    (checked : (key.delegate.withCondition "==" value.filterLiteral).check = .ok next) :
    ∃ chain, key.isEqualTo value = .ok chain ∧ chain.calls = key.calls ++ [equalityCall value] ∧
      chain.isFinished = true ∧ chain.delegate = next := by
  cases value with
  | null =>
      have checkedNull : (key.delegate.withCondition "==" "null").check = .ok next := checked
      rw [isEqualTo, isNull, Asserter.isNull, checkedNull]
      exact ⟨_, rfl, rfl, rfl, rfl⟩
  | bool flag =>
      rw [isEqualTo, isEqualToBool, Asserter.isEqualTo, checked]
      simp only [bind, Except.bind]
      split <;> exact ⟨_, rfl, rfl, rfl, rfl⟩
  | number number =>
      rw [isEqualTo, isEqualToNumber, Asserter.isEqualTo, checked]
      simp only [bind, Except.bind]
      split <;> split <;> exact ⟨_, rfl, rfl, rfl, rfl⟩
  | string text =>
      rw [isEqualTo, isEqualToText, Asserter.isEqualTo, checked]
      simp only [bind, Except.bind]
      repeat' split
      all_goals exact ⟨_, rfl, rfl, rfl, rfl⟩
  | array elements => cases scalar
  | object members => cases scalar

/-- An equality that fails is not written down. -/
theorem isEqualTo_of_check_error {key : Recorder} {value : Json} (scalar : value.isContainer = false)
    {failure : AssertionError}
    (failed : (key.delegate.withCondition "==" value.filterLiteral).check = .error failure) :
    key.isEqualTo value = .error failure := by
  cases value with
  | null =>
      have failedNull : (key.delegate.withCondition "==" "null").check = .error failure := failed
      rw [isEqualTo, isNull, Asserter.isNull, failedNull]
      rfl
  | bool flag =>
      rw [isEqualTo, isEqualToBool, Asserter.isEqualTo, failed]
      rfl
  | number number =>
      rw [isEqualTo, isEqualToNumber, Asserter.isEqualTo, failed]
      rfl
  | string text =>
      rw [isEqualTo, isEqualToText, Asserter.isEqualTo, failed]
      rfl
  | array elements => cases scalar
  | object members => cases scalar

/-- Whether an equality succeeds depends on its condition alone. -/
theorem isEqualTo_ok_iff {key : Recorder} {value : Json} (scalar : value.isContainer = false) :
    (∃ chain, key.isEqualTo value = .ok chain) ↔
      ∃ next, (key.delegate.withCondition "==" value.filterLiteral).check = .ok next := by
  cases checked : (key.delegate.withCondition "==" value.filterLiteral).check with
  | error failure => simp [isEqualTo_of_check_error scalar checked]
  | ok next =>
      obtain ⟨chain, recorded, -⟩ := isEqualTo_of_check scalar checked
      simp [recorded]

/-- Recording an equality with a value that is no container. -/
theorem isEqualTo_ends {key : Recorder} (lenient : key.delegate.isStrict = false) {value : Json}
    (scalar : value.isContainer = false) :
    ∃ chain, key.isEqualTo value = .ok chain ∧ chain.Ends key [equalityCall value] := by
  have made : (key.delegate.withCondition "==" value.filterLiteral).check =
      .ok (key.delegate.withCondition "==" value.filterLiteral) := by
    apply Asserter.check_of_lenient
    rw [isStrict_withCondition]
    exact lenient
  obtain ⟨chain, recorded, calls, finished, delegate⟩ := isEqualTo_of_check scalar made
  refine ⟨chain, recorded, calls, finished, ?_⟩
  rw [delegate, focus_withCondition]

/-- A condition of equality holds where its literal is found. -/
theorem Stands.equality_check_ok_iff {key : Recorder} {pieces : List (List Hop)}
    (stands : key.Stands pieces) {front inside : List Hop}
    (hops : conditionHops key.delegate.focus pieces = (front, inside)) {value read : Json}
    (literal : Path.LiteralReads value read) (document : Json) :
    (∃ next, ((key.delegate.strictOn document).withCondition "==" value.filterLiteral).check =
      .ok next) ↔ Finds front inside read document := by
  obtain ⟨whole, named, path⟩ := stands.condition hops
  have readable := stands.flatten_readable
  rw [← whole] at readable
  have parsed := Path.parse_hops_condition
    (fun hop member => readable hop (List.mem_append_left inside member))
    (fun hop member => readable hop (List.mem_append_right front member)) literal
  rw [← path document value] at parsed
  have strict : ((key.delegate.strictOn document).withCondition "==" value.filterLiteral).isStrict =
      true := by
    rw [isStrict_withCondition]
    rfl
  rw [Asserter.check_ok_iff strict parsed, document_withCondition]
  exact evaluate_hops_condition_ne_nil_iff _ front named.areSingle read document

/-- A recorded equality holds where its literal is found. -/
theorem Ends.equality_holds_iff {chain key : Recorder} {value read : Json}
    (ends : chain.Ends key [equalityCall value]) {pieces : List (List Hop)}
    (stands : key.Stands pieces) {front inside : List Hop}
    (hops : conditionHops key.delegate.focus pieces = (front, inside))
    (literal : Path.LiteralReads value read) (document : Json) :
    chain.Holds document ↔ Finds front inside read document := by
  rw [ends.holds_iff stands, applyAll_singleton, equalityCall_apply]
  exact stands.equality_check_ok_iff hops literal document

/-- Recording that an element equals a value. -/
theorem contains_ends {key : Recorder} (lenient : key.delegate.isStrict = false)
    (elements : key.delegate.focus = .arrayValue) (value : Json) :
    ∃ chain, key.contains value = .ok chain ∧ chain.Ends key [.contains value, .isPresent] := by
  have asserting : key.delegate.isAssertingArrayValue = true := by
    rw [Asserter.isAssertingArrayValue, elements]
    rfl
  have selected : (key.delegate.contains value).isPresent =
      .ok (key.delegate.contains value).finished := by
    refine Asserter.check_of_lenient ?_
    rw [Asserter.contains, elements]
    exact lenient
  rw [contains, asserting]
  simp only [if_true, selected, bind, Except.bind]
  exact ⟨_, rfl, rfl, rfl, rfl⟩

/-- The path that a search among elements makes is that of a condition. -/
theorem Stands.contains_path {key : Recorder} {pieces : List (List Hop)} (stands : key.Stands pieces)
    (elements : key.delegate.focus = .arrayValue) (document value : Json) :
    ((key.delegate.strictOn document).contains value).finished.path =
      Path.pathText pieces.flatten ++ Path.conditionText [] value := by
  have other : key.delegate.focus ≠ .field := by
    rw [elements]
    exact Focus.noConfusion
  obtain ⟨-, -, path⟩ := stands.condition (conditionHops_other other pieces)
  have focus : (key.delegate.strictOn document).focus = .arrayValue := elements
  rw [← path document value, Asserter.contains, if_pos focus, Asserter.withCondition]
  split
  · rename_i isField _
    rw [focus] at isField
    cases isField
  · have noSpace : "[?(@ == " = "[?(@ " ++ "==" ++ " " := rfl
    rw [noSpace]
    rfl

/-- Whether a recorded element holds depends on the search for it alone. -/
theorem Ends.contains_holds_iff_check {chain key : Recorder} {value : Json}
    (ends : chain.Ends key [.contains value, .isPresent]) {pieces : List (List Hop)}
    (stands : key.Stands pieces) (document : Json) :
    chain.Holds document ↔ ∃ next,
      ((key.delegate.strictOn document).contains value).finished.check = .ok next := by
  have applied : Call.applyAll [.contains value, .isPresent] (key.delegate.strictOn document) =
      ((key.delegate.strictOn document).contains value).finished.check := by
    rw [Call.applyAll, Call.apply]
    exact applyAll_singleton .isPresent _
  rw [ends.holds_iff stands, applied]

/-- A recorded element holds where its literal is found among the elements. -/
theorem Ends.contains_holds_iff {chain key : Recorder} {value read : Json}
    (ends : chain.Ends key [.contains value, .isPresent]) {pieces : List (List Hop)}
    (stands : key.Stands pieces) (elements : key.delegate.focus = .arrayValue)
    (literal : Path.LiteralReads value read) (document : Json) :
    chain.Holds document ↔ Finds pieces.flatten [] read document := by
  have parsed := Path.parse_hops_condition stands.flatten_readable
    (fun hop member => absurd member List.not_mem_nil) literal
  rw [← stands.contains_path elements document value] at parsed
  have focus : (key.delegate.strictOn document).focus = .arrayValue := elements
  have strict : ((key.delegate.strictOn document).contains value).finished.isStrict = true := by
    rw [Asserter.contains, if_pos focus]
    rfl
  have same : ((key.delegate.strictOn document).contains value).finished.document = document := by
    rw [Asserter.contains, if_pos focus]
    rfl
  have named : AreNames [] := fun _ member => absurd member List.not_mem_nil
  rw [ends.contains_holds_iff_check stands, Asserter.check_ok_iff strict parsed, same]
  exact evaluate_hops_condition_ne_nil_iff _ pieces.flatten named.areSingle read document

/-! ## Emptiness and sizes -/

theorem Stands.matched {key : Recorder} {pieces : List (List Hop)} (stands : key.Stands pieces)
    (document : Json) :
    (key.delegate.strictOn document).matched (key.delegate.strictOn document).path =
      .ok (follow pieces.flatten document) := by
  have path : (key.delegate.strictOn document).path = Path.pathText pieces.flatten :=
    stands.path_eq
  rw [Asserter.matched, path, Path.parse_hops stands.flatten_readable]
  exact congrArg Except.ok (evaluate_hops _ pieces.flatten document)

theorem isEmpty_ends {key : Recorder} (lenient : key.delegate.isStrict = false) :
    ∃ chain, key.isEmpty = .ok chain ∧ chain.Ends key [.isEmpty] := by
  rw [isEmpty, Asserter.isEmpty, lenient]
  exact ⟨_, rfl, rfl, rfl, rfl⟩

/-- A recorded check of emptiness holds where the chain leads to nothing but
empty values. -/
theorem Ends.isEmpty_holds_iff {chain key : Recorder} (ends : chain.Ends key [.isEmpty])
    {pieces : List (List Hop)} (stands : key.Stands pieces) (document : Json) :
    chain.Holds document ↔
      ∀ value ∈ follow pieces.flatten document, Asserter.isEmptyValue value = true := by
  have strict : (key.delegate.strictOn document).isStrict = true := rfl
  rw [ends.holds_iff stands, applyAll_singleton, Call.apply, Asserter.isEmpty, strict,
    stands.matched]
  simp only [if_true, bind, Except.bind]
  rw [← List.all_eq_true]
  cases (follow pieces.flatten document).all Asserter.isEmptyValue with
  | true => simp
  | false => simp

theorem hasSize_ends {key : Recorder} (lenient : key.delegate.isStrict = false) (size : Nat) :
    ∃ chain, key.hasSize size = .ok chain ∧ chain.Ends key [.hasSize size] := by
  rw [hasSize, Asserter.hasSize, lenient]
  exact ⟨_, rfl, rfl, rfl, rfl⟩

/-- A recorded check of a size holds where that many values are counted. -/
theorem Ends.hasSize_holds_iff {chain key : Recorder} {size : Nat}
    (ends : chain.Ends key [.hasSize size]) {pieces : List (List Hop)}
    (stands : key.Stands pieces) (document : Json) :
    chain.Holds document ↔ Asserter.countOf (follow pieces.flatten document) = size := by
  have strict : (key.delegate.strictOn document).isStrict = true := rfl
  rw [ends.holds_iff stands, applyAll_singleton, Call.apply, Asserter.hasSize, strict,
    stands.matched]
  simp only [if_true, bind, Except.bind]
  by_cases same : Asserter.countOf (follow pieces.flatten document) = size
  · simp [same]
  · simp [same]

end Recorder

end BodyContract
