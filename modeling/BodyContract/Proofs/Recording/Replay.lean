import BodyContract.Proofs.Outcome
import BodyContract.Proofs.Recording.Checks
import BodyContract.Recording.Operation

/-!
# Replaying a record is asserting directly

What an operation writes down, the calls and their texts, depends on the place
of the assertion and on the record so far, but neither on the document nor on
whether anything is checked.  A record that is made on one document without any
checks can therefore be replayed on another one, where it fails exactly where
the operations themselves would have failed.
-/

namespace BodyContract

namespace Asserter

/-- The assertion at the same place of a document, with or without checks. -/
def on (asserter : Asserter) (document : Json) (isStrict : Bool) : Asserter :=
  { asserter with document := document, isStrict := isStrict }

section On

variable (asserter : Asserter) (document : Json) (isStrict : Bool)

theorem on_contains (value : Json) :
    (asserter.on document isStrict).contains value =
      (asserter.contains value).on document isStrict := by
  have sameFocus : (asserter.on document isStrict).focus = asserter.focus := rfl
  rw [contains, contains, sameFocus]
  split
  · rfl
  · rfl

theorem on_withCondition (sign right : String) :
    (asserter.on document isStrict).withCondition sign right =
      (asserter.withCondition sign right).on document isStrict := by
  have sameFocus : (asserter.on document isStrict).focus = asserter.focus := rfl
  have sameName : (asserter.on document isStrict).fieldName = asserter.fieldName := rfl
  rw [withCondition.eq_def, withCondition.eq_def, sameFocus, sameName]
  split
  · rfl
  · rfl

end On

/-- A check that succeeds leaves the assertion where it is. -/
theorem eq_of_check {asserter checked : Asserter} (succeeds : asserter.check = .ok checked) :
    checked = asserter := by
  rw [check, bind_eq_ok_iff] at succeeds
  obtain ⟨_, _, same⟩ := succeeds
  cases same
  rfl

end Asserter

namespace Call

/-- Without checks a call succeeds, and it leads to the same place with checks
if it succeeds there. -/
def MovesTo (call : Call) (asserter next : Asserter) : Prop :=
  (∀ document, call.apply (asserter.on document false) = .ok (next.on document false)) ∧
    ∀ document isStrict reached, call.apply (asserter.on document isStrict) = .ok reached →
      reached = next.on document isStrict

theorem movesTo_of_step {call : Call} {asserter next : Asserter}
    (steps : ∀ document isStrict,
      call.apply (asserter.on document isStrict) = .ok (next.on document isStrict)) :
    call.MovesTo asserter next := by
  refine ⟨fun document => steps document false, ?_⟩
  intro document isStrict reached succeeds
  rw [steps] at succeeds
  cases succeeds
  rfl

/-- A check that looks whether its path selects something. -/
theorem movesTo_of_check {call : Call} {asserter next : Asserter}
    (checks : ∀ document isStrict,
      call.apply (asserter.on document isStrict) = (next.on document isStrict).check) :
    call.MovesTo asserter next := by
  constructor
  · intro document
    rw [checks]
    exact Asserter.check_of_lenient rfl
  · intro document isStrict reached succeeds
    rw [checks] at succeeds
    exact Asserter.eq_of_check succeeds

/-- A check that looks at the selected values, where it is strict. -/
theorem movesTo_of_test {call : Call} {asserter : Asserter}
    (lenient : ∀ document,
      call.apply (asserter.on document false) = .ok (asserter.on document false).finished)
    (strict : ∀ document reached, call.apply (asserter.on document true) = .ok reached →
      reached = (asserter.on document true).finished) :
    call.MovesTo asserter asserter.finished := by
  refine ⟨lenient, ?_⟩
  intro document isStrict reached succeeds
  cases isStrict with
  | false =>
      rw [lenient] at succeeds
      cases succeeds
      rfl
  | true => exact strict document reached succeeds

/-- The place that a call leads to where it succeeds. -/
def target (call : Call) (asserter : Asserter) : Asserter :=
  match call with
  | .contains value => asserter.contains value
  | .field name => asserter.field name
  | .array name => asserter.array name
  | .anonymousArray => asserter.anonymousArray
  | .arrayField => asserter.arrayField
  | .elementWithIndex index => asserter.elementWithIndex index
  | .isEqualTo value => asserter.withCondition "==" value.filterLiteral
  | .isNull => asserter.withCondition "==" "null"
  | .matching pattern => asserter.withCondition "=~" ("/" ++ escapeSlashes pattern ++ "/")
  | .isEmpty => asserter.finished
  | .isInstanceOf _ => asserter.finished
  | .hasSize _ => asserter.finished
  | .isPresent => asserter.finished

theorem movesTo_target (call : Call) (asserter : Asserter) :
    call.MovesTo asserter (call.target asserter) := by
  cases call with
  | contains value =>
      refine movesTo_of_step fun document isStrict => ?_
      rw [apply, Asserter.on_contains, target]
  | field name => exact movesTo_of_step fun _ _ => rfl
  | array name => exact movesTo_of_step fun _ _ => rfl
  | anonymousArray => exact movesTo_of_step fun _ _ => rfl
  | arrayField => exact movesTo_of_step fun _ _ => rfl
  | elementWithIndex index => exact movesTo_of_step fun _ _ => rfl
  | isEqualTo value =>
      refine movesTo_of_check fun _ _ => ?_
      rw [apply, Asserter.isEqualTo, Asserter.on_withCondition, target]
  | isNull =>
      refine movesTo_of_check fun _ _ => ?_
      rw [apply, Asserter.isNull, Asserter.on_withCondition, target]
  | matching pattern =>
      refine movesTo_of_check fun _ _ => ?_
      rw [apply, Asserter.matching, Asserter.on_withCondition, target]
  | isPresent => exact movesTo_of_check fun _ _ => rfl
  | isEmpty =>
      refine movesTo_of_test (fun _ => rfl) ?_
      intro document reached succeeds
      have strict : (asserter.on document true).isStrict = true := rfl
      rw [apply, Asserter.isEmpty, if_pos strict, bind_eq_ok_iff] at succeeds
      obtain ⟨values, _, tested⟩ := succeeds
      split at tested
      · cases tested
        rfl
      · cases tested
  | isInstanceOf className =>
      refine movesTo_of_test (fun _ => rfl) ?_
      intro document reached succeeds
      have strict : (asserter.on document true).isStrict = true := rfl
      rw [apply, Asserter.isInstanceOf, if_pos strict, bind_eq_ok_iff] at succeeds
      obtain ⟨values, _, tested⟩ := succeeds
      split at tested
      · cases tested
      · split at tested
        · cases tested
          rfl
        · cases tested
  | hasSize size =>
      refine movesTo_of_test (fun _ => rfl) ?_
      intro document reached succeeds
      have strict : (asserter.on document true).isStrict = true := rfl
      rw [apply, Asserter.hasSize, if_pos strict, bind_eq_ok_iff] at succeeds
      obtain ⟨values, _, tested⟩ := succeeds
      dsimp only at tested
      split at tested
      · cases tested
        rfl
      · cases tested

/-- Calls one after another lead to the same place with and without checks. -/
theorem exists_applyAll_movesTo (calls : List Call) (asserter : Asserter) :
    ∃ next : Asserter,
      (∀ document, applyAll calls (asserter.on document false) = .ok (next.on document false)) ∧
        ∀ document isStrict reached,
          applyAll calls (asserter.on document isStrict) = .ok reached →
            reached = next.on document isStrict := by
  induction calls generalizing asserter with
  | nil =>
      refine ⟨asserter, fun _ => rfl, ?_⟩
      intro document isStrict reached succeeds
      cases succeeds
      rfl
  | cons call rest inductionHypothesis =>
      obtain ⟨lenient, moved⟩ := call.movesTo_target asserter
      obtain ⟨next, restLenient, restMoved⟩ := inductionHypothesis (call.target asserter)
      refine ⟨next, ?_, ?_⟩
      · intro document
        rw [applyAll, lenient]
        exact restLenient document
      · intro document isStrict reached succeeds
        rw [applyAll, bind_eq_ok_iff] at succeeds
        obtain ⟨between, first, later⟩ := succeeds
        have same := moved document isStrict between first
        rw [same] at later
        exact restMoved document isStrict reached later

end Call

/-! ## What an operation writes down -/

namespace Recorder

/-- The same record of an assertion on another document. -/
def on (recorder : Recorder) (document : Json) (isStrict : Bool) : Recorder :=
  { recorder with delegate := recorder.delegate.on document isStrict }

theorem on_isAssertingArrayValue (recorder : Recorder) (document : Json) (isStrict : Bool) :
    (recorder.on document isStrict).delegate.isAssertingArrayValue =
      recorder.delegate.isAssertingArrayValue := (rfl)

theorem on_lastRecord? (recorder : Recorder) (document : Json) (isStrict : Bool) :
    (recorder.on document isStrict).lastRecord? = recorder.lastRecord? := (rfl)

/-- The record after further texts and calls have been written down. -/
def grown (recorder : Recorder) (texts : List String) (calls : List Call)
    (checkedKey : Option String) (delegate : Asserter) : Recorder :=
  ⟨delegate, recorder.methods ++ texts, recorder.calls ++ calls, checkedKey, recorder.style⟩

/-- Whether a way of recording makes calls on the assertion and writes down
these calls and some texts, on every document alike. -/
def Writes (recorder : Recorder) (recording : Recorder → Except AssertionError Recorder) : Prop :=
  ∃ texts calls checkedKey, ∀ document isStrict,
    recording (recorder.on document isStrict) =
      (Call.applyAll calls (recorder.delegate.on document isStrict)).map
        (recorder.grown texts calls checkedKey)

section Writes

variable {recorder : Recorder}

theorem writes_nothing : recorder.Writes .ok := by
  refine ⟨[], [], recorder.checkedKey, fun document isStrict => ?_⟩
  simp [Call.applyAll, Except.map, grown, on]

theorem writes_call {recording : Recorder → Except AssertionError Recorder} (call : Call)
    (texts : List String) (checkedKey : Option String)
    (records : ∀ document isStrict, recording (recorder.on document isStrict) = (do
      let delegate ← call.apply (recorder.delegate.on document isStrict)
      .ok (recorder.grown texts [call] checkedKey delegate))) :
    recorder.Writes recording := by
  refine ⟨texts, [call], checkedKey, fun document isStrict => ?_⟩
  rw [records, applyAll_singleton]
  cases call.apply (recorder.delegate.on document isStrict) with
  | error failure => rfl
  | ok delegate => rfl

/-- What is written down by two recordings in turn. -/
theorem Writes.andThen {first second : Recorder → Except AssertionError Recorder}
    (writesFirst : recorder.Writes first) (writesSecond : ∀ other, Writes other second) :
    recorder.Writes fun before => first before >>= second := by
  obtain ⟨texts, calls, checkedKey, recorded⟩ := writesFirst
  obtain ⟨next, -, moved⟩ := Call.exists_applyAll_movesTo calls recorder.delegate
  obtain ⟨moreTexts, moreCalls, lastKey, continued⟩ :=
    writesSecond (recorder.grown texts calls checkedKey next)
  refine ⟨texts ++ moreTexts, calls ++ moreCalls, lastKey, fun document isStrict => ?_⟩
  dsimp only
  rw [recorded, applyAll_append]
  cases applied : Call.applyAll calls (recorder.delegate.on document isStrict) with
  | error failure => rfl
  | ok reached =>
      have same := moved document isStrict reached applied
      have later := continued document isStrict
      have joined : (recorder.grown texts calls checkedKey next).grown moreTexts moreCalls lastKey =
          recorder.grown (texts ++ moreTexts) (calls ++ moreCalls) lastKey := by
        funext delegate
        simp only [grown, List.append_assoc]
      rw [joined] at later
      rw [same]
      exact later

/-- A check whose texts depend on its place and on the record so far. -/
theorem writes_check (call : Call) {rest : Recorder → Asserter → Except AssertionError Recorder}
    (written : ∃ texts, ∀ document isStrict delegate,
      rest (recorder.on document isStrict) delegate =
        .ok (recorder.grown texts [call] (some recorder.path) delegate)) :
    recorder.Writes fun before => call.apply before.delegate >>= rest before := by
  obtain ⟨texts, written⟩ := written
  refine writes_call call texts (some recorder.path) fun document isStrict => ?_
  have sameDelegate : (recorder.on document isStrict).delegate =
      recorder.delegate.on document isStrict := rfl
  rw [sameDelegate]
  cases call.apply (recorder.delegate.on document isStrict) with
  | error failure => rfl
  | ok delegate => exact written document isStrict delegate

/-- Looking for a value writes one call, or two among the elements of an array. -/
theorem writes_contains (value : Json) : recorder.Writes fun before => before.contains value := by
  by_cases elements : recorder.delegate.isAssertingArrayValue = true
  · refine ⟨["." ++ "contains" ++ "(" ++ value.quotedLabel ++ ")"] ++ [".value()"],
      [.contains value, .isPresent], some recorder.path, fun document isStrict => ?_⟩
    have sameDelegate : (recorder.on document isStrict).delegate =
        recorder.delegate.on document isStrict := rfl
    have applied : Call.applyAll [.contains value, .isPresent]
        (recorder.delegate.on document isStrict) =
          ((recorder.delegate.on document isStrict).contains value).isPresent := by
      rw [Call.applyAll, Call.apply]
      exact applyAll_singleton .isPresent _
    dsimp only
    rw [contains, on_isAssertingArrayValue, if_pos elements, applied, sameDelegate]
    cases ((recorder.delegate.on document isStrict).contains value).isPresent with
    | error failure => rfl
    | ok checked =>
        simp only [Except.map, grown, ← List.append_assoc]
        rfl
  · refine writes_call (.contains value) ["." ++ "contains" ++ "(" ++ value.quotedLabel ++ ")"]
      (some recorder.path) fun document isStrict => ?_
    rw [contains, on_isAssertingArrayValue, if_neg elements]
    rfl

theorem writes_isEqualToText (text : String) :
    recorder.Writes fun before => before.isEqualToText text := by
  refine writes_check (.isEqualTo (.string text)) ?_
  simp only [on_isAssertingArrayValue, on_lastRecord?]
  by_cases elements : recorder.delegate.isAssertingArrayValue = true
  · simp only [if_pos elements]
    split
    · refine ⟨["." ++ "isEqualTo" ++ "(" ++ javaString text ++ ")"] ++ [".value()"],
        fun _ _ _ => ?_⟩
      simp only [grown, ← List.append_assoc]
      rfl
    · split
      · exact ⟨_, fun _ _ _ => rfl⟩
      · exact ⟨_, fun _ _ _ => rfl⟩
    · exact ⟨_, fun _ _ _ => rfl⟩
  · simp only [if_neg elements]
    exact ⟨_, fun _ _ _ => rfl⟩

theorem writes_isEqualToNumber (number : Number) :
    recorder.Writes fun before => before.isEqualToNumber number := by
  refine writes_check (.isEqualTo (.number number)) ?_
  simp only [on_isAssertingArrayValue, on_lastRecord?]
  split
  · split
    · exact ⟨_, fun _ _ _ => rfl⟩
    · exact ⟨_, fun _ _ _ => rfl⟩
  · split
    · exact ⟨_, fun _ _ _ => rfl⟩
    · exact ⟨_, fun _ _ _ => rfl⟩

theorem writes_isEqualToBool (flag : Bool) :
    recorder.Writes fun before => before.isEqualToBool flag := by
  refine writes_check (.isEqualTo (.bool flag)) ?_
  simp only [on_isAssertingArrayValue]
  split
  · exact ⟨_, fun _ _ _ => rfl⟩
  · exact ⟨_, fun _ _ _ => rfl⟩

theorem writes_matching (pattern : String) :
    recorder.Writes fun before => before.matching pattern := by
  refine writes_check (.matching pattern) ?_
  simp only [on_isAssertingArrayValue]
  split
  · refine ⟨["." ++ "matches" ++ "(" ++ javaString pattern ++ ")"] ++ [".value()"],
      fun _ _ _ => ?_⟩
    simp only [grown, ← List.append_assoc]
    rfl
  · exact ⟨_, fun _ _ _ => rfl⟩

theorem writes_isNull : recorder.Writes isNull :=
  writes_check .isNull ⟨_, fun _ _ _ => rfl⟩

theorem writes_isEqualTo (value : Json) : recorder.Writes fun before => before.isEqualTo value := by
  cases value with
  | null => exact writes_isNull
  | bool flag => exact writes_isEqualToBool flag
  | number number => exact writes_isEqualToNumber number
  | string text => exact writes_isEqualToText text
  | array elements => exact writes_isEqualToText (Json.array elements).render
  | object members => exact writes_isEqualToText (Json.object members).render

/-- Going to a member writes one call; its name depends on the place. -/
theorem writes_fieldAs (callName : Recorder → String)
    (alike : ∀ (before : Recorder) document isStrict,
      callName (before.on document isStrict) = callName before) (name : String) :
    recorder.Writes fun before => .ok (before.fieldAs (callName before) name) := by
  refine writes_call (.field (recorder.style.wrap name))
    ["." ++ callName recorder ++ "(" ++ quoteOnly (recorder.style.wrap name) ++ ")"]
    recorder.checkedKey fun document isStrict => ?_
  rw [alike]
  rfl

theorem writes_field (name : String) : recorder.Writes fun before => .ok (before.field name) :=
  writes_fieldAs (fun before => if before.delegate.isIterating then "contains" else "field")
    (fun _ _ _ => rfl) name

theorem writes_fieldPath (names : List String) :
    recorder.Writes fun before => .ok (before.fieldPath names) := by
  induction names generalizing recorder with
  | nil => exact writes_nothing
  | cons name rest inductionHypothesis =>
      exact (writes_field name).andThen fun _ => inductionHypothesis

end Writes

theorem writes_record (operation : Operation) (recorder : Recorder) :
    recorder.Writes operation.record := by
  cases operation with
  | field name => exact writes_field name
  | traverseField name => exact writes_fieldAs (fun _ => "field") (fun _ _ _ => rfl) name
  | fieldPath names => exact writes_fieldPath names
  | array name =>
      exact writes_call (.array (recorder.style.wrap name))
        ["." ++ "array" ++ "(" ++ quoteOnly (recorder.style.wrap name) ++ ")"] recorder.checkedKey
        fun _ _ => rfl
  | arrayField => exact writes_call .arrayField _ _ fun _ _ => rfl
  | arrayFieldNamed name =>
      exact ⟨["." ++ "array" ++ "(" ++ quoteOnly (recorder.style.wrap name) ++ ")"],
        [.field (recorder.style.wrap name), .arrayField], recorder.checkedKey, fun _ _ => rfl⟩
  | anonymousArray => exact writes_call .anonymousArray _ _ fun _ _ => rfl
  | elementWithIndex index => exact writes_call (.elementWithIndex index) _ _ fun _ _ => rfl
  | stay => exact writes_nothing
  | contains value => exact writes_contains value
  | isEqualTo value => exact writes_isEqualTo value
  | isNull => exact writes_isNull
  | isEmpty => exact writes_check .isEmpty ⟨_, fun _ _ _ => rfl⟩
  | matching pattern => exact writes_matching pattern
  | isInstanceOf className => exact writes_check (.isInstanceOf className) ⟨_, fun _ _ _ => rfl⟩
  | hasSize size => exact writes_check (.hasSize size) ⟨_, fun _ _ _ => rfl⟩
  | isPresent =>
      refine writes_check .isPresent ⟨[], fun document isStrict delegate => ?_⟩
      rw [grown, List.append_nil]
      rfl

theorem writes_recordAll (operations : List Operation) (recorder : Recorder) :
    recorder.Writes (Operation.recordAll operations) := by
  induction operations generalizing recorder with
  | nil => exact writes_nothing
  | cons operation rest inductionHypothesis =>
      exact (writes_record operation recorder).andThen inductionHypothesis

/-- Without checks a record of all operations is made.  Replaying it on a
document fails with the error with which the operations themselves fail there,
or it ends at the same place, and then the same has been written down. -/
theorem replay_recordAll (operations : List Operation) (style : NameStyle)
    (expected document : Json) :
    ∃ recorded, Operation.recordAll operations
        (ofAsserter (Asserter.ofDocument expected).lenient style) = .ok recorded ∧
      ((recorded.replay (.ofDocument document)).map fun asserter =>
          (asserter, recorded.calls, recorded.methods)) =
        (Operation.recordAll operations (ofAsserter (.ofDocument document) style)).map
          fun direct => (direct.delegate, direct.calls, direct.methods) := by
  obtain ⟨texts, calls, checkedKey, written⟩ :=
    writes_recordAll operations (ofAsserter (.ofDocument document) style)
  obtain ⟨next, lenient, -⟩ :=
    Call.exists_applyAll_movesTo calls (Asserter.ofDocument document)
  have onExpected : Operation.recordAll operations
      (ofAsserter (Asserter.ofDocument expected).lenient style) = .ok _ :=
    (written expected false).trans (congrArg _ (lenient expected))
  have onDocument : Operation.recordAll operations (ofAsserter (.ofDocument document) style) =
      (Call.applyAll calls (.ofDocument document)).map _ :=
    written document true
  refine ⟨_, onExpected, ?_⟩
  rw [onDocument]
  change Except.map _ (Call.applyAll calls (.ofDocument document)) = _
  cases Call.applyAll calls (.ofDocument document) with
  | error failure => rfl
  | ok reached => rfl

end Recorder

end BodyContract
