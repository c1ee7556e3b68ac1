import BodyContract.Proofs.Outcome
import BodyContract.Proofs.Recording.Quoting
import BodyContract.Recording.Operation

/-!
# Records are read as chains of calls

The text of a record is read from the front as the calls that were written down,
and their literals give back the texts that were handed to the assertion.  This
holds of the values of checks and of patterns, whatever they are.  Of a name and
of a text that is looked for only the quotes are escaped, so it holds where these
have neither a backslash nor the end of a line.
-/

namespace BodyContract

/-! ## Entries of a record -/

/-- The texts that a call hands to an assertion. -/
def Call.texts : Call → List String
  | .contains value => value.texts
  | .field name => [name]
  | .array name => [name]
  | .isEqualTo value => value.texts
  | .matching pattern => [pattern]
  | .isInstanceOf className => [className]
  | _ => []

/-- What an operation makes and writes down: calls on an assertion, and the calls that
are read from the text. -/
structure Entry where
  calls : List Call
  written : List Java.SourceCall

/-- Whether the literals of a written call, if it has any, give back the texts that are
handed to the assertion. -/
def Entry.GivesBack (entry : Entry) : Prop :=
  ∀ call ∈ entry.written,
    call.literals = [] ∨ call.literals = (entry.calls.flatMap Call.texts).map utf16

namespace Recorder

/-- Whether one record is another one with further entries. -/
def Grows (recorder next : Recorder) : Prop :=
  next.style = recorder.style ∧ ∃ (entries : List Entry) (texts : List String),
    next.calls = recorder.calls ++ entries.flatMap Entry.calls ∧
      next.methods = recorder.methods ++ texts ∧
        Java.IsChain (String.join texts) (entries.flatMap Entry.written) ∧
          ∀ entry ∈ entries, entry.GivesBack

theorem grows_refl (recorder : Recorder) : recorder.Grows recorder := by
  refine ⟨rfl, [], [], ?_, ?_, Java.isChain_empty, ?_⟩
  · rw [List.flatMap_nil, List.append_nil]
  · rw [List.append_nil]
  · intro entry member
    cases member

theorem Grows.trans {recorder middle next : Recorder} (grows : recorder.Grows middle)
    (later : middle.Grows next) : recorder.Grows next := by
  obtain ⟨sameStyle, entries, texts, calls, methods, isChain, givesBack⟩ := grows
  obtain ⟨styleToo, more, moreTexts, moreCalls, moreMethods, moreChain, givesMore⟩ := later
  refine ⟨styleToo.trans sameStyle, entries ++ more, texts ++ moreTexts, ?_, ?_, ?_, ?_⟩
  · rw [moreCalls, calls, List.flatMap_append, List.append_assoc]
  · rw [moreMethods, methods, List.append_assoc]
  · rw [String.join_append, List.flatMap_append]
    exact isChain.append moreChain
  · intro entry member
    rcases List.mem_append.mp member with first | second
    · exact givesBack entry first
    · exact givesMore entry second

/-- A record grows by one entry. -/
theorem grows_of_entry {recorder next : Recorder} (calls : List Call) (texts : List String)
    (written : List Java.SourceCall) (isChain : Java.IsChain (String.join texts) written)
    (givesBack : Entry.GivesBack ⟨calls, written⟩) (sameStyle : next.style = recorder.style)
    (sameCalls : next.calls = recorder.calls ++ calls)
    (sameMethods : next.methods = recorder.methods ++ texts) : recorder.Grows next := by
  refine ⟨sameStyle, [⟨calls, written⟩], texts, ?_, sameMethods, ?_, ?_⟩
  · rw [List.flatMap_singleton, sameCalls]
  · rw [List.flatMap_singleton]
    exact isChain
  · intro entry member
    rw [List.mem_singleton.mp member]
    exact givesBack

/-! ## Operations -/

/-- A call with one argument, written with or without a call for the value behind it. -/
theorem grows_of_argument {recorder next : Recorder} (calls : List Call) (name : String)
    {argument : String} (isName : name.toList.all Char.isAlpha = true) (filled : name ≠ "")
    {literals : List (List Nat)} (fills : Java.FillsArgument argument.toList literals)
    (handed : literals = [] ∨ literals = (calls.flatMap Call.texts).map utf16)
    {behind : List String} (asksForValue : behind = [] ∨ behind = [".value()"])
    (sameStyle : next.style = recorder.style) (sameCalls : next.calls = recorder.calls ++ calls)
    (sameMethods : next.methods =
      recorder.methods ++ ("." ++ name ++ "(" ++ argument ++ ")") :: behind) :
    recorder.Grows next := by
  have isCall := Java.isChain_call isName filled fills
  rcases asksForValue with rfl | rfl
  · refine grows_of_entry calls _ [⟨name, literals⟩] ?_ ?_ sameStyle sameCalls sameMethods
    · rw [String.join_cons, String.join_nil, String.append_empty]
      exact isCall
    · intro call member
      rw [List.mem_singleton.mp member]
      exact handed
  · have noArgument : Java.FillsArgument "".toList [] := Java.fillsArgument_nil
    have isValue : Java.IsChain ("." ++ "value" ++ "(" ++ "" ++ ")") [⟨"value", []⟩] :=
      Java.isChain_call rfl (by decide) noArgument
    refine grows_of_entry calls _ [⟨name, literals⟩, ⟨"value", []⟩] ?_ ?_ sameStyle sameCalls
      sameMethods
    · rw [String.join_cons, String.join_cons, String.join_nil, String.append_empty]
      exact isCall.append isValue
    · intro call member
      rcases List.mem_cons.mp member with rfl | isLast
      · exact handed
      · rw [List.mem_singleton.mp isLast]
        exact Or.inl rfl

variable {recorder next : Recorder}

theorem grows_fieldAs {callName name : String} (isName : callName.toList.all Char.isAlpha = true)
    (filled : callName ≠ "") (quotable : Java.isQuotable (recorder.style.wrap name) = true) :
    recorder.Grows (recorder.fieldAs callName name) :=
  grows_of_argument [.field (recorder.style.wrap name)] callName isName filled
    (Java.fillsArgument_quoteOnly quotable) (Or.inr rfl) (Or.inl rfl) rfl rfl rfl

theorem grows_field {name : String}
    (quotable : Java.isQuotable (recorder.style.wrap name) = true) :
    recorder.Grows (recorder.field name) := by
  rw [field]
  split
  · exact grows_fieldAs rfl (by decide) quotable
  · exact grows_fieldAs rfl (by decide) quotable

theorem grows_fieldPath {names : List String}
    (quotable : ∀ name ∈ names, Java.isQuotable (recorder.style.wrap name) = true) :
    recorder.Grows (recorder.fieldPath names) := by
  induction names generalizing recorder with
  | nil => exact grows_refl recorder
  | cons name rest inductionHypothesis =>
      refine (grows_field (quotable name List.mem_cons_self)).trans (inductionHypothesis ?_)
      have sameStyle : (recorder.field name).style = recorder.style := rfl
      intro other member
      rw [sameStyle]
      exact quotable other (List.mem_cons_of_mem name member)

/-- A call without an argument. -/
theorem grows_of_word (calls : List Call) (name : String)
    (isName : name.toList.all Char.isAlpha = true) (filled : name ≠ "")
    (sameStyle : next.style = recorder.style) (sameCalls : next.calls = recorder.calls ++ calls)
    (sameMethods : next.methods = recorder.methods ++ ["." ++ name ++ "(" ++ "" ++ ")"]) :
    recorder.Grows next := by
  have noArgument : Java.FillsArgument "".toList [] := Java.fillsArgument_nil
  exact grows_of_argument calls name isName filled noArgument (Or.inl rfl) (Or.inl rfl) sameStyle
    sameCalls sameMethods

theorem fillsArgument_quotedLabel {value : Json}
    (quotable : ∀ text, value = .string text → Java.isQuotable text = true) :
    Java.FillsArgument value.quotedLabel.toList (value.texts.map utf16) := by
  cases value with
  | string text => exact Java.fillsArgument_quoteOnly (quotable text rfl)
  | _ =>
      rw [Json.quotedLabel, Json.render, String.toList_ofList]
      · exact Java.fillsArgument_chars _
      · intro text same
        cases same

theorem grows_contains {value : Json}
    (quotable : ∀ text, value = .string text → Java.isQuotable text = true)
    (recorded : recorder.contains value = .ok next) : recorder.Grows next := by
  have fills := fillsArgument_quotedLabel quotable
  rw [contains] at recorded
  split at recorded
  · obtain ⟨checked, -, whole⟩ := bind_eq_ok_iff.mp recorded
    cases whole
    have handed : [Call.contains value, .isPresent].flatMap Call.texts = value.texts := by
      simp [Call.texts]
    refine grows_of_argument [.contains value, .isPresent] "contains" rfl
      (by decide) fills (Or.inr ?_) (Or.inr rfl) rfl rfl (List.append_assoc _ _ _)
    rw [handed]
  · cases recorded
    have handed : [Call.contains value].flatMap Call.texts = value.texts := by
      simp [Call.texts]
    refine grows_of_argument [.contains value] "contains" rfl (by decide)
      fills (Or.inr ?_) (Or.inl rfl) rfl rfl rfl
    rw [handed]

theorem grows_value {calls : List Call} (delegate : Asserter) :
    recorder.Grows ((recorder.finish delegate calls).record ".value()") :=
  grows_of_word _ "value" rfl (by decide) rfl rfl rfl

theorem grows_isEqualToText {text : String} (recorded : recorder.isEqualToText text = .ok next) :
    recorder.Grows next := by
  have equality : ∀ delegate, recorder.Grows
      ((recorder.finish delegate [.isEqualTo (.string text)]).recordWith "isEqualTo"
        (javaString text)) := fun delegate =>
    grows_of_argument _ "isEqualTo" rfl (by decide)
      (Java.fillsArgument_javaString text) (Or.inr rfl) (Or.inl rfl) rfl rfl rfl
  rw [isEqualToText] at recorded
  obtain ⟨delegate, -, whole⟩ := bind_eq_ok_iff.mp recorded
  dsimp only at whole
  split at whole
  · split at whole
    · cases whole
      exact grows_of_argument [.isEqualTo (.string text)] "isEqualTo" rfl
        (by decide) (Java.fillsArgument_javaString text) (Or.inr rfl) (Or.inr rfl) rfl rfl
        (List.append_assoc _ _ _)
    · split at whole
      · cases whole
        exact equality delegate
      · cases whole
        exact grows_value delegate
    · cases whole
      exact equality delegate
  · cases whole
    exact equality delegate

theorem grows_isEqualToNumber {number : Number}
    (recorded : recorder.isEqualToNumber number = .ok next) : recorder.Grows next := by
  have equality : ∀ delegate, recorder.Grows
      ((recorder.finish delegate [.isEqualTo (.number number)]).recordWith "isEqualTo"
        number.javaLiteral) := fun delegate =>
    grows_of_argument _ "isEqualTo" rfl (by decide)
      (Java.fillsArgument_javaLiteral number) (Or.inl rfl) (Or.inl rfl) rfl rfl rfl
  rw [isEqualToNumber] at recorded
  obtain ⟨delegate, -, whole⟩ := bind_eq_ok_iff.mp recorded
  dsimp only at whole
  split at whole
  · split at whole
    · cases whole
      exact grows_value delegate
    · cases whole
      exact equality delegate
  · split at whole
    · cases whole
      exact grows_value delegate
    · cases whole
      exact equality delegate

theorem grows_isEqualToBool {flag : Bool} (recorded : recorder.isEqualToBool flag = .ok next) :
    recorder.Grows next := by
  have fills : Java.FillsArgument (if flag then "true" else "false").toList [] := by
    cases flag with
    | true => exact Java.fillsArgument_plain rfl
    | false => exact Java.fillsArgument_plain rfl
  rw [isEqualToBool] at recorded
  obtain ⟨delegate, -, whole⟩ := bind_eq_ok_iff.mp recorded
  dsimp only at whole
  split at whole
  · cases whole
    exact grows_value delegate
  · cases whole
    exact grows_of_argument _ "isEqualTo" rfl (by decide) fills (Or.inl rfl)
      (Or.inl rfl) rfl rfl rfl

theorem grows_isNull (recorded : recorder.isNull = .ok next) : recorder.Grows next := by
  obtain ⟨delegate, -, whole⟩ := bind_eq_ok_iff.mp recorded
  cases whole
  exact grows_of_word _ "isNull" rfl (by decide) rfl rfl rfl

theorem grows_isEqualTo {value : Json} (recorded : recorder.isEqualTo value = .ok next) :
    recorder.Grows next := by
  cases value with
  | null => exact grows_isNull recorded
  | bool flag => exact grows_isEqualToBool recorded
  | number amount => exact grows_isEqualToNumber recorded
  | string text => exact grows_isEqualToText recorded
  | array elements => exact grows_isEqualToText recorded
  | object members => exact grows_isEqualToText recorded

theorem grows_matching {pattern : String} (recorded : recorder.matching pattern = .ok next) :
    recorder.Grows next := by
  rw [matching] at recorded
  obtain ⟨delegate, -, whole⟩ := bind_eq_ok_iff.mp recorded
  dsimp only at whole
  split at whole
  · cases whole
    exact grows_of_argument [.matching pattern] "matches" rfl (by decide)
      (Java.fillsArgument_javaString pattern) (Or.inr rfl) (Or.inr rfl) rfl rfl
      (List.append_assoc _ _ _)
  · cases whole
    exact grows_of_argument _ "matches" rfl (by decide)
      (Java.fillsArgument_javaString pattern) (Or.inr rfl) (Or.inl rfl) rfl rfl rfl

theorem grows_isPresent (recorded : recorder.isPresent = .ok next) : recorder.Grows next := by
  obtain ⟨delegate, -, whole⟩ := bind_eq_ok_iff.mp recorded
  cases whole
  refine grows_of_entry [.isPresent] [] [] Java.isChain_empty
    ?_ rfl rfl (List.append_nil _).symm
  intro call member
  cases member

end Recorder

namespace Operation

/-- Whether the literals of an operation give back what is handed over: a name and a
text that is looked for can be quoted, and the name of a class is not written. -/
def isQuotable (style : NameStyle) : Operation → Bool
  | .field name => Java.isQuotable (style.wrap name)
  | .traverseField name => Java.isQuotable (style.wrap name)
  | .fieldPath names => names.all fun name => Java.isQuotable (style.wrap name)
  | .array name => Java.isQuotable (style.wrap name)
  | .arrayFieldNamed name => Java.isQuotable (style.wrap name)
  | .contains (.string text) => Java.isQuotable text
  | .isInstanceOf _ => false
  | _ => true

variable {recorder next : Recorder}

/-- An operation adds entries to a record. -/
theorem grows_record {operation : Operation}
    (quotable : operation.isQuotable recorder.style = true)
    (recorded : operation.record recorder = .ok next) : recorder.Grows next := by
  cases operation with
  | field name =>
      cases recorded
      exact Recorder.grows_field quotable
  | traverseField name =>
      cases recorded
      exact Recorder.grows_fieldAs rfl (by decide) quotable
  | fieldPath names =>
      cases recorded
      exact Recorder.grows_fieldPath (List.all_eq_true.mp quotable)
  | array name =>
      cases recorded
      exact Recorder.grows_of_argument [.array (recorder.style.wrap name)] "array" rfl (by decide)
        (Java.fillsArgument_quoteOnly quotable) (Or.inr rfl) (Or.inl rfl) rfl rfl rfl
  | arrayField =>
      cases recorded
      exact Recorder.grows_of_word _ "arrayField" rfl (by decide) rfl rfl rfl
  | arrayFieldNamed name =>
      cases recorded
      exact Recorder.grows_of_argument [.field (recorder.style.wrap name), .arrayField] "array" rfl
        (by decide) (Java.fillsArgument_quoteOnly quotable) (Or.inr rfl) (Or.inl rfl) rfl rfl rfl
  | anonymousArray =>
      cases recorded
      exact Recorder.grows_of_word _ "array" rfl (by decide) rfl rfl rfl
  | elementWithIndex index =>
      cases recorded
      exact Recorder.grows_of_argument [.elementWithIndex index] "elementWithIndex" rfl (by decide)
        (Java.fillsArgument_toString index) (Or.inl rfl) (Or.inl rfl) rfl rfl rfl
  | stay =>
      cases recorded
      exact Recorder.grows_refl recorder
  | contains value =>
      refine Recorder.grows_contains ?_ recorded
      rintro text rfl
      exact quotable
  | isEqualTo value => exact Recorder.grows_isEqualTo recorded
  | isNull => exact Recorder.grows_isNull recorded
  | isEmpty =>
      obtain ⟨delegate, -, whole⟩ := bind_eq_ok_iff.mp recorded
      cases whole
      exact Recorder.grows_of_word _ "isEmpty" rfl (by decide) rfl rfl rfl
  | matching pattern => exact Recorder.grows_matching recorded
  | isInstanceOf className => cases quotable
  | hasSize size =>
      obtain ⟨delegate, -, whole⟩ := bind_eq_ok_iff.mp recorded
      cases whole
      exact Recorder.grows_of_argument [.hasSize size] "hasSize" rfl
        (by decide) (Java.fillsArgument_toString size) (Or.inl rfl) (Or.inl rfl) rfl rfl rfl
  | isPresent => exact Recorder.grows_isPresent recorded

/-- Operations one after another add entries to a record. -/
theorem grows_recordAll {operations : List Operation}
    (quotable : ∀ operation ∈ operations, operation.isQuotable recorder.style = true)
    (recorded : recordAll operations recorder = .ok next) : recorder.Grows next := by
  induction operations generalizing recorder with
  | nil =>
      cases recorded
      exact Recorder.grows_refl next
  | cons operation rest inductionHypothesis =>
      rw [recordAll] at recorded
      obtain ⟨middle, first, later⟩ := bind_eq_ok_iff.mp recorded
      have grows := grows_record (quotable operation List.mem_cons_self) first
      refine grows.trans (inductionHypothesis ?_ later)
      intro other member
      rw [grows.1]
      exact quotable other (List.mem_cons_of_mem operation member)

/-- The text of a record is a chain of calls.  Each entry of the record made some calls
on the assertion and wrote some calls, whose literals are closed and give back the
texts that were handed to the assertion. -/
theorem recordAll_readsBack {operations : List Operation} {asserter : Asserter}
    {style : NameStyle} {recorder : Recorder}
    (quotable : ∀ operation ∈ operations, operation.isQuotable style = true)
    (recorded : recordAll operations (.ofAsserter asserter style) = .ok recorder) :
    ∃ entries : List Entry, recorder.calls = entries.flatMap Entry.calls ∧
      Java.readCalls? recorder.method = some (entries.flatMap Entry.written) ∧
        ∀ entry ∈ entries, entry.GivesBack := by
  have grows : (Recorder.ofAsserter asserter style).Grows recorder :=
    grows_recordAll quotable recorded
  obtain ⟨-, entries, texts, calls, methods, isChain, givesBack⟩ := grows
  refine ⟨entries, calls, ?_, givesBack⟩
  have same : recorder.methods = texts := methods
  rw [Recorder.method, same]
  exact isChain.readCalls?_eq

/-! ### A name with quotes and a value with backslashes -/

/-- Goes to a member whose name has quotes, and compares it with a text that has
backslashes. -/
def throughQuotes : List Operation :=
  [.field "say \"hi\"", .isEqualTo (.string "c:\\dir\\")]

theorem throughQuotes_readsBack :
    (∀ operation ∈ throughQuotes, operation.isQuotable .bracketed = true) ∧
      ∃ recorder, recordAll throughQuotes
          (.ofAsserter (Asserter.ofDocument (.object [])).lenient .bracketed) = .ok recorder ∧
        ∃ entries : List Entry, recorder.calls = entries.flatMap Entry.calls ∧
          Java.readCalls? recorder.method = some (entries.flatMap Entry.written) ∧
            ∀ entry ∈ entries, entry.GivesBack :=
  have quotable : ∀ operation ∈ throughQuotes, operation.isQuotable .bracketed = true := by
    decide +kernel
  have recorded : recordAll throughQuotes
      (.ofAsserter (Asserter.ofDocument (.object [])).lenient .bracketed) = .ok _ := rfl
  ⟨quotable, _, recorded, recordAll_readsBack quotable recorded⟩

/-! ### Names with backslashes -/

/-- The literal of a name that ends with a backslash is not closed, a backslash and a
letter in a name are read as an escape, and so is a quote in a bracketed name. -/
theorem backslash_not_readBack :
    (recordAll [.field "a\\"] (.ofAsserter (Asserter.ofDocument (.object [])).lenient .plain)).map
        (fun recorder => Java.readCalls? recorder.method) = .ok none ∧
      (recordAll [.field "a\\tb"]
          (.ofAsserter (Asserter.ofDocument (.object [])).lenient .plain)).map
        (fun recorder => (recorder.calls, Java.readCalls? recorder.method)) =
          .ok ([.field "a\\tb"], some [⟨"field", [utf16 "a\tb"]⟩]) ∧
      (recordAll [.field "it's"]
          (.ofAsserter (Asserter.ofDocument (.object [])).lenient .bracketed)).map
        (fun recorder => (recorder.calls, Java.readCalls? recorder.method)) =
          .ok ([.field "['it\\'s']"], some [⟨"field", [utf16 "['it's']"]⟩]) := by
  refine ⟨?_, ?_, ?_⟩
  · rfl
  · rfl
  · rfl

end Operation

end BodyContract
