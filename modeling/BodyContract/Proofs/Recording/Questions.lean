import BodyContract.Proofs.Outcome
import BodyContract.Proofs.Recording.Literals
import BodyContract.Proofs.Text.Search
import BodyContract.Recording.Operation

/-!
# Questions about a record

What a record asserts is looked for in the texts of its calls.  A text is a call by its
own name, and the names and texts in its argument may hold what is looked for as well:
a name that reads like a check of a size counts as one.  A call is taken for the step
to a member only if it stands on one line, so a step to a member whose name has the end
of a line is missed.
-/

namespace BodyContract

/-! ## What is asked for -/

/-- What follows the point in front of a check of a size. -/
def sizeCheckWords : List (List Char) := ["hasSize(".toList, "isEmpty()".toList]

/-- Whether a check of a size is found in a text. -/
def mentionsSizeCheck (text : String) : Bool :=
  containsText text ".hasSize(" || containsText text ".isEmpty()"

/-- Whether a text is taken for the step to a member. -/
def looksConcrete (text : String) : Bool :=
  Recorder.isCallWithArgument "field" text || Recorder.isCallWithArgument "array" text

/-- Whether a call checks a size. -/
def Call.checksSize : Call → Bool
  | .hasSize _ => true
  | .isEmpty => true
  | _ => false

/-- The text that a value is compared by, if it is compared by one. -/
def Json.comparedText? : Json → Option String
  | .string text => some text
  | .array elements => some (Json.array elements).render
  | .object members => some (Json.object members).render
  | _ => none

/-- Whether a text that the present value is compared with is written: among the elements
of an array it is so only behind the call that leads to them. -/
def Recorder.writesText (recorder : Recorder) : Bool :=
  !recorder.delegate.isAssertingArrayValue ||
    recorder.lastRecord?.all fun last => containsText last "array"

/-- An operation and the record that it is made on. -/
structure RecordedStep where
  recorder : Recorder
  operation : Operation

namespace RecordedStep

/-- The names and texts that are written into the argument of a call. -/
def written (step : RecordedStep) : List String :=
  match step.operation with
  | .field name => [name]
  | .traverseField name => [name]
  | .array name => [name]
  | .arrayFieldNamed name => [name]
  | .contains value => [value.label]
  | .isEqualTo value => if step.recorder.writesText then value.comparedText?.toList else []
  | .matching pattern => [pattern]
  | .isInstanceOf className => [className]
  | _ => []

/-- The name of the member that a step goes to, where it is not looked for among the
elements of an array. -/
def member? (step : RecordedStep) : Option String :=
  match step.operation with
  | .field name => if step.recorder.delegate.isIterating then none else some name
  | .traverseField name => some name
  | .array name => some name
  | .arrayFieldNamed name => some name
  | _ => none

/-- Whether a step writes what is taken for a check of a size. -/
def mentionsSize (step : RecordedStep) : Bool := step.written.any mentionsSizeCheck

/-- Whether a step goes to a member whose name stands on one line. -/
def isConcrete (step : RecordedStep) : Bool :=
  step.member?.any fun name => !name.toList.contains '\n'

end RecordedStep

namespace Operation

/-- A path of names as its single steps. -/
def singles : Operation → List Operation
  | .fieldPath names => names.map .field
  | operation => [operation]

/-- The single steps of a run. -/
def stepsTaken : List Operation → Recorder → List RecordedStep
  | [], _ => []
  | operation :: rest, recorder =>
      ⟨recorder, operation⟩ ::
        match operation.record recorder with
        | .ok next => stepsTaken rest next
        | .error _ => []

end Operation

/-! ## Texts with a check of a size -/

theorem notMem_sizeCheckWords {others : List Char} (isWord : others ∈ sizeCheckWords) {c : Char}
    (special : c ∈ ['.', '"', '\'', '\\', ']', '\x7d']) : c ∉ others := by
  have each : ∀ others ∈ sizeCheckWords, ∀ c ∈ ['.', '"', '\'', '\\', ']', '\x7d'],
      c ∉ others := by simp [sizeCheckWords]
  exact each others isWord c special

theorem mentionsSizeCheck_iff {text : String} : mentionsSizeCheck text = true ↔
    ∃ others ∈ sizeCheckWords, '.' :: others <:+: text.toList := by
  rw [mentionsSizeCheck, Bool.or_eq_true, containsText_iff, containsText_iff]
  simp [sizeCheckWords]

/-- Texts in which the same checks are found. -/
theorem mentionsSizeCheck_congr {left right : String} (same : ∀ others ∈ sizeCheckWords,
    '.' :: others <:+: left.toList ↔ '.' :: others <:+: right.toList) :
    mentionsSizeCheck left = mentionsSizeCheck right := by
  rw [Bool.eq_iff_iff, mentionsSizeCheck_iff, mentionsSizeCheck_iff]
  exact exists_congr fun others => and_congr_right (same others)

theorem mentionsSizeCheck_of_notMem {text : String} (absent : '(' ∉ text.toList) :
    mentionsSizeCheck text = false := by
  rw [Bool.eq_false_iff, ne_eq, mentionsSizeCheck_iff]
  rintro ⟨others, isWord, found⟩
  have opens : ∀ others ∈ sizeCheckWords, '(' ∈ others := by decide +kernel
  exact absent (found.subset (List.mem_cons_of_mem '.' (opens others isWord)))

/-! ## Texts of calls -/

/-- A call as it is written. -/
def callText (name argument : String) : String := "." ++ name ++ "(" ++ argument ++ ")"

/-- The names of the calls that check no size. -/
def quietNames : List String :=
  ["field", "array", "arrayField", "elementWithIndex", "contains", "isEqualTo", "isNull", "matches",
    "isInstanceOf", "value"]

theorem notMem_quietNames {name : String} (quiet : name ∈ quietNames) {c : Char}
    (special : c ∈ ['.', '(']) : c ∉ name.toList := by
  have each : ∀ name ∈ quietNames, ∀ c ∈ ['.', '('], c ∉ name.toList := by
    simp [quietNames]
  exact each name quiet c special

theorem toList_callText (name argument : String) : (callText name argument).toList =
    '.' :: (name.toList ++ '(' :: (argument ++ ")").toList) := by
  simp [callText]

/-- In a call that checks no size a check can only be found in what is handed over. -/
theorem mentionsSizeCheck_callText {name : String} (quiet : name ∈ quietNames)
    (argument : String) :
    mentionsSizeCheck (callText name argument) = mentionsSizeCheck (argument ++ ")") := by
  apply mentionsSizeCheck_congr
  intro others isWord
  have noPoint := notMem_quietNames quiet (c := '.') (by decide)
  have noOpening := notMem_quietNames quiet (c := '(') (by decide)
  have otherName : ¬ others <+: name.toList ++ '(' :: (argument ++ ")").toList := by
    rintro ⟨behind, same⟩
    have split : ∀ others ∈ sizeCheckWords, ∃ word more, others = word ++ '(' :: more ∧
        '(' ∉ word ∧ String.ofList word ∉ quietNames := by
      simp only [sizeCheckWords, List.forall_mem_cons]
      refine ⟨⟨"hasSize".toList, [], rfl, by decide +kernel, by decide +kernel⟩,
        ⟨"isEmpty".toList, [')'], rfl, by decide +kernel, by decide +kernel⟩, ?_⟩
      intro _ member
      cases member
    obtain ⟨word, more, parts, noOpeningToo, notQuiet⟩ := split others isWord
    rw [parts, List.append_assoc, List.cons_append] at same
    have sameName := (append_cons_inj noOpeningToo noOpening same).1
    rw [sameName, String.ofList_toList] at notQuiet
    exact notQuiet quiet
  have absent : '.' ∉ name.toList ++ ['('] := by
    rw [List.mem_append, not_or]
    exact ⟨noPoint, by decide⟩
  rw [toList_callText, List.infix_cons_iff, List.cons_prefix_cons,
    ← List.singleton_append (x := '('), ← List.append_assoc, infix_append_iff_of_notMem absent,
    List.append_assoc, List.singleton_append]
  exact or_iff_right fun begins => otherName begins.2

theorem isCallWithArgument_callText {asked name : String} (askedPlain : '(' ∉ asked.toList)
    (plain : '(' ∉ name.toList) (argument : String) :
    Recorder.isCallWithArgument asked (callText name argument) =
      (asked == name && argument != "" && !argument.toList.contains '\n') := by
  have opening : ("." ++ asked ++ "(").toList = '.' :: (asked.toList ++ ['(']) := by simp
  have text : (callText name argument).toList =
      '.' :: (name.toList ++ '(' :: (argument.toList ++ [')'])) := by
    rw [toList_callText, String.toList_append]
    rfl
  rw [Recorder.isCallWithArgument, opening, text]
  by_cases same : asked = name
  · subst same
    have begins : ('.' :: (asked.toList ++ ['('])).isPrefixOf
        ('.' :: (asked.toList ++ '(' :: (argument.toList ++ [')']))) = true := by
      rw [List.isPrefixOf_iff_prefix]
      exact ⟨argument.toList ++ [')'], by simp⟩
    have inside : ('.' :: (asked.toList ++ '(' :: (argument.toList ++ [')']))).drop
        ('.' :: (asked.toList ++ ['('])).length = argument.toList ++ [')'] := by
      simp
    have filled : decide (2 ≤ (argument.toList ++ [')']).length) = (argument != "") := by
      rw [Bool.eq_iff_iff, decide_eq_true_eq, bne_iff_ne, ne_eq, ← String.toList_eq_nil_iff,
        ← List.length_eq_zero_iff, List.length_append, List.length_singleton]
      omega
    simp only [begins, inside, filled, List.getLast?_append, List.getLast?_singleton,
      beq_self_eq_true]
    simp
  · have apart : ('.' :: (asked.toList ++ ['('])).isPrefixOf
        ('.' :: (name.toList ++ '(' :: (argument.toList ++ [')']))) = false := by
      rw [Bool.eq_false_iff, ne_eq, List.isPrefixOf_iff_prefix, List.cons_prefix_cons]
      rintro ⟨-, behind, equal⟩
      rw [List.append_assoc, List.singleton_append] at equal
      exact same (String.toList_injective (append_cons_inj askedPlain plain equal).1)
    rw [apart, beq_eq_false_iff_ne.mpr same]
    simp only [Bool.false_and]

/-- A call is taken for the step to a member by its name, if it hands over something on
one line. -/
theorem looksConcrete_callText {name : String} (plain : '(' ∉ name.toList) (argument : String) :
    looksConcrete (callText name argument) = ((name == "field" || name == "array") &&
      argument != "" && !argument.toList.contains '\n') := by
  rw [looksConcrete, isCallWithArgument_callText (by simp) plain,
    isCallWithArgument_callText (by simp) plain, Bool.beq_comm (a := name),
    Bool.beq_comm (a := name)]
  cases ("field" == name) <;> cases ("array" == name) <;> simp

/-! ## What is handed over -/

section Arguments

variable {others : List Char} (isWord : others ∈ sizeCheckWords)

include isWord

theorem notMem_sizeCheck {c : Char} (special : c ∈ ['"', '\'', '\\', ']', '\x7d']) :
    c ∉ '.' :: others := by
  rw [List.mem_cons, not_or]
  refine ⟨?_, notMem_sizeCheckWords isWord (List.mem_cons_of_mem '.' special)⟩
  rintro rfl
  exact absurd special (by decide)

theorem leavesAlone_escapedFor {quote : Char} (isQuote : quote ∈ ['"', '\'']) :
    LeavesAlone (fun c => if c = quote then ['\\', c] else [c]) '.' others := by
  have noQuote : quote ∉ '.' :: others :=
    notMem_sizeCheck isWord (List.mem_append_left ['\\', ']', '\x7d'] isQuote)
  refine ⟨notMem_sizeCheck isWord (by decide), ?_, ?_⟩
  · intro c member
    refine if_neg ?_
    rintro rfl
    exact noQuote member
  · intro c
    by_cases same : c = quote
    · refine Or.inr ⟨[c], if_pos same, ?_⟩
      rw [List.mem_singleton, same]
      rintro rfl
      exact absurd isQuote (by decide)
    · exact Or.inl (if_neg same)

theorem leavesAlone_escapeJavaChar : LeavesAlone escapeJavaChar '.' others := by
  refine ⟨notMem_sizeCheck isWord (by decide), ?_, ?_⟩
  · have kept : ∀ others ∈ sizeCheckWords, ∀ c ∈ '.' :: others, escapeJavaChar c = [c] := by
      simp [sizeCheckWords, escapeJavaChar]
    exact kept others isWord
  · intro c
    rw [escapeJavaChar]
    repeat' split
    all_goals try exact Or.inr ⟨_, rfl, by decide⟩
    · -- no unit is written with a point
      have noPoint : '.' ∉ (utf16Units c).flatMap unitEscape := by
        intro member
        obtain ⟨unit, -, isIn⟩ := List.mem_flatMap.mp member
        exact notMem_unitEscape (by decide) (by decide) unit isIn
      cases units : utf16Units c with
      | nil => exact absurd units (by rw [utf16Units]; split <;> exact List.cons_ne_nil _ _)
      | cons unit rest =>
          rw [units] at noPoint
          exact Or.inr ⟨_, rfl, fun member => noPoint (List.mem_cons_of_mem _ member)⟩
    · exact Or.inl rfl

/-- A check is not found around the quotes of a text. -/
theorem infix_quoted_iff {quote : Char} (isQuote : quote ∈ ['"', '\'']) {front back : List Char}
    (noPoint : '.' ∉ front) (noPointBehind : '.' ∉ back) (inside : List Char) :
    '.' :: others <:+: front ++ quote :: (inside ++ quote :: back) ↔ '.' :: others <:+: inside := by
  have noQuote : quote ∉ '.' :: others :=
    notMem_sizeCheck isWord (List.mem_append_left ['\\', ']', '\x7d'] isQuote)
  have short : ∀ {text : List Char}, '.' ∉ text → ¬ '.' :: others <:+: text :=
    fun absent found => absent (found.subset List.mem_cons_self)
  rw [infix_append_separator_iff noQuote, infix_append_separator_iff noQuote,
    or_iff_right (short noPoint), or_iff_left (short noPointBehind)]

end Arguments

theorem mentionsSizeCheck_quoteOnly (text : String) :
    mentionsSizeCheck (quoteOnly text ++ ")") = mentionsSizeCheck text := by
  apply mentionsSizeCheck_congr
  intro others isWord
  have chars : (quoteOnly text ++ ")").toList =
      [] ++ '"' :: (escapedFor '"' text.toList ++ '"' :: [')']) := by
    rw [String.toList_append, toList_quoteOnly]
    simp
  rw [chars, infix_quoted_iff isWord (by decide) (by decide) (by decide)]
  exact infix_flatMap_iff (leavesAlone_escapedFor isWord (by decide)) text.toList

theorem mentionsSizeCheck_javaString (text : String) :
    mentionsSizeCheck (javaString text ++ ")") = mentionsSizeCheck text := by
  apply mentionsSizeCheck_congr
  intro others isWord
  have chars : (javaString text ++ ")").toList =
      [] ++ '"' :: (text.toList.flatMap escapeJavaChar ++ '"' :: [')']) := by
    simp [javaString, escapeJava]
  rw [chars, infix_quoted_iff isWord (by decide) (by decide) (by decide)]
  exact infix_flatMap_iff (leavesAlone_escapeJavaChar isWord) text.toList

theorem mentionsSizeCheck_wrap (style : NameStyle) (name : String) :
    mentionsSizeCheck (style.wrap name) = mentionsSizeCheck name := by
  cases style with
  | plain => rfl
  | bracketed =>
      cases whole : isWholeNumber name with
      | true => rw [Path.wrap_of_whole whole]
      | false =>
          apply mentionsSizeCheck_congr
          intro others isWord
          have chars : (NameStyle.bracketed.wrap name).toList =
              ['['] ++ '\'' :: (escapedFor '\'' name.toList ++ '\'' :: [']']) :=
            Path.toList_wrap_of_not_whole whole
          rw [chars, infix_quoted_iff isWord (by decide) (by decide) (by decide)]
          exact infix_flatMap_iff (leavesAlone_escapedFor isWord (by decide)) name.toList

theorem mentionsSizeCheck_className (className : String) :
    mentionsSizeCheck (className ++ ".class" ++ ")") = mentionsSizeCheck className := by
  apply mentionsSizeCheck_congr
  intro others isWord
  have chars : (className ++ ".class" ++ ")").toList =
      className.toList ++ '.' :: "class)".toList := by
    simp
  have otherName : ¬ '.' :: others <:+: '.' :: "class)".toList := by
    have each : ∀ others ∈ sizeCheckWords, ¬ '.' :: others <:+: '.' :: "class)".toList := by
      simp [sizeCheckWords, List.infix_cons_iff]
    exact each others isWord
  rw [chars, infix_append_cons_iff (notMem_sizeCheckWords isWord (by decide)),
    or_iff_left otherName]

theorem mentionsSizeCheck_container {value : Json} (inside : List Char) {closing : Char}
    (ends : closing ∈ [']', '\x7d']) (chars : value.chars = inside ++ [closing]) :
    mentionsSizeCheck (value.render ++ ")") = mentionsSizeCheck value.render := by
  apply mentionsSizeCheck_congr
  intro others isWord
  have noClosing : closing ∉ '.' :: others :=
    notMem_sizeCheck isWord (List.mem_append_right ['"', '\'', '\\'] ends)
  have behind : '.' :: others <:+: [')'] ↔ '.' :: others <:+: [] := by
    rw [List.infix_cons_iff, List.cons_prefix_cons]
    simp
  rw [String.toList_append, Json.render, String.toList_ofList, chars, List.append_assoc,
    List.singleton_append, infix_append_separator_iff noClosing,
    infix_append_separator_iff noClosing]
  exact or_congr_right behind

/-- A number has no call. -/
theorem mentionsSizeCheck_number (argument : String)
    (each : ∀ c ∈ argument.toList, Path.isNumberChar c = true ∨ c = 'L') :
    mentionsSizeCheck (argument ++ ")") = false := by
  apply mentionsSizeCheck_of_notMem
  rw [String.toList_append, List.mem_append, not_or]
  refine ⟨fun member => ?_, by simp⟩
  rcases each '(' member with isPart | isMark
  · exact absurd isPart (by decide)
  · exact absurd isMark (by decide)

theorem mentionsSizeCheck_quotedLabel (value : Json) :
    mentionsSizeCheck (value.quotedLabel ++ ")") = mentionsSizeCheck value.label := by
  cases value with
  | string text => exact mentionsSizeCheck_quoteOnly text
  | array elements =>
      exact mentionsSizeCheck_container ('[' :: Json.charsOfElements elements) (by decide) rfl
  | object members =>
      exact mentionsSizeCheck_container ('\x7b' :: Json.charsOfMembers members) (by decide) rfl
  | null => rfl
  | bool flag => cases flag <;> rfl
  | number amount =>
      have each : ∀ c ∈ (Json.number amount).render.toList,
          Path.isNumberChar c = true := by
        intro c member
        rw [Json.render, String.toList_ofList] at member
        exact Number.isNumberChar_of_mem_text member
      have noOpening : '(' ∉ (Json.number amount).render.toList :=
        fun member => absurd (each _ member) (by decide)
      have label := mentionsSizeCheck_of_notMem noOpening
      exact (mentionsSizeCheck_number _ fun c member => Or.inl (each c member)).trans label.symm

/-! ### Ends of lines -/

theorem contains_quoteOnly (text : String) :
    (quoteOnly text).toList.contains '\n' = text.toList.contains '\n' := by
  rw [toList_quoteOnly, Bool.eq_iff_iff, List.contains_iff_mem, List.contains_iff_mem,
    List.mem_cons, List.mem_append, mem_escapedFor_iff (by decide)]
  simp

theorem contains_wrap (style : NameStyle) (name : String) :
    (style.wrap name).toList.contains '\n' = name.toList.contains '\n' := by
  cases style with
  | plain => rfl
  | bracketed =>
      cases whole : isWholeNumber name with
      | true => rw [Path.wrap_of_whole whole]
      | false =>
          rw [Path.toList_wrap_of_not_whole whole, Bool.eq_iff_iff, List.contains_iff_mem,
            List.contains_iff_mem, List.mem_cons, List.mem_cons, List.mem_append,
            mem_escapedFor_iff (by decide)]
          simp

/-! ## What a step reveals -/

namespace Recorder

/-- Whether a record is another one with further calls, of which only those that check
a size and what is told here make it answer a question with yes. -/
def Reveals (recorder next : Recorder) (mentions concrete : Bool) : Prop :=
  ∃ (calls : List Call) (texts : List String), next.calls = recorder.calls ++ calls ∧
    next.methods = recorder.methods ++ texts ∧
      texts.any mentionsSizeCheck = (calls.any Call.checksSize || mentions) ∧
        texts.any looksConcrete = concrete

variable {recorder next : Recorder}

theorem reveals_refl (recorder : Recorder) : recorder.Reveals recorder false false :=
  ⟨[], [], (List.append_nil _).symm, (List.append_nil _).symm, rfl, rfl⟩

theorem Reveals.trans {last : Recorder} {mentions concrete mentionsToo concreteToo : Bool}
    (reveals : recorder.Reveals next mentions concrete)
    (later : next.Reveals last mentionsToo concreteToo) :
    recorder.Reveals last (mentions || mentionsToo) (concrete || concreteToo) := by
  obtain ⟨calls, texts, sameCalls, sameTexts, sizes, members⟩ := reveals
  obtain ⟨more, moreTexts, moreCalls, moreMethods, moreSizes, moreMembers⟩ := later
  refine ⟨calls ++ more, texts ++ moreTexts, ?_, ?_, ?_, ?_⟩
  · rw [moreCalls, sameCalls, List.append_assoc]
  · rw [moreMethods, sameTexts, List.append_assoc]
  · rw [List.any_append, List.any_append, sizes, moreSizes]
    ac_rfl
  · rw [List.any_append, members, moreMembers]

/-- What is written behind a check of the elements of an array. -/
def valueTexts : List (List String) := [[], [callText "value" ""]]

/-- A call that checks no size, with or without a call for the value behind it. -/
theorem reveals_call {name : String} (quiet : name ∈ quietNames) (argument : String)
    {behind : List String} (asksForValue : behind ∈ valueTexts) {calls : List Call}
    (noSize : calls.any Call.checksSize = false) (sameCalls : next.calls = recorder.calls ++ calls)
    (sameMethods : next.methods = recorder.methods ++ callText name argument :: behind) :
    recorder.Reveals next (mentionsSizeCheck (argument ++ ")"))
      ((name == "field" || name == "array") && argument != "" &&
        !argument.toList.contains '\n') := by
  have noOpening := notMem_quietNames quiet (c := '(') (by decide)
  have silent : behind.any mentionsSizeCheck = false ∧ behind.any looksConcrete = false := by
    have each : ∀ behind ∈ valueTexts,
        behind.any mentionsSizeCheck = false ∧ behind.any looksConcrete = false := by
      decide +kernel
    exact each behind asksForValue
  refine ⟨calls, _, sameCalls, sameMethods, ?_, ?_⟩
  · rw [List.any_cons, silent.1, noSize, Bool.or_false, Bool.false_or,
      mentionsSizeCheck_callText quiet]
  · rw [List.any_cons, silent.2, Bool.or_false, looksConcrete_callText noOpening]

/-- A call that hands over a name. -/
theorem reveals_name {callName : String} (quiet : callName ∈ quietNames) (name : String)
    {calls : List Call} (noSize : calls.any Call.checksSize = false)
    (sameCalls : next.calls = recorder.calls ++ calls) (sameMethods : next.methods =
      recorder.methods ++ [callText callName (quoteOnly (recorder.style.wrap name))]) :
    recorder.Reveals next (mentionsSizeCheck name)
      ((callName == "field" || callName == "array") && !name.toList.contains '\n') := by
  have reveals := reveals_call quiet _ (by decide) noSize sameCalls sameMethods
  rw [mentionsSizeCheck_quoteOnly, mentionsSizeCheck_wrap, contains_quoteOnly, contains_wrap,
    bne_iff_ne.mpr (quoteOnly_ne_empty _), Bool.and_true] at reveals
  exact reveals

/-- A call that hands over a text to a check. -/
theorem reveals_check {name : String} (quiet : name ∈ quietNames) (argument : String)
    (noMember : (name == "field" || name == "array") = false)
    {behind : List String} (asksForValue : behind ∈ valueTexts) {calls : List Call}
    (noSize : calls.any Call.checksSize = false) (sameCalls : next.calls = recorder.calls ++ calls)
    (sameMethods : next.methods = recorder.methods ++ callText name argument :: behind) :
    recorder.Reveals next (mentionsSizeCheck (argument ++ ")")) false := by
  have reveals := reveals_call quiet argument asksForValue noSize sameCalls sameMethods
  rw [noMember, Bool.false_and, Bool.false_and] at reveals
  exact reveals

theorem reveals_value {calls : List Call} (noSize : calls.any Call.checksSize = false)
    (delegate : Asserter) :
    recorder.Reveals ((recorder.finish delegate calls).record ".value()") false false :=
  have quiet : "value" ∈ quietNames := by decide
  reveals_check quiet "" rfl List.mem_cons_self noSize rfl rfl

theorem reveals_isEqualToText {text : String} (recorded : recorder.isEqualToText text = .ok next) :
    recorder.Reveals next (recorder.writesText && mentionsSizeCheck text) false := by
  have equality : ∀ {last : Recorder} {behind : List String}, recorder.writesText = true →
      behind ∈ valueTexts → last.calls = recorder.calls ++ [.isEqualTo (.string text)] →
        last.methods = recorder.methods ++ callText "isEqualTo" (javaString text) :: behind →
          recorder.Reveals last (recorder.writesText && mentionsSizeCheck text) false := by
    intro last behind writes asksForValue sameCalls sameMethods
    have reveals := reveals_check (by decide) _ rfl asksForValue rfl sameCalls sameMethods
    rw [mentionsSizeCheck_javaString] at reveals
    rw [writes]
    exact reveals
  have noLast : ∀ {known : Option String}, recorder.lastRecord? = known →
      known.all (fun last => containsText last "array") = true → recorder.writesText = true := by
    intro known last allowed
    rw [writesText, last, allowed, Bool.or_true]
  rw [isEqualToText] at recorded
  obtain ⟨delegate, -, whole⟩ := bind_eq_ok_iff.mp recorded
  dsimp only at whole
  split at whole
  · rename_i inArray
    split at whole
    · rename_i last
      cases whole
      exact equality (noLast last rfl) (by decide) rfl (List.append_assoc _ _ _)
    · rename_i last _ isLast
      split at whole
      · rename_i behindArray
        cases whole
        exact equality (noLast isLast behindArray) List.mem_cons_self rfl rfl
      · rename_i elsewhere
        have silent : recorder.writesText = false := by
          rw [writesText, inArray, isLast, Option.all_some, Bool.eq_false_iff.mpr elsewhere]
          rfl
        cases whole
        rw [silent]
        exact reveals_value rfl delegate
    · rename_i noneYet
      cases whole
      exact equality (noLast noneYet rfl) List.mem_cons_self rfl rfl
  · rename_i notInArray
    have writes : recorder.writesText = true := by
      rw [writesText, Bool.eq_false_iff.mpr notInArray]
      rfl
    cases whole
    exact equality writes List.mem_cons_self rfl rfl

/-- A number or a truth value that is handed over to a check. -/
theorem reveals_scalar {argument : String} (noOpening : '(' ∉ argument.toList) {calls : List Call}
    (noSize : calls.any Call.checksSize = false) (delegate : Asserter) :
    recorder.Reveals ((recorder.finish delegate calls).recordWith "isEqualTo" argument) false
      false := by
  have quiet : "isEqualTo" ∈ quietNames := by decide
  have reveals : recorder.Reveals ((recorder.finish delegate calls).recordWith "isEqualTo" argument)
      (mentionsSizeCheck (argument ++ ")")) false :=
    reveals_check quiet argument rfl List.mem_cons_self noSize rfl rfl
  have noOpeningToo : '(' ∉ (argument ++ ")").toList := by
    rw [String.toList_append, List.mem_append, not_or]
    exact ⟨noOpening, by simp⟩
  rw [mentionsSizeCheck_of_notMem noOpeningToo] at reveals
  exact reveals

theorem reveals_isEqualToNumber {number : Number}
    (recorded : recorder.isEqualToNumber number = .ok next) :
    recorder.Reveals next false false := by
  have noOpening : '(' ∉ number.javaLiteral.toList := by
    intro member
    rcases isNumberChar_of_mem_javaLiteral member with isPart | isMark
    · exact absurd isPart (by decide)
    · exact absurd isMark (by decide)
  rw [isEqualToNumber] at recorded
  obtain ⟨delegate, -, whole⟩ := bind_eq_ok_iff.mp recorded
  dsimp only at whole
  have either : next = (recorder.finish delegate [.isEqualTo (.number number)]).record ".value()" ∨
      next = (recorder.finish delegate [.isEqualTo (.number number)]).recordWith "isEqualTo"
        number.javaLiteral := by
    split at whole
    · split at whole <;> cases whole
      · exact Or.inl rfl
      · exact Or.inr rfl
    · split at whole <;> cases whole
      · exact Or.inl rfl
      · exact Or.inr rfl
  rcases either with rfl | rfl
  · exact reveals_value rfl delegate
  · exact reveals_scalar noOpening rfl delegate

theorem reveals_isEqualToBool {flag : Bool} (recorded : recorder.isEqualToBool flag = .ok next) :
    recorder.Reveals next false false := by
  rw [isEqualToBool] at recorded
  obtain ⟨delegate, -, whole⟩ := bind_eq_ok_iff.mp recorded
  dsimp only at whole
  split at whole
  · cases whole
    exact reveals_value rfl delegate
  · cases whole
    refine reveals_scalar ?_ rfl delegate
    cases flag <;> simp

theorem reveals_isNull (recorded : recorder.isNull = .ok next) :
    recorder.Reveals next false false := by
  obtain ⟨delegate, -, whole⟩ := bind_eq_ok_iff.mp recorded
  cases whole
  have quiet : "isNull" ∈ quietNames := by decide
  exact reveals_check quiet "" rfl List.mem_cons_self rfl rfl rfl

/-- A comparison reveals what the text that is compared, if it is written, mentions. -/
theorem reveals_isEqualTo {value : Json} (recorded : recorder.isEqualTo value = .ok next) :
    recorder.Reveals next (RecordedStep.mentionsSize ⟨recorder, .isEqualTo value⟩) false := by
  have written : ∀ text, value.comparedText? = some text →
      RecordedStep.mentionsSize ⟨recorder, .isEqualTo value⟩ =
        (recorder.writesText && mentionsSizeCheck text) := by
    intro text compared
    rw [RecordedStep.mentionsSize, RecordedStep.written]
    dsimp only
    rw [compared]
    cases recorder.writesText <;> simp
  have silent : value.comparedText? = none →
      RecordedStep.mentionsSize ⟨recorder, .isEqualTo value⟩ = false := by
    intro compared
    rw [RecordedStep.mentionsSize, RecordedStep.written]
    dsimp only
    rw [compared]
    cases recorder.writesText <;> rfl
  cases value with
  | null =>
      rw [silent rfl]
      exact reveals_isNull recorded
  | bool flag =>
      rw [silent rfl]
      exact reveals_isEqualToBool recorded
  | number amount =>
      rw [silent rfl]
      exact reveals_isEqualToNumber recorded
  | string text =>
      rw [written _ rfl]
      exact reveals_isEqualToText recorded
  | array elements =>
      rw [written _ rfl]
      exact reveals_isEqualToText recorded
  | object members =>
      rw [written _ rfl]
      exact reveals_isEqualToText recorded

theorem reveals_contains {value : Json} (recorded : recorder.contains value = .ok next) :
    recorder.Reveals next (mentionsSizeCheck value.label) false := by
  have looked : ∀ {last : Recorder} {calls : List Call} {behind : List String},
      behind ∈ valueTexts → calls.any Call.checksSize = false →
        last.calls = recorder.calls ++ calls →
          last.methods = recorder.methods ++ callText "contains" value.quotedLabel :: behind →
            recorder.Reveals last (mentionsSizeCheck value.label) false := by
    intro last calls behind asksForValue noSize sameCalls sameMethods
    have reveals := reveals_check (by decide) _ rfl asksForValue noSize sameCalls sameMethods
    rw [mentionsSizeCheck_quotedLabel] at reveals
    exact reveals
  rw [contains] at recorded
  split at recorded
  · obtain ⟨checked, -, whole⟩ := bind_eq_ok_iff.mp recorded
    cases whole
    exact looked (by decide) rfl rfl (List.append_assoc _ _ _)
  · cases recorded
    exact looked List.mem_cons_self rfl rfl rfl

theorem reveals_matching {pattern : String} (recorded : recorder.matching pattern = .ok next) :
    recorder.Reveals next (mentionsSizeCheck pattern) false := by
  have matched : ∀ {last : Recorder} {behind : List String}, behind ∈ valueTexts →
      last.calls = recorder.calls ++ [.matching pattern] →
        last.methods = recorder.methods ++ callText "matches" (javaString pattern) :: behind →
          recorder.Reveals last (mentionsSizeCheck pattern) false := by
    intro last behind asksForValue sameCalls sameMethods
    have reveals := reveals_check (by decide) _ rfl asksForValue rfl sameCalls sameMethods
    rw [mentionsSizeCheck_javaString] at reveals
    exact reveals
  rw [matching] at recorded
  obtain ⟨delegate, -, whole⟩ := bind_eq_ok_iff.mp recorded
  dsimp only at whole
  split at whole
  · cases whole
    exact matched (by decide) rfl (List.append_assoc _ _ _)
  · cases whole
    exact matched List.mem_cons_self rfl rfl

theorem reveals_isInstanceOf {className : String}
    (recorded : recorder.isInstanceOf className = .ok next) :
    recorder.Reveals next (mentionsSizeCheck className) false := by
  obtain ⟨delegate, -, whole⟩ := bind_eq_ok_iff.mp recorded
  have text : ".isInstanceOf(" ++ className ++ ".class)" =
      callText "isInstanceOf" (className ++ ".class") := by
    apply String.toList_injective
    simp [callText]
  rw [text] at whole
  cases whole
  have quiet : "isInstanceOf" ∈ quietNames := by decide
  rw [← mentionsSizeCheck_className]
  exact reveals_check quiet _ rfl List.mem_cons_self rfl rfl rfl

/-- A check of a size is found in its own text. -/
theorem reveals_sizeCheck {text : String} (mentions : mentionsSizeCheck text = true)
    (noMember : looksConcrete text = false) {call : Call} (checks : call.checksSize = true)
    (delegate : Asserter) :
    recorder.Reveals ((recorder.finish delegate [call]).record text) false false := by
  refine ⟨[call], [text], rfl, rfl, ?_, ?_⟩
  · rw [List.any_cons, List.any_cons, mentions, checks]
    rfl
  · rw [List.any_cons, noMember]
    rfl

theorem reveals_isEmpty (recorded : recorder.isEmpty = .ok next) :
    recorder.Reveals next false false := by
  obtain ⟨delegate, -, whole⟩ := bind_eq_ok_iff.mp recorded
  cases whole
  exact reveals_sizeCheck rfl rfl rfl delegate

theorem reveals_hasSize {size : Nat} (recorded : recorder.hasSize size = .ok next) :
    recorder.Reveals next false false := by
  obtain ⟨delegate, -, whole⟩ := bind_eq_ok_iff.mp recorded
  have mentions : mentionsSizeCheck (callText "hasSize" (toString size)) = true := by
    rw [mentionsSizeCheck, Bool.or_eq_true, containsText_iff, toList_callText]
    exact Or.inl ⟨[], (toString size ++ ")").toList, by simp⟩
  have noMember : looksConcrete (callText "hasSize" (toString size)) = false := by
    rw [looksConcrete_callText (by simp)]
    simp
  cases whole
  exact reveals_sizeCheck mentions noMember rfl delegate

end Recorder

namespace Operation

variable {recorder next : Recorder}

/-- A single operation reveals calls that answer the questions as it says. -/
theorem reveals_record {operation : Operation} (single : ∀ names, operation ≠ .fieldPath names)
    (recorded : operation.record recorder = .ok next) :
    recorder.Reveals next (RecordedStep.mentionsSize ⟨recorder, operation⟩)
      (RecordedStep.isConcrete ⟨recorder, operation⟩) := by
  have names : ∀ text : String, [text].any mentionsSizeCheck = mentionsSizeCheck text := by
    intro text
    rw [List.any_cons, List.any_nil, Bool.or_false]
  have asField : "field" ∈ quietNames := by decide
  have asArray : "array" ∈ quietNames := by decide
  cases operation with
  | field name =>
      cases recorded
      rw [RecordedStep.mentionsSize, RecordedStep.written, names, RecordedStep.isConcrete,
        RecordedStep.member?, Recorder.field]
      dsimp only
      cases recorder.delegate.isIterating with
      | true =>
          have asContains : "contains" ∈ quietNames := by decide
          exact Recorder.reveals_name asContains name rfl rfl rfl
      | false => exact Recorder.reveals_name asField name rfl rfl rfl
  | traverseField name =>
      cases recorded
      rw [RecordedStep.mentionsSize, RecordedStep.written, names]
      exact Recorder.reveals_name asField name rfl rfl rfl
  | fieldPath names => exact absurd rfl (single names)
  | array name =>
      cases recorded
      rw [RecordedStep.mentionsSize, RecordedStep.written, names]
      exact Recorder.reveals_name asArray name rfl rfl rfl
  | arrayField =>
      cases recorded
      have quiet : "arrayField" ∈ quietNames := by decide
      exact Recorder.reveals_call quiet "" List.mem_cons_self rfl rfl rfl
  | arrayFieldNamed name =>
      cases recorded
      rw [RecordedStep.mentionsSize, RecordedStep.written, names]
      exact Recorder.reveals_name asArray name rfl rfl rfl
  | anonymousArray =>
      cases recorded
      exact Recorder.reveals_call asArray "" List.mem_cons_self rfl rfl rfl
  | elementWithIndex index =>
      cases recorded
      have quiet : "elementWithIndex" ∈ quietNames := by decide
      have silent : mentionsSizeCheck (toString index ++ ")") = false := by
        refine mentionsSizeCheck_number _ fun c member => Or.inl ?_
        rw [toList_toString] at member
        exact Json.isNumberChar_of_isDigit (isDigit_of_mem_toDigits member)
      have reveals : recorder.Reveals (recorder.elementWithIndex index) _ false :=
        Recorder.reveals_check quiet (toString index) rfl List.mem_cons_self rfl rfl rfl
      rw [silent] at reveals
      exact reveals
  | stay =>
      cases recorded
      exact Recorder.reveals_refl _
  | contains value =>
      rw [RecordedStep.mentionsSize, RecordedStep.written, names]
      exact Recorder.reveals_contains recorded
  | isEqualTo value => exact Recorder.reveals_isEqualTo recorded
  | isNull => exact Recorder.reveals_isNull recorded
  | isEmpty => exact Recorder.reveals_isEmpty recorded
  | matching pattern =>
      rw [RecordedStep.mentionsSize, RecordedStep.written, names]
      exact Recorder.reveals_matching recorded
  | isInstanceOf className =>
      rw [RecordedStep.mentionsSize, RecordedStep.written, names]
      exact Recorder.reveals_isInstanceOf recorded
  | hasSize size => exact Recorder.reveals_hasSize recorded
  | isPresent =>
      obtain ⟨delegate, -, whole⟩ := bind_eq_ok_iff.mp recorded
      cases whole
      exact ⟨[.isPresent], [], rfl, (List.append_nil _).symm, rfl, rfl⟩

/-- Single operations one after another add what each of them reveals. -/
theorem reveals_recordAll {operations : List Operation}
    (single : ∀ operation ∈ operations, ∀ names, operation ≠ .fieldPath names)
    (recorded : recordAll operations recorder = .ok next) :
    recorder.Reveals next ((stepsTaken operations recorder).any RecordedStep.mentionsSize)
      ((stepsTaken operations recorder).any RecordedStep.isConcrete) := by
  induction operations generalizing recorder with
  | nil =>
      cases recorded
      exact Recorder.reveals_refl _
  | cons operation rest inductionHypothesis =>
      rw [recordAll] at recorded
      obtain ⟨middle, first, later⟩ := bind_eq_ok_iff.mp recorded
      have reveals := reveals_record (single operation List.mem_cons_self) first
      have revealsLater := inductionHypothesis
        (fun other member => single other (List.mem_cons_of_mem operation member)) later
      rw [stepsTaken, first, List.any_cons, List.any_cons]
      exact reveals.trans revealsLater

/-! ### Paths of names -/

theorem recordAll_append (operations others : List Operation) (recorder : Recorder) :
    recordAll (operations ++ others) recorder =
      recordAll operations recorder >>= recordAll others := by
  induction operations generalizing recorder with
  | nil => rfl
  | cons operation rest inductionHypothesis =>
      rw [List.cons_append, recordAll, recordAll]
      cases operation.record recorder with
      | error problem => rfl
      | ok next => exact inductionHypothesis next

theorem recordAll_singles (operation : Operation) (recorder : Recorder) :
    recordAll operation.singles recorder = operation.record recorder := by
  have fields : ∀ (names : List String) (recorder : Recorder),
      recordAll (names.map .field) recorder = .ok (recorder.fieldPath names) := by
    intro names
    induction names with
    | nil => exact fun _ => rfl
    | cons name rest inductionHypothesis => exact fun recorder => inductionHypothesis _
  have alone : ∀ operation : Operation, recordAll [operation] recorder =
      operation.record recorder := by
    intro operation
    rw [recordAll]
    cases operation.record recorder <;> rfl
  cases operation with
  | fieldPath names => exact fields names recorder
  | _ => exact alone _

/-- A run takes the single steps of its operations. -/
theorem recordAll_flatMap_singles (operations : List Operation) (recorder : Recorder) :
    recordAll (operations.flatMap singles) recorder = recordAll operations recorder := by
  induction operations generalizing recorder with
  | nil => rfl
  | cons operation rest inductionHypothesis =>
      rw [List.flatMap_cons, recordAll_append, recordAll_singles, recordAll]
      cases operation.record recorder with
      | error problem => rfl
      | ok next => exact inductionHypothesis next

theorem ne_fieldPath_of_mem_singles {operation single : Operation}
    (member : single ∈ operation.singles) (names : List String) : single ≠ .fieldPath names := by
  rintro rfl
  cases operation with
  | fieldPath others =>
      obtain ⟨name, -, same⟩ := List.mem_map.mp member
      cases same
  | _ => cases List.mem_singleton.mp member

/-- A record asserts a size if one of its calls checks one, or if a name or text that has
been written reads like such a check.  It asserts a concrete value if one of its steps
goes to a member whose name stands on one line, other than a member that is looked for
among the elements of an array. -/
theorem recordAll_answers {operations : List Operation} {asserter : Asserter}
    {style : NameStyle} {recorder : Recorder}
    (recorded : recordAll operations (.ofAsserter asserter style) = .ok recorder) :
    recorder.assertsSize = (recorder.calls.any Call.checksSize ||
        (stepsTaken (operations.flatMap singles) (.ofAsserter asserter style)).any
          RecordedStep.mentionsSize) ∧
      recorder.assertsConcreteValue =
        (stepsTaken (operations.flatMap singles) (.ofAsserter asserter style)).any
          RecordedStep.isConcrete := by
  rw [← recordAll_flatMap_singles] at recorded
  have single : ∀ operation ∈ operations.flatMap singles,
      ∀ names, operation ≠ .fieldPath names := by
    intro operation member
    obtain ⟨origin, -, isSingle⟩ := List.mem_flatMap.mp member
    exact ne_fieldPath_of_mem_singles isSingle
  obtain ⟨calls, texts, sameCalls, sameTexts, sizes, members⟩ := reveals_recordAll single recorded
  have allCalls : recorder.calls = calls := sameCalls
  have allTexts : recorder.methods = texts := sameTexts
  refine ⟨?_, ?_⟩
  · rw [allCalls, ← sizes, ← allTexts]
    rfl
  · rw [← members, ← allTexts]
    rfl

/-! ### Names that read like calls -/

/-- Goes to the elements of an array and to a member of theirs, and checks its size. -/
def throughElements : List Operation :=
  [.array "items", .field "tags", .fieldPath ["first", "names"], .hasSize 2]

theorem throughElements_answers :
    ∃ recorder, recordAll throughElements
        (.ofAsserter (Asserter.ofDocument (.object [])).lenient .bracketed) = .ok recorder ∧
      recorder.assertsSize = (recorder.calls.any Call.checksSize ||
          (stepsTaken (throughElements.flatMap singles)
            (.ofAsserter (Asserter.ofDocument (.object [])).lenient .bracketed)).any
              RecordedStep.mentionsSize) ∧
        recorder.assertsConcreteValue =
          (stepsTaken (throughElements.flatMap singles)
            (.ofAsserter (Asserter.ofDocument (.object [])).lenient .bracketed)).any
              RecordedStep.isConcrete :=
  have recorded : recordAll throughElements
      (.ofAsserter (Asserter.ofDocument (.object [])).lenient .bracketed) = .ok _ := rfl
  ⟨_, recorded, recordAll_answers recorded⟩

/-- A name that reads like a check of a size is taken for one, and a name with the end
of a line is not seen. -/
theorem questions_misread :
    (recordAll [.field "x.hasSize("]
        (.ofAsserter (Asserter.ofDocument (.object [])).lenient .plain)).map
      (fun recorder => (recorder.calls, recorder.assertsSize)) =
        .ok ([.field "x.hasSize("], true) ∧
      (recordAll [.field "a\nb"]
          (.ofAsserter (Asserter.ofDocument (.object [])).lenient .plain)).map
        (fun recorder => (recorder.calls, recorder.assertsConcreteValue)) =
          .ok ([.field "a\nb"], false) := by
  refine ⟨?_, ?_⟩
  · rfl
  · rfl

end Operation

end BodyContract
