import BodyContract.Proofs.Chain.Plain
import BodyContract.Proofs.Outcome
import BodyContract.Proofs.Recording.Checks
import BodyContract.Proofs.Recording.Words

/-!
# The texts of chains that go to members

A chain that goes from member to member and then checks a value writes a call
for every name.  The text of such a chain tells its names: a quoted name ends at
the first double quote without a backslash in front, and the call of a check
begins otherwise than the call of a step.
-/

namespace BodyContract

/-- Reads an escaped text up to the quote behind it. -/
def readEscaped (quote : Char) : List Char → List Char × List Char
  | [] => ([], [])
  | c :: rest =>
      if c = quote then
        ([], rest)
      else
        match rest with
        | [] => ([c], [])
        | next :: later =>
            if c = '\\' ∧ next = quote then
              ((readEscaped quote later).map (next :: ·) id)
            else
              ((readEscaped quote (next :: later)).map (c :: ·) id)

/-- An escaped text goes on with a quote only where it ends. -/
theorem escapedFor_append_begins {quote : Char} (special : quote ≠ '\\') (text more : List Char) :
    ∃ next later, escapedFor quote text ++ quote :: more = next :: later ∧
      (next = quote → text = []) := by
  cases text with
  | nil => exact ⟨quote, more, rfl, fun _ => rfl⟩
  | cons c rest =>
      rw [escapedFor_cons]
      by_cases isQuote : c = quote
      · rw [if_pos isQuote]
        exact ⟨'\\', _, rfl, fun same => absurd same.symm special⟩
      · rw [if_neg isQuote]
        exact ⟨c, _, rfl, fun same => absurd same isQuote⟩

/-- An escaped text without a backslash at its end is read back. -/
theorem readEscaped_escapedFor {quote : Char} (special : quote ≠ '\\') {text : List Char}
    (ends : text.getLast? ≠ some '\\') (rest : List Char) :
    readEscaped quote (escapedFor quote text ++ quote :: rest) = (text, rest) := by
  induction text with
  | nil =>
      rw [escapedFor, List.flatMap_nil, List.nil_append, readEscaped.eq_def]
      exact if_pos rfl
  | cons c others inductionHypothesis =>
      have tailEnds : others.getLast? ≠ some '\\' := by
        cases others with
        | nil =>
            intro impossible
            cases impossible
        | cons second _ => rwa [List.getLast?_cons_cons] at ends
      have later := inductionHypothesis tailEnds
      rw [escapedFor_cons]
      by_cases isQuote : c = quote
      · rw [if_pos isQuote, isQuote, List.append_assoc, List.cons_append, List.cons_append,
          List.nil_append, readEscaped, if_neg special.symm, if_pos ⟨rfl, rfl⟩, later]
        rfl
      · obtain ⟨next, behind, begins, atEnd⟩ := escapedFor_append_begins special others rest
        -- a lone backslash is never followed by a quote, as it does not end the text
        have apart : ¬ (c = '\\' ∧ next = quote) := by
          rintro ⟨rfl, same⟩
          rw [atEnd same] at ends
          exact ends rfl
        rw [if_neg isQuote, List.append_assoc, List.singleton_append, begins, readEscaped,
          if_neg isQuote, if_neg apart, ← begins, later]
        rfl

/-- An escaped text without a backslash at its end is told from what follows
behind a quote. -/
theorem escapedFor_append_inj {quote : Char} (special : quote ≠ '\\') {left right : List Char}
    (leftEnds : left.getLast? ≠ some '\\') (rightEnds : right.getLast? ≠ some '\\')
    {before behind : List Char}
    (same : escapedFor quote left ++ quote :: before = escapedFor quote right ++ quote :: behind) :
    left = right ∧ before = behind := by
  have read := congrArg (readEscaped quote) same
  rw [readEscaped_escapedFor special leftEnds, readEscaped_escapedFor special rightEnds] at read
  exact Prod.mk.inj read

/-! ## Names -/

theorem wrap_ends {name : String} :
    (NameStyle.bracketed.wrap name).toList.getLast? ≠ some '\\' := by
  cases whole : isWholeNumber name with
  | true =>
      obtain ⟨c, more, same, isWhole⟩ := Recorder.last_of_isWholeNumber whole
      rw [Path.wrap_of_whole whole, ← List.head?_reverse, same, List.head?_cons]
      intro impossible
      injection impossible with isBackslash
      subst isBackslash
      rcases isWhole with other | other | other <;> exact absurd other (by decide)
  | false =>
      have split : '[' :: '\'' :: (escapedFor '\'' name.toList ++ ['\'', ']']) =
          ('[' :: '\'' :: (escapedFor '\'' name.toList ++ ['\''])) ++ [']'] := by simp
      rw [Path.toList_wrap_of_not_whole whole, split, List.getLast?_concat]
      decide

/-- The text of the call that goes to a member. -/
def fieldText (name : String) : String :=
  ".field(" ++ quoteOnly (NameStyle.bracketed.wrap name) ++ ")"

theorem toList_fieldText (name : String) : (fieldText name).toList = ".field(\"".toList ++
    (escapedFor '"' (NameStyle.bracketed.wrap name).toList ++ ['"', ')']) := by
  have same : (fun c => if c = '"' then ['\\', '"'] else [c]) =
      fun c => if c = '"' then ['\\', c] else [c] := by
    funext c
    by_cases isQuote : c = '"'
    · rw [isQuote]
    · rw [if_neg isQuote, if_neg isQuote]
  simp [fieldText, quoteOnly, escapedFor, same]

/-- Chains of steps to members, with a check behind them, are told by their
names. -/
theorem names_inj {left right : List String} {before behind : List Char}
    (same : (left.map fieldText).flatMap String.toList ++ '.' :: 'i' :: before =
      (right.map fieldText).flatMap String.toList ++ '.' :: 'i' :: behind) : left = right := by
  induction left generalizing right with
  | nil =>
      cases right with
      | nil => rfl
      | cons name rest => simp [toList_fieldText] at same
  | cons first others inductionHypothesis =>
      cases right with
      | nil => simp [toList_fieldText] at same
      | cons name rest =>
          simp only [List.map_cons, List.flatMap_cons, toList_fieldText, List.append_assoc,
            List.append_cancel_left_eq, List.cons_append, List.nil_append] at same
          obtain ⟨wrapped, later⟩ := escapedFor_append_inj (by decide) wrap_ends wrap_ends same
          injection later with _ shorter
          have equal := wrap_injective _ (String.toList_injective wrapped)
          rw [equal, inductionHypothesis shorter]

namespace Recorder

theorem toList_isEqualTo (argument : String) :
    ∃ more, ("." ++ "isEqualTo" ++ "(" ++ argument ++ ")").toList = '.' :: 'i' :: more :=
  ⟨"sEqualTo(".toList ++ argument.toList ++ [')'], by simp⟩

/-- Away from the elements of an array, an equality writes one call. -/
theorem methods_isEqualTo {key chain : Recorder} {value : Json}
    (notElements : key.delegate.focus ≠ .arrayValue) (scalar : value.isContainer = false)
    (made : key.isEqualTo value = .ok chain) :
    ∃ check more, chain.methods = key.methods ++ [check] ∧ check.toList = '.' :: 'i' :: more := by
  have notAsserting : key.delegate.isAssertingArrayValue = false := by
    rw [Asserter.isAssertingArrayValue, beq_eq_false_iff_ne]
    exact notElements
  cases value with
  | null =>
      rw [isEqualTo, isNull, bind_eq_ok_iff] at made
      obtain ⟨delegate, -, same⟩ := made
      cases same
      exact ⟨_, _, rfl, rfl⟩
  | bool flag =>
      rw [isEqualTo, isEqualToBool, bind_eq_ok_iff] at made
      obtain ⟨delegate, -, same⟩ := made
      rw [notAsserting] at same
      cases same
      obtain ⟨more, begins⟩ := toList_isEqualTo (if flag then "true" else "false")
      exact ⟨_, more, rfl, begins⟩
  | number number =>
      rw [isEqualTo, isEqualToNumber, bind_eq_ok_iff] at made
      obtain ⟨delegate, -, same⟩ := made
      rw [notAsserting] at same
      cases same
      obtain ⟨more, begins⟩ := toList_isEqualTo number.javaLiteral
      exact ⟨_, more, rfl, begins⟩
  | string text =>
      rw [isEqualTo, isEqualToText, bind_eq_ok_iff] at made
      obtain ⟨delegate, -, same⟩ := made
      rw [notAsserting] at same
      cases same
      obtain ⟨more, begins⟩ := toList_isEqualTo (javaString text)
      exact ⟨_, more, rfl, begins⟩
  | array elements => cases scalar
  | object members => cases scalar

end Recorder

end BodyContract
