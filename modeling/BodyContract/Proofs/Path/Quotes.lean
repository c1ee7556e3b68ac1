import BodyContract.Proofs.Path.Comparing
import BodyContract.Proofs.Path.Wrapping

/-!
# Texts between quotes

A text that stands between quotes in a filter, with nothing in it escaped, is read to its
first quote that no backslash escapes.  If there is one inside, the filter is refused
unless it is closed right behind that quote, or another condition is joined to it there.
Otherwise the text is read as it is exactly if it has no quotes at all and its
backslashes are no marks of escapes.
-/

namespace BodyContract

namespace Path

variable {text rest back : List Char}

/-- What stands behind the first quote of a text that no backslash escapes. -/
def behindQuote? : List Char → Option (List Char)
  | [] => none
  | '\\' :: [] => none
  | '\\' :: _ :: rest => behindQuote? rest
  | c :: rest => if c = '\'' then some rest else behindQuote? rest

/-- Whether a text closes a condition or joins another one to it, behind blanks. -/
def goesOn (text : List Char) : Bool :=
  let rest := text.dropWhile CharSet.whiteSpace.contains
  ")".toList.isPrefixOf rest || "&&".toList.isPrefixOf rest || "||".toList.isPrefixOf rest

/-- Whether a text is read as one literal where it stands between quotes, or makes the filter
unreadable: no quote inside lets a filter go on behind it. -/
def IsShut (text : List Char) : Prop := ∀ back, behindQuote? text = some back → goesOn back = false

theorem behindQuote?_plain {c : Char} (noBackslash : c ≠ '\\') (rest : List Char) :
    behindQuote? (c :: rest) = if c = '\'' then some rest else behindQuote? rest := by
  rw [behindQuote?]
  · intro same
    exact absurd same noBackslash
  · intro other others same
    exact absurd same noBackslash

theorem behindQuote?_of_notMem (free : '\'' ∉ text) : behindQuote? text = none := by
  induction text using behindQuote?.induct with
  | case1 => rfl
  | case2 => rfl
  | case3 c rest inductionHypothesis =>
      rw [behindQuote?]
      exact inductionHypothesis fun isIn =>
        free (List.mem_cons_of_mem _ (List.mem_cons_of_mem c isIn))
  | case4 rest => exact absurd List.mem_cons_self free
  | case5 c rest notLast notEscape noQuote inductionHypothesis =>
      rw [behindQuote?_plain (ne_backslash notLast notEscape), if_neg noQuote]
      exact inductionHypothesis fun isIn => free (List.mem_cons_of_mem c isIn)

theorem isShut_of_notMem (free : '\'' ∉ text) : IsShut text := by
  intro back isBehind
  rw [behindQuote?_of_notMem free] at isBehind
  cases isBehind

/-- A text is read to its first quote that no backslash escapes. -/
theorem readQuotedAux_of_behindQuote? (isBehind : behindQuote? text = some back)
    (position : Nat) (read : List Char) : ∃ name behind,
      readQuotedAux '\'' position read (text ++ rest) = .ok (name, ⟨behind, back ++ rest⟩) := by
  induction text using behindQuote?.induct generalizing read position with
  | case1 => cases isBehind
  | case2 => cases isBehind
  | case3 c text inductionHypothesis =>
      rw [behindQuote?] at isBehind
      rw [List.cons_append, List.cons_append, readQuotedAux]
      split
      · exact inductionHypothesis isBehind _ _
      · exact inductionHypothesis isBehind _ _
  | case4 text =>
      rw [behindQuote?_plain (by decide), if_pos rfl] at isBehind
      cases isBehind
      rw [List.cons_append, readQuotedAux_close (by decide)]
      exact ⟨_, _, rfl⟩
  | case5 c text notLast notEscape noQuote inductionHypothesis =>
      have noBackslash := ne_backslash notLast notEscape
      rw [behindQuote?_plain noBackslash, if_neg noQuote] at isBehind
      rw [List.cons_append, readQuotedAux_plain _ _ noQuote noBackslash]
      exact inductionHypothesis isBehind _ _

/-- Where all quotes of a text are escaped, it is read to the quote behind it. -/
theorem rest_of_readQuotedAux (escaped : behindQuote? text = none) (free : '\'' ∉ rest)
    {position : Nat} {read : List Char} {name : String} {last : Cursor}
    (isRead : readQuotedAux '\'' position read (text ++ '\'' :: rest) = .ok (name, last)) :
    last.rest = rest := by
  induction text using behindQuote?.induct generalizing read position with
  | case1 =>
      rw [List.nil_append, readQuotedAux_close (by decide)] at isRead
      cases isRead
      rfl
  | case2 =>
      -- The closing quote is read as escaped, and there is no other one behind it.
      rw [List.cons_append, List.nil_append, readQuotedAux_escaped _ _ (Or.inl rfl)] at isRead
      obtain ⟨inside, rfl, -⟩ := length_of_readQuotedAux (by decide) isRead
      exact absurd (List.mem_append_right inside List.mem_cons_self) free
  | case3 c text inductionHypothesis =>
      rw [behindQuote?] at escaped
      rw [List.cons_append, List.cons_append, readQuotedAux] at isRead
      split at isRead
      · exact inductionHypothesis escaped isRead
      · exact inductionHypothesis escaped isRead
  | case4 text =>
      rw [behindQuote?_plain (by decide), if_pos rfl] at escaped
      cases escaped
  | case5 c text notLast notEscape noQuote inductionHypothesis =>
      have noBackslash := ne_backslash notLast notEscape
      rw [behindQuote?_plain noBackslash, if_neg noQuote] at escaped
      rw [List.cons_append, readQuotedAux_plain _ _ noQuote noBackslash] at isRead
      exact inductionHypothesis escaped isRead

/-- Where all quotes of a text are escaped, it is read as it is exactly if there are none and
its backslashes are no marks of escapes. -/
theorem readQuoted_iff (escaped : behindQuote? text = none) (free : '\'' ∉ rest)
    (position : Nat) :
    (∃ last, readQuoted '\'' ⟨position, text ++ '\'' :: rest⟩ = .ok (String.ofList text, last)) ↔
      '\'' ∉ text ∧ keepsBackslashes text = true := by
  constructor
  · rintro ⟨last, read⟩
    have atRest := rest_of_readQuotedAux escaped free read
    obtain ⟨inside, same, short⟩ := length_of_readQuotedAux (by decide) read
    rw [atRest] at same
    rw [← List.append_cancel_right same, String.toList_ofList, List.length_nil] at short
    have noQuote : '\'' ∉ text := List.count_eq_zero.mp (by omega)
    refine ⟨noQuote, ?_⟩
    have isRead : readQuotedAux '\'' position [] (escapedFor '\'' text ++ '\'' :: last.rest) =
        .ok (String.ofList ([].reverse ++ text), last) := by
      rw [escapedFor_of_notMem noQuote, atRest]
      exact read
    exact keepsBackslashes_of_readQuotedAux isRead
  · rintro ⟨noQuote, readable⟩
    obtain ⟨behind, read⟩ := readQuotedAux_escapedFor readable [] rest position
    rw [escapedFor_of_notMem noQuote] at read
    exact ⟨_, read⟩

/-! ### What stands behind a quote -/

theorem rest_skipBlanks (cursor : Cursor) :
    (skipBlanks cursor).rest = cursor.rest.dropWhile CharSet.whiteSpace.contains := by
  cases spanned : cursor.span CharSet.whiteSpace.contains with
  | mk run behind =>
      obtain ⟨same, inside, stops⟩ := Cursor.rest_of_span spanned
      rw [skipBlanks, spanned, same, dropWhile_append inside stops]

theorem isPrefixOf_append_quote {word : List Char} (free : '\'' ∉ word) (text rest : List Char) :
    word.isPrefixOf (text ++ '\'' :: rest) = word.isPrefixOf text := by
  induction word generalizing text with
  | nil => rw [List.isPrefixOf_nil_left, List.isPrefixOf_nil_left]
  | cons c others inductionHypothesis =>
      rw [List.mem_cons, not_or] at free
      cases text with
      | nil => simp [List.isPrefixOf, Ne.symm free.1]
      | cons d text =>
          rw [List.cons_append, List.isPrefixOf_cons_cons, List.isPrefixOf_cons_cons,
            inductionHypothesis free.2]

theorem dropWhile_append_quote (text rest : List Char) :
    (text ++ '\'' :: rest).dropWhile CharSet.whiteSpace.contains =
      text.dropWhile CharSet.whiteSpace.contains ++ '\'' :: rest := by
  have quote : CharSet.whiteSpace.contains '\'' = false := whiteSpace_of_isVisible (by decide)
  induction text with
  | nil => rw [List.nil_append, List.dropWhile_nil, List.dropWhile_cons_of_neg (by simp [quote]),
      List.nil_append]
  | cons c text inductionHypothesis =>
      rw [List.cons_append, List.dropWhile_cons, List.dropWhile_cons, inductionHypothesis]
      split <;> rfl

/-- A filter is refused that does not go on behind a quote. -/
theorem endsFilter_stray {α : Type} {last : Cursor} (stays : goesOn back = false)
    (behindQuote : last.rest = back ++ '\'' :: rest) (value : α) :
    ∃ problem, expect ')' (skipBlanks last) = .error problem ∧
      EndsFilter (.ok (value, last)) (.error problem) := by
  rw [goesOn, Bool.or_eq_false_iff, Bool.or_eq_false_iff] at stays
  obtain ⟨⟨noClose, noBoth⟩, noEither⟩ := stays
  have noWord : ∀ word : String, '\'' ∉ word.toList → word.toList.isPrefixOf
      (back.dropWhile CharSet.whiteSpace.contains) = false →
        word.toList.isPrefixOf (skipBlanks last).rest = false := by
    intro word free notNext
    rw [rest_skipBlanks, behindQuote, dropWhile_append_quote, isPrefixOf_append_quote free, notNext]
  have unclosed : (skipBlanks last).eat? ')' = none := by
    have notNext := noWord ")" (by decide) noClose
    rw [Cursor.eat?, if_neg]
    intro isNext
    obtain ⟨others, same⟩ := List.head?_eq_some_iff.mp isNext
    rw [same] at notNext
    cases notNext
  have isRefused : expect ')' (skipBlanks last) =
      fail (skipBlanks last) (.expected ')') := by rw [expect, unclosed]
  refine ⟨_, isRefused, .stray value ?_ ?_ isRefused⟩
  · rw [eatWord?, noWord "&&" (by decide) noBoth]
    rfl
  · rw [eatWord?, noWord "||" (by decide) noEither]
    rfl

/-- The literal that is read between the quotes around a text at the end of a filter, if the
filter is closed behind it. -/
def quotedLiteral (text : List Char) (position : Nat) : Except PathProblem Json :=
  readQuoted '\'' ⟨position + '\''.utf8Size, text ++ ['\'', ')', ']']⟩ >>= fun result =>
    expect ')' (skipBlanks result.2) >>= fun _ => .ok (.string result.1)

theorem quotedLiteral_eq_ok_iff {position : Nat} {literal : Json} :
    quotedLiteral text position = .ok literal ↔ ∃ name last closed,
      readQuoted '\'' ⟨position + '\''.utf8Size, text ++ ['\'', ')', ']']⟩ = .ok (name, last) ∧
        expect ')' (skipBlanks last) = .ok closed ∧ literal = .string name := by
  rw [quotedLiteral, bind_eq_ok_iff]
  constructor
  · rintro ⟨⟨name, last⟩, isRead, goesOn⟩
    obtain ⟨closed, isClosed, same⟩ := bind_eq_ok_iff.mp goesOn
    cases same
    exact ⟨name, last, closed, isRead, isClosed, rfl⟩
  · rintro ⟨name, last, closed, isRead, isClosed, rfl⟩
    exact ⟨(name, last), isRead, bind_eq_ok_iff.mpr ⟨closed, isClosed, rfl⟩⟩

theorem expect_close (position : Nat) :
    expect ')' (skipBlanks ⟨position, [')', ']']⟩) = .ok ⟨position + ')'.utf8Size, [']']⟩ := by
  rw [skipBlanks_visible (by decide), expect_self]

/-- A shut text between quotes is read as a literal, or the filter is refused. -/
theorem answers_quoted (shut : IsShut text) :
    Answers ('\'' :: (text ++ ['\''])) fun position =>
      (quotedLiteral text position).map .literal := by
  refine ⟨⟨'\'', _, rfl, by decide⟩, ?_⟩
  intro fuel position
  have chars : '\'' :: (text ++ ['\'']) ++ [')', ']'] = '\'' :: (text ++ ['\'', ')', ']']) := by simp
  have opens : readOperand (fuel + 1) ⟨position, '\'' :: (text ++ ['\'', ')', ']'])⟩ =
      (readQuoted '\'' ⟨position + '\''.utf8Size, text ++ ['\'', ')', ']']⟩).map fun result =>
        (.literal (.string result.1), result.2) := by
    rw [readOperand]
    simp only [Cursor.peek?, List.head?_cons, Cursor.skip]
    cases read : readQuoted '\'' ⟨position + '\''.utf8Size, text ++ ['\'', ')', ']']⟩ <;>
      simp [read, bind, Except.bind, Except.map]
  rw [chars, opens, quotedLiteral]
  cases isBehind : behindQuote? text with
  | some back =>
      obtain ⟨name, behind, read⟩ := readQuotedAux_of_behindQuote? isBehind
        (position + '\''.utf8Size) []
      obtain ⟨problem, unclosed, ends⟩ := endsFilter_stray (shut back isBehind)
        (rfl : (Cursor.mk behind (back ++ '\'' :: [')', ']'])).rest = _)
        (Operand.literal (.string name))
      rw [readQuoted, read]
      simp only [bind, Except.bind, unclosed]
      exact ends
  | none =>
      cases read : readQuoted '\'' ⟨position + '\''.utf8Size, text ++ ['\'', ')', ']']⟩ with
      | error problem => exact .refused problem
      | ok result =>
          obtain ⟨name, behind, left⟩ := result
          have atEnd : left = [')', ']'] := rest_of_readQuotedAux isBehind (by decide) read
          subst atEnd
          simp only [bind, Except.bind, expect_close]
          exact .closed _ behind

/-- A shut text is read as it is exactly if it has no quotes and its backslashes are no marks
of escapes. -/
theorem quotedLiteral_iff (shut : IsShut text) (position : Nat) :
    quotedLiteral text position = .ok (.string (String.ofList text)) ↔
      '\'' ∉ text ∧ keepsBackslashes text = true := by
  rw [quotedLiteral_eq_ok_iff]
  cases isBehind : behindQuote? text with
  | some back =>
      apply iff_of_false
      · rintro ⟨name, last, closed, read, isClosed, -⟩
        obtain ⟨other, behind, isRead⟩ := readQuotedAux_of_behindQuote? isBehind
          (position + '\''.utf8Size) []
        cases isRead.symm.trans read
        obtain ⟨problem, unclosed, -⟩ := endsFilter_stray (shut back isBehind)
          (rfl : (Cursor.mk behind (back ++ '\'' :: [')', ']'])).rest = _) ()
        cases unclosed.symm.trans isClosed
      · rintro ⟨free, -⟩
        rw [behindQuote?_of_notMem free] at isBehind
        cases isBehind
  | none =>
      rw [← readQuoted_iff isBehind (by decide : '\'' ∉ [')', ']']) (position + '\''.utf8Size)]
      constructor
      · rintro ⟨name, last, closed, read, -, same⟩
        cases same
        exact ⟨last, read⟩
      · rintro ⟨⟨behind, left⟩, read⟩
        have atEnd : left = [')', ']'] := rest_of_readQuotedAux isBehind (by decide) read
        subst atEnd
        exact ⟨_, _, _, read, expect_close behind, rfl⟩

end Path

end BodyContract
