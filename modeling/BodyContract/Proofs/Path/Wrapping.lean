import BodyContract.Proofs.Path.Continuation

/-!
# Names that come back from their wrapping

In a wrapped name only quotes are escaped, while a reader takes a backslash in front of
a backslash as an escape too.  So a name comes back exactly if none of its backslashes
stands in front of a quote, of another backslash or at its end.
-/

namespace BodyContract

namespace Path

/-! ## Quoted names -/

theorem length_escapedFor (quote : Char) (text : List Char) :
    (escapedFor quote text).length = text.length + text.count quote := by
  induction text with
  | nil => rfl
  | cons c rest inductionHypothesis =>
      rw [escapedFor_cons, List.length_append, inductionHypothesis]
      by_cases same : c = quote
      · rw [if_pos same, same, List.count_cons_self]
        simp only [List.length_cons, List.length_nil]
        omega
      · rw [if_neg same, List.count_cons_of_ne same]
        simp only [List.length_cons, List.length_nil]
        omega

theorem count_escapedFor {quote : Char} (noBackslash : quote ≠ '\\') (text : List Char) :
    (escapedFor quote text).count quote = text.count quote := by
  induction text with
  | nil => rfl
  | cons c rest inductionHypothesis =>
      rw [escapedFor_cons, List.count_append, inductionHypothesis]
      by_cases same : c = quote
      · rw [if_pos same, same, List.count_cons_of_ne noBackslash.symm, List.count_cons_self,
          List.count_cons_self, List.count_nil]
        omega
      · rw [if_neg same, List.count_cons_of_ne same, List.count_cons_of_ne same, List.count_nil,
          Nat.zero_add]

/-- What a quoted text is read from: all quotes in it but the last are escaped, and an
escape is longer than what it stands for. -/
theorem length_of_readQuotedAux {quote : Char} (noBackslash : quote ≠ '\\') {position : Nat}
    {read text : List Char} {name : String} {last : Cursor}
    (isRead : readQuotedAux quote position read text = .ok (name, last)) :
    ∃ inside, text = inside ++ quote :: last.rest ∧
      name.toList.length + inside.count quote ≤ read.length + inside.length := by
  fun_induction readQuotedAux quote position read text with
  | case1 => cases isRead
  | case2 => cases isRead
  | case3 position read c rest behind escaped inductionHypothesis =>
      obtain ⟨inside, rfl, short⟩ := inductionHypothesis isRead
      refine ⟨'\\' :: c :: inside, rfl, ?_⟩
      have atMostOne : (c :: inside).count quote ≤ inside.count quote + 1 := by
        rw [List.count_cons]
        split <;> omega
      rw [List.count_cons_of_ne noBackslash.symm]
      simp only [List.length_cons] at short ⊢
      omega
  | case4 position read c rest behind kept inductionHypothesis =>
      obtain ⟨inside, rfl, short⟩ := inductionHypothesis isRead
      refine ⟨'\\' :: c :: inside, rfl, ?_⟩
      have noQuote : c ≠ quote := by
        rintro rfl
        simp at kept
      rw [List.count_cons_of_ne noBackslash.symm, List.count_cons_of_ne noQuote]
      simp only [List.length_cons] at short ⊢
      omega
  | case5 position read rest notLast notEscape behind =>
      cases isRead
      exact ⟨[], rfl, by simp⟩
  | case6 position read c rest notLast notEscape behind noQuote inductionHypothesis =>
      obtain ⟨inside, rfl, short⟩ := inductionHypothesis isRead
      refine ⟨c :: inside, rfl, ?_⟩
      rw [List.count_cons_of_ne noQuote]
      simp only [List.length_cons] at short ⊢
      omega

/-- What is read of a text is shorter than the text. -/
theorem readQuotedAux_shorter {quote : Char} (noBackslash : quote ≠ '\\') {position : Nat}
    {read text : List Char} {name : String} {last : Cursor}
    (isRead : readQuotedAux quote position read text = .ok (name, last)) :
    last.rest.length < text.length := by
  obtain ⟨inside, rfl, -⟩ := length_of_readQuotedAux noBackslash isRead
  rw [List.length_append, List.length_cons]
  omega

/-- A name that is read from its escaped form keeps its backslashes. -/
theorem keepsBackslashes_of_readQuotedAux {name : List Char} {read : List Char} {position : Nat}
    {last : Cursor}
    (isRead : readQuotedAux '\'' position read (escapedFor '\'' name ++ '\'' :: last.rest) =
      .ok (String.ofList (read.reverse ++ name), last)) :
    keepsBackslashes name = true := by
  induction name using keepsBackslashes.induct generalizing read position with
  | case1 => rfl
  | case2 =>
      have escaped : escapedFor '\'' ['\\'] ++ '\'' :: last.rest = '\\' :: '\'' :: last.rest := rfl
      rw [escaped, readQuotedAux_escaped _ _ (Or.inl rfl)] at isRead
      exact absurd (readQuotedAux_shorter (by decide) isRead) (Nat.lt_irrefl _)
  | case3 c name inductionHypothesis =>
      by_cases backslash : c = '\\'
      · -- Two backslashes are read as one, and nothing behind them makes up for it.
        subst backslash
        have escaped : escapedFor '\'' ('\\' :: '\\' :: name) =
            '\\' :: '\\' :: escapedFor '\'' name := rfl
        rw [escaped, List.cons_append, List.cons_append,
          readQuotedAux_escaped _ _ (Or.inr rfl)] at isRead
        obtain ⟨inside, same, short⟩ := length_of_readQuotedAux (by decide) isRead
        rw [← List.append_cancel_right same, String.toList_ofList, length_escapedFor,
          count_escapedFor (by decide)] at short
        simp only [List.length_append, List.length_reverse, List.length_cons] at short
        omega
      · by_cases quote : c = '\''
        · subst quote
          have escaped : escapedFor '\'' ('\\' :: '\'' :: name) =
              '\\' :: '\\' :: '\'' :: escapedFor '\'' name := rfl
          rw [escaped, List.cons_append, List.cons_append, List.cons_append,
            readQuotedAux_escaped _ _ (Or.inr rfl), readQuotedAux_close (by decide),
            Except.ok.injEq, Prod.mk.injEq] at isRead
          have tooLong := congrArg (fun cursor => cursor.rest.length) isRead.2
          simp only [List.length_append, List.length_cons] at tooLong
          omega
        · have first : escapedFor '\'' ('\\' :: c :: name) = '\\' :: c :: escapedFor '\'' name := by
            simp [escapedFor, quote]
          have longer : read.reverse ++ '\\' :: c :: name =
              (c :: '\\' :: read).reverse ++ name := by simp
          rw [first, List.cons_append, List.cons_append, readQuotedAux_kept _ _ quote backslash,
            longer] at isRead
          simp [keepsBackslashes, backslash, quote, inductionHypothesis isRead]
  | case4 c name noEnd noEscape inductionHypothesis =>
      have longer : read.reverse ++ c :: name = (c :: read).reverse ++ name := by simp
      rw [keepsBackslashes.eq_4 _ _ noEnd noEscape]
      rw [longer] at isRead
      by_cases quote : c = '\''
      · have first : escapedFor '\'' (c :: name) = '\\' :: c :: escapedFor '\'' name := by
          simp [escapedFor, quote]
        rw [first, List.cons_append, List.cons_append,
          readQuotedAux_escaped _ _ (Or.inl quote)] at isRead
        exact inductionHypothesis isRead
      · have noBackslash := ne_backslash noEnd noEscape
        have first : escapedFor '\'' (c :: name) = c :: escapedFor '\'' name := by
          simp [escapedFor, quote]
        rw [first, List.cons_append, readQuotedAux_plain _ _ quote noBackslash] at isRead
        exact inductionHypothesis isRead

/-! ## Paths of wrapped names -/

variable {fuel : Nat} {cursor last : Cursor} {asksSize : Bool}

theorem continueWith_ne_nil (inFilter : Bool) (segment : Segment) :
    continueWith fuel inFilter segment cursor ≠ .ok (([], asksSize), last) := by
  intro read
  cases fuel with
  | zero => cases read
  | succ fuel =>
      rw [continueWith_eq] at read
      obtain ⟨result, -, same⟩ := bind_eq_ok_iff.mp read
      cases same

/-- Outside of a filter, where no segment is read nothing is. -/
theorem eq_of_readSegments_nil
    (read : readSegments fuel false cursor = .ok (([], asksSize), last)) :
    last = cursor := by
  cases fuel with
  | zero => cases read
  | succ fuel =>
      rw [readSegments_succ] at read
      cases first : opening cursor.rest with
      | nothing =>
          rw [first] at read
          cases read
          rfl
      | descendAll =>
          rw [first] at read
          exact absurd read (continueWith_ne_nil _ _)
      | every =>
          rw [first] at read
          exact absurd read (continueWith_ne_nil _ _)
      | descendBracket =>
          rw [first] at read
          obtain ⟨⟨segment, behind⟩, -, continues⟩ := bind_eq_ok_iff.mp read
          cases segment with
          | child name => exact absurd continues (continueWith_ne_nil _ _)
          | wildcard => exact absurd continues (continueWith_ne_nil _ _)
          | _ => cases continues
      | descendName =>
          rw [first] at read
          obtain ⟨⟨name, behind⟩, -, continues⟩ := bind_eq_ok_iff.mp read
          exact absurd continues (continueWith_ne_nil _ _)
      | dottedName =>
          rw [first] at read
          obtain ⟨⟨name, behind⟩, -, continues⟩ := bind_eq_ok_iff.mp read
          exact absurd continues (continueWith_ne_nil _ _)
      | dottedBracket =>
          rw [first] at read
          obtain ⟨⟨segment, behind⟩, -, continues⟩ := bind_eq_ok_iff.mp read
          exact absurd continues (continueWith_ne_nil _ _)
      | bracket =>
          rw [first] at read
          obtain ⟨⟨segment, behind⟩, -, continues⟩ := bind_eq_ok_iff.mp read
          exact absurd continues (continueWith_ne_nil _ _)

/-- A quote and a bracket that end a text are the end of the name and of its bracket. -/
theorem rest_of_readQuoted_end {chars : List Char} {position : Nat} {name : String}
    {closed : Cursor}
    (read : readQuoted '\'' ⟨position, chars ++ ['\'', ']']⟩ = .ok (name, last))
    (closes : expect ']' (skipBlanks last) = .ok closed) (atEnd : closed.rest = []) :
    last.rest = [']'] := by
  obtain ⟨inside, same, -⟩ := length_of_readQuotedAux (by decide) read
  cases spanned : last.span CharSet.whiteSpace.contains with
  | mk blanks behind =>
      obtain ⟨rest, areBlanks, -⟩ := Cursor.rest_of_span spanned
      have close := rest_of_expect closes
      rw [skipBlanks, spanned, atEnd] at close
      rw [close] at rest
      have ends : chars ++ ['\''] = inside ++ '\'' :: blanks := by
        rw [rest, ← List.cons_append, ← List.append_assoc] at same
        have split : chars ++ ['\'', ']'] = (chars ++ ['\'']) ++ [']'] := by simp
        exact List.append_cancel_right (split.symm.trans same)
      rcases List.eq_nil_or_concat' blanks with rfl | ⟨front, c, rfl⟩
      · exact rest
      · -- The last character would be a quote and a blank.
        have lasts := congrArg List.getLast? ends
        rw [← List.cons_append, ← List.append_assoc, List.getLast?_concat, List.getLast?_concat,
          Option.some.injEq] at lasts
        have isBlank := areBlanks c (List.mem_append_right front List.mem_cons_self)
        rw [← lasts, whiteSpace_of_isVisible (by decide)] at isBlank
        cases isBlank

theorem keepsBackslashes_of_readBracket {name : String} {position : Nat}
    (read : readBracket fuel
        ⟨position, '[' :: '\'' :: (escapedFor '\'' name.toList ++ ['\'', ']'])⟩ =
      .ok (.child name, last)) (atEnd : last.rest = []) : keepsBackslashes name.toList = true := by
  cases fuel with
  | zero => cases read
  | succ fuel =>
      rw [readBracket_succ] at read
      dsimp only at read
      rw [expect_self] at read
      obtain ⟨opened, isOpened, isRead⟩ := bind_eq_ok_iff.mp read
      cases isOpened
      rw [skipBlanks_visible (by decide)] at isRead
      obtain ⟨⟨segment, behind⟩, isInside, closes⟩ := bind_eq_ok_iff.mp isRead
      obtain ⟨closed, isClosed, same⟩ := bind_eq_ok_iff.mp closes
      cases same
      have quote : ('\'' = '\'' || '\'' = '"') = true := by decide
      have next : (Cursor.mk (position + '['.utf8Size)
          ('\'' :: (escapedFor '\'' name.toList ++ ['\'', ']']))).peek? = some '\'' := rfl
      rw [next, readInside_of_ne (by decide) (by decide), if_pos quote] at isInside
      obtain ⟨⟨found, middle⟩, isQuoted, isChild⟩ := bind_eq_ok_iff.mp isInside
      cases isChild
      have rest := rest_of_readQuoted_end isQuoted isClosed atEnd
      have isName : readQuotedAux '\'' (position + '['.utf8Size + '\''.utf8Size) []
          (escapedFor '\'' found.toList ++ '\'' :: middle.rest) =
            .ok (String.ofList ([].reverse ++ found.toList), middle) := by
        rw [rest, List.reverse_nil, List.nil_append, String.ofList_toList]
        exact isQuoted
      exact keepsBackslashes_of_readQuotedAux isName

theorem keepsBackslashes_of_isWholeNumber {name : String} (whole : isWholeNumber name = true) :
    keepsBackslashes name.toList = true := by
  apply keepsBackslashes_of_notMem
  obtain ⟨first, rest, same, isWhole, digits⟩ := chars_of_isWholeNumber whole
  intro member
  rw [same, List.mem_cons] at member
  have isBackslash : IsWholeChar '\\' := by
    rcases member with rfl | later
    · exact isWhole
    · exact Or.inr (Or.inr (digits _ later))
  revert isBackslash
  simp [IsWholeChar]

/-- The path of a wrapped name is the path to the member of this name exactly if the
backslashes of the name are read as themselves. -/
theorem parse_wrap_iff (name : String) :
    parse ("$." ++ NameStyle.bracketed.wrap name) =
        .ok ⟨"$." ++ NameStyle.bracketed.wrap name, [.child name]⟩ ↔
      keepsBackslashes name.toList = true := by
  constructor
  · intro parsed
    cases whole : isWholeNumber name with
    | true => exact keepsBackslashes_of_isWholeNumber whole
    | false =>
        obtain ⟨chars, asksSize, last, same, isRead, atEnd⟩ := readSegments_of_parse parsed
        have text : ("$." ++ NameStyle.bracketed.wrap name).toList =
            '$' :: '.' :: '[' :: '\'' :: (escapedFor '\'' name.toList ++ ['\'', ']']) := by
          rw [String.toList_append, toList_wrap_of_not_whole whole]
          rfl
        rw [text, List.cons.injEq] at same
        obtain ⟨-, rfl⟩ := same
        have first : opening ('.' :: '[' :: '\'' :: (escapedFor '\'' name.toList ++ ['\'', ']'])) =
            .dottedBracket := rfl
        rw [enoughFuel, readSegments_succ, first] at isRead
        obtain ⟨⟨segment, behind⟩, isBracket, continues⟩ := bind_eq_ok_iff.mp isRead
        rw [continueWith_eq] at continues
        obtain ⟨⟨⟨others, asksToo⟩, final⟩, isLater, whole⟩ := bind_eq_ok_iff.mp continues
        cases whole
        rw [eq_of_readSegments_nil isLater] at atEnd
        exact keepsBackslashes_of_readBracket isBracket atEnd
  · intro readable
    have named : ∀ hop ∈ [Hop.member name], hop.isReadable = true := by
      simpa [Hop.isReadable] using readable
    have parsed := parse_hops named
    have text : pathText [.member name] = "$." ++ NameStyle.bracketed.wrap name := by
      rw [pathText, Hop.textOf_singleton, Hop.text, ← String.append_assoc]
      rfl
    rw [text] at parsed
    exact parsed

end Path

end BodyContract
