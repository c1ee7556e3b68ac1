import BodyContract.Proofs.Path.Continuation

/-!
# Brackets in paths

In a text that is a path, the first opening bracket is closed by a later one.  A
path without brackets leads to one value at most, unless there is a wildcard or a
descent in it, whose dots stand in its text.
-/

namespace BodyContract

namespace Path

variable {cursor last : Cursor} {fuel : Nat} {inFilter asksSize : Bool} {segments : List Segment}

/-! ## The first segment -/

theorem of_continueWith {segment : Segment}
    (read : continueWith fuel inFilter segment cursor = .ok ((segments, asksSize), last)) :
    ∃ fewer others, fuel = fewer + 1 ∧ segments = segment :: others ∧
      readSegments fewer inFilter cursor = .ok ((others, asksSize), last) := by
  cases fuel with
  | zero => cases read
  | succ fewer =>
      rw [continueWith_eq] at read
      obtain ⟨⟨⟨others, asks⟩, behind⟩, isRead, same⟩ := bind_eq_ok_iff.mp read
      cases same
      exact ⟨fewer, others, rfl, rfl, isRead⟩

theorem of_readName {name : String} (read : readName inFilter cursor = .ok (name, last)) :
    ∃ run, cursor.rest = run ++ last.rest ∧ ∀ c ∈ run, endsName inFilter c = false := by
  rw [readName] at read
  cases spanned : cursor.span fun c => !endsName inFilter c with
  | mk run behind =>
      simp only [spanned] at read
      obtain ⟨same, inside, -⟩ := Cursor.rest_of_span spanned
      split at read
      · cases read
      · cases read
        refine ⟨run, same, ?_⟩
        intro c isIn
        have inName := inside c isIn
        rwa [Bool.not_eq_true'] at inName

/-- What the text of a first segment can look like. -/
inductive Begins : List Char → Segment → Prop where
  /-- Brackets, behind dots. -/
  | bracketed {dots inside : List Char} (free : '[' ∉ dots) (segment : Segment) :
      Begins (dots ++ '[' :: (inside ++ [']'])) segment
  /-- No brackets; then it leads to one value at most, or its dots show that it does not. -/
  | plain {text : List Char} {segment : Segment} (free : '[' ∉ text)
      (isShown : segment.isDefinite = true ∨ ['.', '*'] <:+: text ∨ ['.', '.'] <:+: text) :
      Begins text segment

/-- Whether a text begins with a first segment, and the others are read behind it. -/
def BeginsSegments (fuel : Nat) (inFilter : Bool) (text : List Char) (segments : List Segment)
    (asksSize : Bool) (last : Cursor) : Prop :=
  ∃ front segment fewer others middle, text = front ++ middle.rest ∧ Begins front segment ∧
    fuel = fewer + 1 ∧ segments = segment :: others ∧
    readSegments fewer inFilter middle = .ok ((others, asksSize), last)

theorem Begins.continuing {front : List Char} {segment : Segment} (begins : Begins front segment)
    (read : continueWith fuel inFilter segment cursor = .ok ((segments, asksSize), last)) :
    BeginsSegments fuel inFilter (front ++ cursor.rest) segments asksSize last := by
  obtain ⟨fewer, others, enough, same, isRead⟩ := of_continueWith read
  exact ⟨front, segment, fewer, others, cursor, rfl, begins, enough, same, isRead⟩

/-- Brackets behind dots. -/
theorem beginsSegments_of_bracket {dots : List Char} (free : '[' ∉ dots)
    {next : Segment → Cursor → Except PathProblem ((List Segment × Bool) × Cursor)}
    (goesOn : ∀ found behind, next found behind = .ok ((segments, asksSize), last) →
      ∃ segment, continueWith fuel inFilter segment behind = .ok ((segments, asksSize), last))
    (read : (readBracket fuel cursor >>= fun result => next result.1 result.2) =
      .ok ((segments, asksSize), last)) :
    BeginsSegments fuel inFilter (dots ++ cursor.rest) segments asksSize last := by
  obtain ⟨⟨found, behind⟩, isBracket, isNext⟩ := bind_eq_ok_iff.mp read
  obtain ⟨inside, same⟩ := exists_inside_of_readBracket isBracket
  obtain ⟨segment, isContinued⟩ := goesOn found behind isNext
  have isFirst : Begins (dots ++ '[' :: (inside ++ [']'])) segment := .bracketed free segment
  have begins := isFirst.continuing isContinued
  have text : dots ++ cursor.rest = dots ++ '[' :: (inside ++ [']']) ++ behind.rest := by
    rw [same]
    simp
  rw [text]
  exact begins

/-- A name behind dots. -/
theorem beginsSegments_of_name {dots : List Char} (free : '[' ∉ dots) (segmentOf : String → Segment)
    (isShown : ∀ name, (segmentOf name).isDefinite = true ∨ ['.', '.'] <:+: dots)
    (read : (readName inFilter cursor >>= fun result =>
      continueWith fuel inFilter (segmentOf result.1) result.2) =
        .ok ((segments, asksSize), last)) :
    BeginsSegments fuel inFilter (dots ++ cursor.rest) segments asksSize last := by
  obtain ⟨⟨name, behind⟩, isName, isContinued⟩ := bind_eq_ok_iff.mp read
  obtain ⟨run, same, inside⟩ := of_readName isName
  have plain : '[' ∉ dots ++ run := by
    rw [List.mem_append, not_or]
    refine ⟨free, fun isIn => ?_⟩
    have inName := inside '[' isIn
    rw [endsName] at inName
    cases inName
  have shown : (segmentOf name).isDefinite = true ∨ ['.', '*'] <:+: dots ++ run ∨
      ['.', '.'] <:+: dots ++ run := by
    rcases isShown name with definite | descends
    · exact Or.inl definite
    · exact Or.inr (Or.inr (descends.trans (List.prefix_append dots run).isInfix))
  have begins := (Begins.plain plain shown).continuing isContinued
  rw [same, ← List.append_assoc]
  exact begins

namespace Opening

/-- The characters that are skipped at once. -/
def chars : Opening → List Char
  | .descendAll => ['.', '.', '*']
  | .descendBracket => ['.', '.']
  | .descendName => ['.', '.']
  | .every => ['.', '*']
  | .dottedBracket => ['.']
  | .dottedName => ['.']
  | .bracket => []
  | .nothing => []

end Opening

theorem rest_eq_chars_append (cursor : Cursor) : cursor.rest = (opening cursor.rest).chars ++
    (cursor.skipMany (opening cursor.rest).length).rest := by
  rw [Cursor.rest_skipMany]
  generalize cursor.rest = text
  fun_cases opening text <;> rfl

/-- Outside of a filter, segments that are read up to the end of a text begin with a
first one or are none. -/
theorem beginsSegments_of_readSegments
    (read : readSegments (fuel + 1) false cursor = .ok ((segments, asksSize), last))
    (atEnd : last.rest = []) : cursor.rest = [] ∧ segments = [] ∨
      BeginsSegments fuel false cursor.rest segments asksSize last := by
  have split := rest_eq_chars_append cursor
  rw [readSegments_succ] at read
  rw [split]
  generalize cursor.skipMany (opening cursor.rest).length = middle at read
  generalize opening cursor.rest = first at read
  cases first with
  | descendAll =>
      exact Or.inr ((Begins.plain (by decide) (Or.inr (Or.inr (by decide)))).continuing read)
  | descendBracket =>
      refine Or.inr (beginsSegments_of_bracket (by decide) ?_ read)
      intro found behind isNext
      cases found with
      | child name => exact ⟨_, isNext⟩
      | wildcard => exact ⟨_, isNext⟩
      | _ => cases isNext
  | descendName =>
      exact Or.inr (beginsSegments_of_name (by decide) (fun name => .descendants (some name))
        (fun _ => Or.inr (by decide)) read)
  | every => exact Or.inr ((Begins.plain (by decide) (Or.inr (by decide))).continuing read)
  | dottedBracket =>
      exact Or.inr (beginsSegments_of_bracket (by decide) (fun found _ isNext => ⟨found, isNext⟩) read)
  | dottedName => exact Or.inr (beginsSegments_of_name (by decide) .child (fun _ => Or.inl rfl) read)
  | bracket =>
      exact Or.inr (beginsSegments_of_bracket (by decide) (fun found _ isNext => ⟨found, isNext⟩) read)
  | nothing =>
      cases read
      exact Or.inl ⟨atEnd, rfl⟩

/-! ## Whole paths -/

/-- Where segments end a text, its first opening bracket is closed behind it. -/
theorem closes_of_readSegments
    (read : readSegments fuel false cursor = .ok ((segments, asksSize), last))
    (atEnd : last.rest = []) (opens : '[' ∈ cursor.rest) :
    ∃ front inside, cursor.rest = front ++ '[' :: inside ∧ '[' ∉ front ∧ ']' ∈ inside := by
  induction fuel using Nat.strong_induction_on generalizing cursor segments with
  | _ fuel inductionHypothesis =>
      cases fuel with
      | zero => cases read
      | succ fuel =>
          rcases beginsSegments_of_readSegments read atEnd with ⟨nothing, -⟩ |
            ⟨front, segment, fewer, others, middle, same, begins, enough, -, isRead⟩
          · rw [nothing] at opens
            exact absurd opens List.not_mem_nil
          · cases begins with
            | @bracketed dots inside free _ =>
                exact ⟨dots, inside ++ ']' :: middle.rest, by rw [same]; simp, free, by simp⟩
            | plain free _ =>
                have later : '[' ∈ middle.rest := by
                  rw [same, List.mem_append] at opens
                  exact opens.resolve_left free
                obtain ⟨between, inside, sameLater, freeToo, isClosed⟩ :=
                  inductionHypothesis fewer (by omega) isRead later
                refine ⟨front ++ between, inside, by rw [same, sameLater, List.append_assoc], ?_,
                  isClosed⟩
                rw [List.mem_append, not_or]
                exact ⟨free, freeToo⟩

/-- Without brackets, segments that end a text lead to one value at most, or their dots
show that they do not. -/
theorem isShown_of_readSegments
    (read : readSegments fuel false cursor = .ok ((segments, asksSize), last))
    (atEnd : last.rest = []) (free : '[' ∉ cursor.rest) :
    areDefinite segments = true ∨ ['.', '*'] <:+: cursor.rest ∨ ['.', '.'] <:+: cursor.rest := by
  induction fuel using Nat.strong_induction_on generalizing cursor segments with
  | _ fuel inductionHypothesis =>
      cases fuel with
      | zero => cases read
      | succ fuel =>
          rcases beginsSegments_of_readSegments read atEnd with ⟨-, rfl⟩ |
            ⟨front, segment, fewer, others, middle, same, begins, enough, rfl, isRead⟩
          · exact Or.inl rfl
          · rw [same] at free ⊢
            rw [List.mem_append, not_or] at free
            have infront : front <:+: front ++ middle.rest := (List.prefix_append _ _).isInfix
            have behind : middle.rest <:+: front ++ middle.rest := (List.suffix_append _ _).isInfix
            cases begins with
            | bracketed _ _ => exact absurd free.1 (by simp)
            | plain _ isShown =>
                rcases isShown with definite | shown
                · rcases inductionHypothesis fewer (by omega) isRead free.2 with later | shown
                  · left
                    rw [areDefinite, List.all_cons, definite, Bool.true_and]
                    exact later
                  · exact Or.inr (shown.imp (·.trans behind) (·.trans behind))
                · exact Or.inr (shown.imp (·.trans infront) (·.trans infront))

/-- In the text of a path, the first opening bracket is closed behind it. -/
theorem closes_of_parse {text : String} {path : BodyContract.Path} (parsed : parse text = .ok path)
    (opens : '[' ∈ text.toList) :
    ∃ front inside, text.toList = front ++ '[' :: inside ∧ '[' ∉ front ∧ ']' ∈ inside := by
  obtain ⟨chars, asksSize, last, same, read, atEnd⟩ := readSegments_of_parse parsed
  rw [same, List.mem_cons] at opens
  have isLater : '[' ∈ chars := opens.resolve_left (by decide)
  obtain ⟨front, inside, sameChars, free, isClosed⟩ := closes_of_readSegments read atEnd isLater
  refine ⟨'$' :: front, inside, ?_, ?_, isClosed⟩
  · rw [same, List.cons_append]
    exact congrArg ('$' :: ·) sameChars
  · rw [List.mem_cons, not_or]
    exact ⟨by decide, free⟩

/-- A path without brackets leads to one value at most, or its dots show that it does
not. -/
theorem isShown_of_parse {text : String} {path : BodyContract.Path} (parsed : parse text = .ok path)
    (free : '[' ∉ text.toList) :
    path.isDefinite = true ∨ ['.', '*'] <:+: text.toList ∨ ['.', '.'] <:+: text.toList := by
  obtain ⟨chars, asksSize, last, same, read, atEnd⟩ := readSegments_of_parse parsed
  rw [same] at free ⊢
  have freeLater : '[' ∉ chars := fun isIn => free (List.mem_cons_of_mem '$' isIn)
  have behind : chars <:+: '$' :: chars := (List.suffix_cons '$' chars).isInfix
  rcases isShown_of_readSegments read atEnd freeLater with definite | shown
  · exact Or.inl definite
  · exact Or.inr (shown.imp (·.trans behind) (·.trans behind))

end Path

end BodyContract
