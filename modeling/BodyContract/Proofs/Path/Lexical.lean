import BodyContract.Assertion.Literal
import BodyContract.Path.Parser
import BodyContract.Proofs.Numerals
import BodyContract.Recording.Recorder

/-!
# The words of a path

What is written into a path is read back from it: blanks are skipped, a quoted
text gives the text that was quoted, a wrapped name gives the name, and the
literal of a value gives a value that compares equal.
-/

namespace BodyContract

/-! ## White space -/

theorem whiteSpace_eq :
    CharSet.whiteSpace =
      ⟨[⟨0x09, 0x0D⟩, ⟨0x20, 0x20⟩, ⟨0x85, 0x85⟩, ⟨0xA0, 0xA0⟩, ⟨0x1680, 0x1680⟩,
        ⟨0x2000, 0x200A⟩, ⟨0x2028, 0x2029⟩, ⟨0x202F, 0x202F⟩, ⟨0x205F, 0x205F⟩,
        ⟨0x3000, 0x3000⟩]⟩ := by
  rw [CharSet.whiteSpace, CharSet.ofRanges, CharSet.normalize, List.mergeSort_of_pairwise]
  · simp [CharSet.inter, CharSet.univ, CharSet.join, CharSet.joinAux, CharSet.meet,
      CharSet.maxCodePoint, Interval.inhabited]
  · decide

/-- Whether a character is one of those with a shape in ASCII. -/
def isVisible (c : Char) : Bool := 0x21 ≤ c.toNat && c.toNat ≤ 0x7E

theorem whiteSpace_of_isVisible {c : Char} (visible : isVisible c = true) :
    CharSet.whiteSpace.contains c = false := by
  rw [isVisible, Bool.and_eq_true, decide_eq_true_eq, decide_eq_true_eq] at visible
  have outside : ∀ range ∈ CharSet.whiteSpace.ranges, range.contains c.toNat = false := by
    rw [whiteSpace_eq]
    simp only [List.forall_mem_cons, Interval.contains, Bool.and_eq_false_iff,
      decide_eq_false_iff_not]
    refine ⟨by omega, by omega, by omega, by omega, by omega, by omega, by omega, by omega,
      by omega, by omega, by simp⟩
  exact List.any_eq_false.mpr fun range member => by rw [outside range member]; decide

theorem whiteSpace_blank : CharSet.whiteSpace.contains ' ' = true := by
  rw [whiteSpace_eq]
  decide

theorem isVisible_of_isDigit {c : Char} (digit : c.isDigit = true) : isVisible c = true := by
  rw [Char.isDigit, Bool.and_eq_true, decide_eq_true_eq, decide_eq_true_eq] at digit
  have low : 48 ≤ c.toNat := digit.1
  have high : c.toNat ≤ 57 := digit.2
  rw [isVisible, Bool.and_eq_true, decide_eq_true_eq, decide_eq_true_eq]
  omega

namespace Cursor

theorem skipMany_append (position : Nat) (text rest : List Char) :
    ∃ behind, (Cursor.mk position (text ++ rest)).skipMany text.length = ⟨behind, rest⟩ := by
  induction text generalizing position with
  | nil => exact ⟨position, rfl⟩
  | cons c text inductionHypothesis => exact inductionHypothesis (position + c.utf8Size)

theorem span_append {member : Char → Bool} {text rest : List Char} (position : Nat)
    (inside : ∀ c ∈ text, member c = true) (stops : StopsAt member rest) :
    ∃ behind, (Cursor.mk position (text ++ rest)).span member = (text, ⟨behind, rest⟩) := by
  obtain ⟨behind, skipped⟩ := skipMany_append position text rest
  refine ⟨behind, ?_⟩
  rw [span, takeWhile_append inside stops, skipped]

end Cursor

/-- A text with a backslash in front of each quote. -/
def escapedFor (quote : Char) (text : List Char) : List Char :=
  text.flatMap fun c => if c = quote then ['\\', c] else [c]

theorem escapedFor_cons (quote c : Char) (text : List Char) : escapedFor quote (c :: text) =
    (if c = quote then ['\\', c] else [c]) ++ escapedFor quote text := rfl

theorem escapedFor_of_notMem {quote : Char} {text : List Char} (none : quote ∉ text) :
    escapedFor quote text = text := by
  induction text with
  | nil => rfl
  | cons c rest inductionHypothesis =>
      rw [List.mem_cons, not_or] at none
      rw [escapedFor_cons, if_neg (Ne.symm none.1), inductionHypothesis none.2]
      rfl

theorem mem_escapedFor_iff {quote c : Char} {text : List Char} (notBackslash : c ≠ '\\') :
    c ∈ escapedFor quote text ↔ c ∈ text := by
  have each : ∀ other, c ∈ (if other = quote then ['\\', other] else [other]) ↔ c = other := by
    intro other
    split
    · rw [List.mem_cons, List.mem_singleton]
      exact or_iff_right notBackslash
    · exact List.mem_singleton
  rw [escapedFor, List.mem_flatMap]
  constructor
  · rintro ⟨other, isOther, isHere⟩
    rw [(each other).mp isHere]
    exact isOther
  · exact fun isIn => ⟨c, isIn, (each c).mpr rfl⟩

namespace Path

theorem skipBlanks_visible {position : Nat} {c : Char} {rest : List Char}
    (visible : isVisible c = true) : skipBlanks ⟨position, c :: rest⟩ = ⟨position, c :: rest⟩ := by
  rw [skipBlanks, Cursor.span, List.takeWhile_cons_of_neg]
  · rfl
  · rw [whiteSpace_of_isVisible visible]
    exact Bool.false_ne_true

theorem skipBlanks_blank {position : Nat} {c : Char} {rest : List Char}
    (visible : isVisible c = true) :
    skipBlanks ⟨position, ' ' :: c :: rest⟩ = ⟨position + ' '.utf8Size, c :: rest⟩ := by
  rw [skipBlanks, Cursor.span, List.takeWhile_cons_of_pos whiteSpace_blank,
    List.takeWhile_cons_of_neg]
  · rfl
  · rw [whiteSpace_of_isVisible visible]
    exact Bool.false_ne_true

/-- Whether a reader takes a text to mean a value, wherever the text begins. -/
def Reads {α : Type} (reader : Cursor → Except PathProblem (α × Cursor)) (text : List Char)
    (value : α) (rest : List Char) : Prop :=
  ∀ position, ∃ behind, reader ⟨position, text ++ rest⟩ = .ok (value, ⟨behind, rest⟩)

/-! ## Quoted texts -/

theorem ne_backslash {c : Char} {rest : List Char} (notLast : c = '\\' → rest = [] → False)
    (notEscape : ∀ d others, c = '\\' → rest = d :: others → False) : c ≠ '\\' := by
  intro same
  cases rest with
  | nil => exact notLast same rfl
  | cons d others => exact notEscape d others same rfl

theorem readQuotedAux_plain {quote c : Char} {rest : List Char} (position : Nat)
    (read : List Char) (noQuote : c ≠ quote) (noBackslash : c ≠ '\\') :
    readQuotedAux quote position read (c :: rest) =
      readQuotedAux quote (position + c.utf8Size) (c :: read) rest := by
  rw [readQuotedAux]
  · rw [if_neg noQuote]
  · intro same _
    exact noBackslash same
  · intro other more same _
    exact noBackslash same

theorem readQuotedAux_close {quote : Char} (noBackslash : quote ≠ '\\') (position : Nat)
    (read rest : List Char) :
    readQuotedAux quote position read (quote :: rest) =
      .ok (String.ofList read.reverse, ⟨position + quote.utf8Size, rest⟩) := by
  rw [readQuotedAux]
  · rw [if_pos rfl]
  · intro same _
    exact noBackslash same
  · intro other more same _
    exact noBackslash same

/-- An escaped quote or backslash stands for itself. -/
theorem readQuotedAux_escaped {c : Char} {rest : List Char} (position : Nat) (read : List Char)
    (special : c = '\'' ∨ c = '\\') :
    readQuotedAux '\'' position read ('\\' :: c :: rest) =
      readQuotedAux '\'' (position + 1 + c.utf8Size) (c :: read) rest := by
  rw [readQuotedAux]
  rcases special with rfl | rfl
  · simp
  · simp

/-- A backslash in front of any other character stays. -/
theorem readQuotedAux_kept {c : Char} {rest : List Char} (position : Nat) (read : List Char)
    (noQuote : c ≠ '\'') (noBackslash : c ≠ '\\') :
    readQuotedAux '\'' position read ('\\' :: c :: rest) =
      readQuotedAux '\'' (position + 1 + c.utf8Size) (c :: '\\' :: read) rest := by
  rw [readQuotedAux]
  simp [noQuote, noBackslash]

/-- The characters of a text as they stand between quotes. -/
def escapedForPath (text : List Char) : List Char :=
  text.flatMap fun c => if c = '\\' || c = '\'' then ['\\', c] else [c]

theorem readQuotedAux_escapedForPath (text read rest : List Char) (position : Nat) :
    ∃ behind, readQuotedAux '\'' position read (escapedForPath text ++ '\'' :: rest) =
      .ok (String.ofList (read.reverse ++ text), ⟨behind, rest⟩) := by
  induction text generalizing read position with
  | nil =>
      refine ⟨position + '\''.utf8Size, ?_⟩
      rw [escapedForPath, List.flatMap_nil, List.nil_append, readQuotedAux_close (by decide),
        List.append_nil]
  | cons c text inductionHypothesis =>
      have longer : read.reverse ++ c :: text = (c :: read).reverse ++ text := by simp
      rw [longer]
      by_cases special : c = '\'' ∨ c = '\\'
      · obtain ⟨behind, later⟩ :=
          inductionHypothesis (c :: read) (position + 1 + c.utf8Size)
        refine ⟨behind, ?_⟩
        have first : escapedForPath (c :: text) = '\\' :: c :: escapedForPath text := by
          simp [escapedForPath, Or.comm.mp special]
        rw [first, List.cons_append, List.cons_append, readQuotedAux_escaped _ _ special, later]
      · rw [not_or] at special
        obtain ⟨behind, later⟩ := inductionHypothesis (c :: read) (position + c.utf8Size)
        refine ⟨behind, ?_⟩
        have first : escapedForPath (c :: text) = c :: escapedForPath text := by
          simp [escapedForPath, special]
        rw [first, List.cons_append, readQuotedAux_plain _ _ special.1 special.2, later]

theorem toList_quoteForPath (text : String) :
    (quoteForPath text).toList = '\'' :: (escapedForPath text.toList ++ ['\'']) := by
  simp [quoteForPath, escapedForPath]

/-- A quoted text reads back. -/
theorem reads_quoted (text : String) (rest : List Char) :
    Reads (readQuoted '\'') (escapedForPath text.toList ++ ['\'']) text rest := by
  intro position
  obtain ⟨behind, read⟩ := readQuotedAux_escapedForPath text.toList [] rest position
  refine ⟨behind, ?_⟩
  rw [readQuoted, List.append_assoc, List.singleton_append, read]
  simp

/-! ## Regular expressions -/

theorem readBodyAux_plain {c : Char} (noSlash : c ≠ '/') (noBackslash : c ≠ '\\') (position : Nat)
    (read rest : List Char) :
    readBodyAux position read (c :: rest) =
      readBodyAux (position + c.utf8Size) (c :: read) rest := by
  rw [readBodyAux]
  · rw [if_neg noSlash]
  · intro same _
    exact noBackslash same
  · intro other others same _
    exact noBackslash same

theorem readBodyAux_escape {c : Char} (noSlash : c ≠ '/') (position : Nat)
    (read rest : List Char) :
    readBodyAux position read ('\\' :: c :: rest) =
      readBodyAux (position + 1 + c.utf8Size) (c :: '\\' :: read) rest := by
  rw [readBodyAux, if_neg noSlash]

theorem readBodyAux_close (position : Nat) (read rest : List Char) :
    readBodyAux position read ('/' :: rest) =
      .ok (String.ofList read.reverse, ⟨position + 1, rest⟩) := by
  rw [readBodyAux]
  · rw [if_pos rfl]
  · intro same
    exact absurd same (by decide)
  · intro other others same
    exact absurd same (by decide)

/-! ## Names -/

/-- Whether no backslash of a name stands in front of a quote, of another
backslash or at the end.  In a wrapped name only quotes are escaped, so such a
backslash would be read as the mark of an escape. -/
def keepsBackslashes : List Char → Bool
  | [] => true
  | '\\' :: [] => false
  | '\\' :: c :: rest => c != '\\' && c != '\'' && keepsBackslashes rest
  | _ :: rest => keepsBackslashes rest

theorem keepsBackslashes_of_notMem {name : List Char} (none : '\\' ∉ name) :
    keepsBackslashes name = true := by
  induction name using keepsBackslashes.induct with
  | case1 => rfl
  | case2 => exact absurd List.mem_cons_self none
  | case3 c rest _ => exact absurd List.mem_cons_self none
  | case4 c rest noEnd noEscape inductionHypothesis =>
      rw [keepsBackslashes]
      · exact inductionHypothesis fun member => none (List.mem_cons_of_mem c member)
      · exact noEnd
      · exact noEscape

theorem readQuotedAux_escapedFor {name : List Char} (readable : keepsBackslashes name = true)
    (read rest : List Char) (position : Nat) :
    ∃ behind, readQuotedAux '\'' position read (escapedFor '\'' name ++ '\'' :: rest) =
      .ok (String.ofList (read.reverse ++ name), ⟨behind, rest⟩) := by
  induction name using keepsBackslashes.induct generalizing read position with
  | case1 =>
      refine ⟨position + '\''.utf8Size, ?_⟩
      rw [escapedFor, List.flatMap_nil, List.nil_append, readQuotedAux_close (by decide),
        List.append_nil]
  | case2 => exact absurd readable (by decide)
  | case3 c name inductionHypothesis =>
      simp only [keepsBackslashes, Bool.and_eq_true, bne_iff_ne, ne_eq] at readable
      obtain ⟨⟨noBackslash, noQuote⟩, readable⟩ := readable
      have longer : read.reverse ++ '\\' :: c :: name =
          (c :: '\\' :: read).reverse ++ name := by simp
      have first : escapedFor '\'' ('\\' :: c :: name) = '\\' :: c :: escapedFor '\'' name := by
        simp [escapedFor, noQuote]
      obtain ⟨behind, later⟩ := inductionHypothesis readable (c :: '\\' :: read)
        (position + 1 + c.utf8Size)
      refine ⟨behind, ?_⟩
      rw [longer, first, List.cons_append, List.cons_append,
        readQuotedAux_kept _ _ noQuote noBackslash, later]
  | case4 c name noEnd noEscape inductionHypothesis =>
      rw [keepsBackslashes.eq_4 _ _ noEnd noEscape] at readable
      have longer : read.reverse ++ c :: name = (c :: read).reverse ++ name := by simp
      rw [longer]
      by_cases quote : c = '\''
      · have first : escapedFor '\'' (c :: name) = '\\' :: c :: escapedFor '\'' name := by
          simp [escapedFor, quote]
        obtain ⟨behind, later⟩ := inductionHypothesis readable (c :: read)
          (position + 1 + c.utf8Size)
        refine ⟨behind, ?_⟩
        rw [first, List.cons_append, List.cons_append, readQuotedAux_escaped _ _ (Or.inl quote),
          later]
      · have noBackslash := ne_backslash noEnd noEscape
        have first : escapedFor '\'' (c :: name) = c :: escapedFor '\'' name := by
          simp [escapedFor, quote]
        obtain ⟨behind, later⟩ := inductionHypothesis readable (c :: read)
          (position + c.utf8Size)
        refine ⟨behind, ?_⟩
        rw [first, List.cons_append, readQuotedAux_plain _ _ quote noBackslash, later]

theorem reads_escapedName {name : String} (readable : keepsBackslashes name.toList = true)
    (rest : List Char) :
    Reads (readQuoted '\'') (escapedFor '\'' name.toList ++ ['\'']) name rest := by
  intro position
  obtain ⟨behind, read⟩ := readQuotedAux_escapedFor readable [] rest position
  refine ⟨behind, ?_⟩
  rw [readQuoted, List.append_assoc, List.singleton_append, read]
  simp

theorem toList_wrap_of_not_whole {name : String} (notWhole : isWholeNumber name = false) :
    (NameStyle.bracketed.wrap name).toList =
      '[' :: '\'' :: (escapedFor '\'' name.toList ++ ['\'', ']']) := by
  simp [NameStyle.wrap, notWhole, escapedFor]

theorem wrap_of_whole {name : String} (whole : isWholeNumber name = true) :
    NameStyle.bracketed.wrap name = name := by
  simp [NameStyle.wrap, whole]

/-- A character of a whole number. -/
def IsWholeChar (c : Char) : Prop := c = '-' ∨ c = '+' ∨ c.isDigit = true

theorem chars_of_digitsValue? {digits : List Char} {number : Nat}
    (read : digitsValue? digits = some number) :
    digits ≠ [] ∧ ∀ c ∈ digits, c.isDigit = true := by
  rw [digitsValue?] at read
  split at read
  · rename_i valid
    rw [Bool.and_eq_true, List.all_eq_true] at valid
    refine ⟨?_, valid.2⟩
    intro empty
    rw [empty] at valid
    exact absurd valid.1 (by decide)
  · cases read

/-- A whole number begins with a sign or a digit, and digits follow. -/
theorem chars_of_isWholeNumber {name : String} (whole : isWholeNumber name = true) :
    ∃ first rest, name.toList = first :: rest ∧ IsWholeChar first ∧
      ∀ c ∈ rest, c.isDigit = true := by
  have some_ : ∃ value, signedWhole? name = some value := by
    rw [isWholeNumber, wholeBetween?] at whole
    cases read : signedWhole? name with
    | none => simp [read] at whole
    | some value => exact ⟨value, rfl⟩
  obtain ⟨value, read⟩ := some_
  rw [signedWhole?] at read
  split at read
  · rename_i digits same
    cases valid : digitsValue? digits with
    | none => simp [valid] at read
    | some magnitude => exact ⟨'-', digits, same, Or.inl rfl, (chars_of_digitsValue? valid).2⟩
  · rename_i digits same
    obtain ⟨magnitude, valid, -⟩ := Option.map_eq_some_iff.mp read
    exact ⟨'+', digits, same, Or.inr (Or.inl rfl), (chars_of_digitsValue? valid).2⟩
  · obtain ⟨magnitude, valid, -⟩ := Option.map_eq_some_iff.mp read
    obtain ⟨filled, digits⟩ := chars_of_digitsValue? valid
    cases chars : name.toList with
    | nil => exact absurd chars filled
    | cons first rest =>
        rw [chars] at digits
        exact ⟨first, rest, rfl, Or.inr (Or.inr (digits first List.mem_cons_self)),
          fun c member => digits c (List.mem_cons_of_mem first member)⟩

theorem isVisible_of_isWholeChar {c : Char} (whole : IsWholeChar c) : isVisible c = true := by
  rcases whole with rfl | rfl | digit
  · decide
  · decide
  · exact isVisible_of_isDigit digit

/-- The characters that end a name, inside a filter or outside of it, unless they are
blank. -/
def nameEnds : List Char := ['.', '[', '(', ')', '=', '!', '<', '>', '&', '|', ',']

theorem endsName_of_notMem {c : Char} (inFilter : Bool) (visible : isVisible c = true)
    (inside : c ∉ nameEnds) : endsName inFilter c = false := by
  have operators : "()=!<>&|,".toList = ['(', ')', '=', '!', '<', '>', '&', '|', ','] := by decide
  simp only [nameEnds, List.mem_cons, List.not_mem_nil, or_false, not_or] at inside
  simp [endsName, whiteSpace_of_isVisible visible, operators, inside]

theorem endsName_of_isWholeChar {c : Char} (inFilter : Bool) (whole : IsWholeChar c) :
    endsName inFilter c = false := by
  apply endsName_of_notMem inFilter (isVisible_of_isWholeChar whole)
  have noWhole : (nameEnds.all fun other =>
      other != '-' && other != '+' && !other.isDigit) = true := by decide
  intro isEnd
  have other := List.all_eq_true.mp noWhole c isEnd
  rcases whole with rfl | rfl | digit
  · cases other
  · cases other
  · rw [digit, Bool.not_true, Bool.and_false] at other
    cases other

theorem endsName_of_isAlpha {c : Char} (inFilter : Bool) (letter : c.isAlpha = true) :
    endsName inFilter c = false := by
  apply endsName_of_notMem inFilter
  · have upper : c.isUpper = true → 'A'.val ≤ c.val ∧ c.val ≤ 'Z'.val := of_decide_eq_true
    have lower : c.isLower = true → 'a'.val ≤ c.val ∧ c.val ≤ 'z'.val := by
      intro isLower
      have both : (decide ('a'.val ≤ c.val) && decide (c.val ≤ 'z'.val)) = true := isLower
      rw [Bool.and_eq_true, decide_eq_true_eq, decide_eq_true_eq] at both
      exact both
    have code : 65 ≤ c.toNat ∧ c.toNat ≤ 90 ∨ 97 ≤ c.toNat ∧ c.toNat ≤ 122 :=
      ((Bool.or_eq_true c.isUpper c.isLower).mp letter).imp upper lower
    rw [isVisible, Bool.and_eq_true, decide_eq_true_eq, decide_eq_true_eq]
    omega
  · have noLetter : (nameEnds.all fun other => !other.isAlpha) = true := by decide
    intro isEnd
    have other := List.all_eq_true.mp noLetter c isEnd
    rw [letter] at other
    cases other

/-- The name of a whole number is read as it is where something follows that
ends a name. -/
theorem reads_wholeName {name : String} (whole : isWholeNumber name = true) {inFilter : Bool}
    {rest : List Char} (ends : StopsAt (fun c => !endsName inFilter c) rest) :
    Reads (readName inFilter) name.toList name rest := by
  intro position
  obtain ⟨first, others, same, isWhole, digits⟩ := chars_of_isWholeNumber whole
  have inside : ∀ c ∈ name.toList, (!endsName inFilter c) = true := by
    intro c member
    rw [same, List.mem_cons] at member
    have wholeChar : IsWholeChar c := by
      rcases member with rfl | member
      · exact isWhole
      · exact Or.inr (Or.inr (digits c member))
    rw [endsName_of_isWholeChar inFilter wholeChar, Bool.not_false]
  obtain ⟨behind, span⟩ := Cursor.span_append position inside ends
  refine ⟨behind, ?_⟩
  have filled : name.toList.isEmpty = false := by rw [same, List.isEmpty_cons]
  rw [readName, span]
  simp only [filled, Bool.false_eq_true, if_false, String.ofList_toList]

/-! ## Positions -/

/-- The digits of a position are read in front of a closing bracket, and refused
where the position is out of range. -/
theorem readPosition_digits (index position : Nat) (rest : List Char) :
    ∃ behind, readPosition ⟨position, Nat.toDigits 10 index ++ ']' :: rest⟩ =
      if positionInRange index then .ok ((index : Int), ⟨behind, ']' :: rest⟩)
      else .error (.malformed behind (.invalidIndex (String.ofList (Nat.toDigits 10 index)))) := by
  have digits : ∀ c ∈ Nat.toDigits 10 index, c.isDigit = true :=
    fun c member => isDigit_of_mem_toDigits member
  have noSign : (Cursor.mk position (Nat.toDigits 10 index ++ ']' :: rest)).eat? '-' = none := by
    rw [Cursor.eat?, if_neg]
    rw [Cursor.peek?, List.head?_append]
    cases same : Nat.toDigits 10 index with
    | nil => exact absurd same Nat.toDigits_ne_nil
    | cons first more =>
        have digit : first.isDigit = true := digits first (by rw [same]; exact List.mem_cons_self)
        rw [List.head?_cons, Option.some_or, Option.some.injEq]
        intro isMinus
        rw [isMinus] at digit
        exact absurd digit (by decide)
  have stops : StopsAt Char.isDigit (']' :: rest) := stopsAt_cons (by decide) rest
  obtain ⟨behind, span⟩ := Cursor.span_append position digits stops
  have filled : (Nat.toDigits 10 index).isEmpty = false :=
    List.isEmpty_eq_false_iff.mpr Nat.toDigits_ne_nil
  refine ⟨behind, ?_⟩
  rw [readPosition, noSign]
  cases inRange : positionInRange (index : Int) with
  | true => simp [span, Cursor.peek?, filled, inRange]
  | false => simp [span, Cursor.peek?, filled, inRange, fail]

theorem reads_position {index : Nat} (small : index < twoTo 63) (rest : List Char) :
    Reads readPosition (Nat.toDigits 10 index) (index : Int) (']' :: rest) := by
  intro position
  have inRange : positionInRange (index : Int) = true := by
    rw [positionInRange, Bool.and_eq_true, decide_eq_true_eq, decide_eq_true_eq]
    omega
  obtain ⟨behind, read⟩ := readPosition_digits index position rest
  rw [if_pos inRange] at read
  exact ⟨behind, read⟩

end Path

end BodyContract
