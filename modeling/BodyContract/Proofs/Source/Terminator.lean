import Mathlib.Data.List.Basic
import BodyContract.Source.Indented

/-!
# Terminating a line

The terminator goes to the end of the last line, in front of a newline, unless that line
is closed.  Whether it is closed is seen from its last character alone: it is an opening
brace, the end of an empty line, or the terminator itself.  So a terminator of one
character is put once and never again.  A longer one is not known by its last character,
and it is put behind itself unless that character closes every line.
-/

namespace BodyContract

namespace IndentedText

/-! ## The newline at the end -/

/-- A text without the newline that ends it, if one does. -/
def beforeNewline (written : List Char) : List Char :=
  if written.getLast? = some '\n' then written.dropLast else written

/-- The newline that ends a text, if one does. -/
def finalNewline (written : List Char) : List Char :=
  if written.getLast? = some '\n' then ['\n'] else []

theorem beforeNewline_append_newline (written : List Char) :
    beforeNewline (written ++ ['\n']) = written := by
  rw [beforeNewline, List.getLast?_concat, if_pos rfl, List.dropLast_concat]

theorem finalNewline_append_newline (written : List Char) :
    finalNewline (written ++ ['\n']) = ['\n'] := by
  rw [finalNewline, List.getLast?_concat, if_pos rfl]

section Other

variable (front : List Char) {last : Char} (isOther : last ≠ '\n')

include isOther

theorem beforeNewline_append_other : beforeNewline (front ++ [last]) = front ++ [last] := by
  rw [beforeNewline, List.getLast?_concat, if_neg (mt Option.some.inj isOther)]

theorem finalNewline_append_other : finalNewline (front ++ [last]) = [] := by
  rw [finalNewline, List.getLast?_concat, if_neg (mt Option.some.inj isOther)]

end Other

theorem beforeNewline_append_finalNewline (written : List Char) :
    beforeNewline written ++ finalNewline written = written := by
  rw [beforeNewline, finalNewline]
  split
  · rename_i ends
    exact List.dropLast_append_getLast? '\n' ends
  · exact List.append_nil written

theorem finalNewline_cases (written : List Char) :
    finalNewline written = [] ∨ finalNewline written = ['\n'] := by
  rw [finalNewline]
  split
  · exact Or.inr rfl
  · exact Or.inl rfl

theorem beforeNewline_ne_nil {written : List Char} (long : 2 ≤ written.length) :
    beforeNewline written ≠ [] := by
  intro empty
  have whole := beforeNewline_append_finalNewline written
  rw [empty, List.nil_append] at whole
  rcases finalNewline_cases written with final | final <;> rw [← whole, final] at long
  · exact absurd long (by decide)
  · exact absurd long (by decide)

/-- Only the end of a text decides about its newline. -/
theorem beforeNewline_append (front : List Char) {back : List Char} (filled : back ≠ []) :
    beforeNewline (front ++ back) = front ++ beforeNewline back := by
  rw [beforeNewline, beforeNewline, List.getLast?_append_of_ne_nil front filled]
  split
  · exact List.dropLast_append_of_ne_nil filled
  · rfl

/-! ## Closed lines -/

variable {text : IndentedText}

/-- The terminator is not put behind a character. -/
def ClosesLine (text : IndentedText) (c : Char) : Prop :=
  c = '\x7b' ∨ c = '\n' ∨ text.terminator.toList = [c] ∨
    text.terminator = " " ∧ text.spacer.toList = [c]

/-- The last line is closed: a newline terminates it, or its last character closes it. -/
def IsClosed (text : IndentedText) : Prop :=
  text.terminator = "\n" ∧ finalNewline text.content.toList = ['\n'] ∨
    ∃ c ∈ (beforeNewline text.content.toList).getLast?, text.ClosesLine c

theorem singleton_eq_iff {c : Char} {other : String} :
    String.singleton c = other ↔ other.toList = [c] := by
  rw [← String.toList_inj, String.toList_singleton, eq_comm]

theorem isClosedBy_terminator_iff {c : Char} :
    text.isClosedBy text.terminator c = true ↔ text.ClosesLine c := by
  simp only [isClosedBy, ClosesLine, Bool.or_eq_true, Bool.and_eq_true, beq_iff_eq,
    singleton_eq_iff, or_true, and_true]
  constructor
  · rintro (((isBrace | ⟨isSpacer, same | blank⟩) | isTerminator) | isNewline)
    · exact Or.inl isBrace
    · exact Or.inr (Or.inr (Or.inl (same ▸ isSpacer)))
    · exact Or.inr (Or.inr (Or.inr ⟨blank, isSpacer⟩))
    · exact Or.inr (Or.inr (Or.inl isTerminator))
    · exact Or.inr (Or.inl isNewline)
  · rintro (isBrace | isNewline | isTerminator | ⟨blank, isSpacer⟩)
    · exact Or.inl (Or.inl (Or.inl isBrace))
    · exact Or.inr isNewline
    · exact Or.inl (Or.inr isTerminator)
    · exact Or.inl (Or.inl (Or.inr ⟨isSpacer, Or.inr blank⟩))

theorem isClosed_of_newline {front : List Char} (ends : text.content.toList = front ++ ['\n']) :
    text.IsClosed ↔ text.terminator = "\n" ∨ ∃ c ∈ front.getLast?, text.ClosesLine c := by
  rw [IsClosed, ends, finalNewline_append_newline, beforeNewline_append_newline]
  exact or_congr_left (and_iff_left rfl)

theorem isClosed_of_other {front : List Char} {last : Char} (isOther : last ≠ '\n')
    (ends : text.content.toList = front ++ [last]) : text.IsClosed ↔ text.ClosesLine last := by
  rw [IsClosed, ends, finalNewline_append_other front isOther,
    beforeNewline_append_other front isOther, List.getLast?_concat]
  simp

theorem not_isClosed_of_empty (empty : text.content.toList = []) : ¬ text.IsClosed := by
  rw [IsClosed, empty]
  simp [finalNewline, beforeNewline]

/-- What is asked of a text that ends with a newline. -/
theorem isClosed_iff_head? {before : List Char}
    (ends : text.content.toList = before.reverse ++ ['\n']) :
    text.IsClosed ↔ (text.terminator == "\n" ||
      (before.head?.map (text.isClosedBy text.terminator)).getD false) = true := by
  rw [isClosed_of_newline ends, List.getLast?_reverse, Bool.or_eq_true, beq_iff_eq]
  cases before.head? <;> simp [isClosedBy_terminator_iff]

/-- What is asked of a text that ends with another character. -/
theorem isClosed_iff_last {front : List Char} {last : Char} (isOther : last ≠ '\n')
    (ends : text.content.toList = front ++ [last]) :
    text.IsClosed ↔ (String.singleton last == text.terminator ||
      (text.isClosedBy text.terminator last && text.terminator == text.terminator)) = true := by
  have known : (String.singleton last == text.terminator) = true →
      text.isClosedBy text.terminator last = true := by
    rw [beq_iff_eq, singleton_eq_iff, isClosedBy_terminator_iff]
    exact fun isTerminator => Or.inr (Or.inr (Or.inl isTerminator))
  rw [isClosed_of_other isOther ends, beq_self_eq_true, Bool.and_true, Bool.or_eq_true,
    or_iff_right_of_imp known, isClosedBy_terminator_iff]

theorem append_eq_replaceContent (addition : String) : text.append addition =
    text.replaceContent (String.ofList (text.content.toList ++ addition.toList)) := by
  rw [append, replaceContent, ← String.toList_append, String.ofList_toList]

/-- Everything that terminating does: nothing to a closed line, and otherwise the terminator
is put in front of the newline at the end. -/
theorem terminate_cases (filled : text.terminator ≠ "") :
    text.IsClosed ∧ text.terminate = text ∨
      ¬ text.IsClosed ∧ text.terminate = text.replaceContent
        (String.ofList (beforeNewline text.content.toList ++
          (text.terminator.toList ++ finalNewline text.content.toList))) := by
  have notEmpty : ¬ text.terminator.isEmpty = true := by rwa [String.isEmpty_iff]
  rw [terminate, endWith, if_neg notEmpty]
  -- a text is empty, or it ends with a newline, or with another character
  split
  · rename_i empty
    rw [List.reverse_eq_nil_iff] at empty
    refine Or.inr ⟨not_isClosed_of_empty empty, ?_⟩
    rw [append_eq_replaceContent, empty]
    simp [finalNewline, beforeNewline]
  · rename_i before ends
    have whole : text.content.toList = before.reverse ++ ['\n'] := by
      rw [← List.reverse_cons, ← ends, List.reverse_reverse]
    have closed := isClosed_iff_head? whole
    split
    · rename_i isClosed
      exact Or.inl ⟨closed.mpr isClosed, rfl⟩
    · rename_i isOpen
      refine Or.inr ⟨mt closed.mp isOpen, ?_⟩
      rw [whole, beforeNewline_append_newline, finalNewline_append_newline]
      congr 1
      rw [← String.toList_inj]
      simp
  · rename_i last before noNewline ends
    have whole : text.content.toList = before.reverse ++ [last] := by
      rw [← List.reverse_cons, ← ends, List.reverse_reverse]
    have closed := isClosed_iff_last noNewline whole
    split
    · rename_i isClosed
      exact Or.inl ⟨closed.mpr isClosed, rfl⟩
    · rename_i isOpen
      refine Or.inr ⟨mt closed.mp isOpen, ?_⟩
      rw [append_eq_replaceContent, whole, beforeNewline_append_other before.reverse noNewline,
        finalNewline_append_other before.reverse noNewline, List.append_nil]

theorem length_terminator_ne_zero (filled : text.terminator ≠ "") :
    text.terminator.toList.length ≠ 0 := by
  rwa [ne_eq, List.length_eq_zero_iff, String.toList_eq_nil_iff]

theorem terminate_eq_self_iff (filled : text.terminator ≠ "") :
    text.terminate = text ↔ text.IsClosed := by
  obtain ⟨isClosed, same⟩ | ⟨isOpen, changed⟩ := terminate_cases filled
  · exact iff_of_true same isClosed
  · refine iff_of_false ?_ isOpen
    intro same
    have content := congrArg (fun other => other.content.toList.length) (changed.symm.trans same)
    have whole := congrArg List.length (beforeNewline_append_finalNewline text.content.toList)
    have letters := length_terminator_ne_zero filled
    simp only [replaceContent, String.toList_ofList, List.length_append] at content whole
    omega

theorem toList_content_terminate (filled : text.terminator ≠ "") (isOpen : ¬ text.IsClosed) :
    text.terminate.content.toList = beforeNewline text.content.toList ++
      (text.terminator.toList ++ finalNewline text.content.toList) := by
  obtain ⟨isClosed, -⟩ | ⟨-, changed⟩ := terminate_cases filled
  · exact absurd isClosed isOpen
  · rw [changed, replaceContent, String.toList_ofList]

/-! ## Terminating again -/

/-- A text ends with a character that closes every line. -/
def EndsClosed (written : List Char) : Prop :=
  ∃ c ∈ written.getLast?, c = '\x7b' ∨ c = '\n'

theorem endsClosed_append (front : List Char) {back : List Char} (filled : back ≠ []) :
    EndsClosed (front ++ back) ↔ EndsClosed back := by
  rw [EndsClosed, List.getLast?_append_of_ne_nil front filled, EndsClosed]

theorem terminator_terminate : text.terminate.terminator = text.terminator := by
  rw [terminate, endWith]
  repeat' split
  all_goals rfl

/-- A terminator of more than one character is not known by a single one. -/
theorem isClosed_iff_endsClosed (long : text.terminator.length ≠ 1) :
    text.IsClosed ↔ EndsClosed (beforeNewline text.content.toList) := by
  have noNewline : text.terminator ≠ "\n" := fun same => long (by rw [same]; rfl)
  have noBlank : text.terminator ≠ " " := fun same => long (by rw [same]; rfl)
  have noCharacter : ∀ c, text.terminator.toList ≠ [c] := by
    intro c same
    rw [← String.length_toList, same] at long
    exact long rfl
  simp only [IsClosed, ClosesLine, EndsClosed, noNewline, noBlank, noCharacter, false_and,
    false_or, or_false]

/-- A terminator of one character closes its line. -/
theorem isClosed_terminate_of_single (single : text.terminator.length = 1) :
    text.terminate.IsClosed := by
  obtain ⟨c, isCharacter⟩ := List.length_eq_one_iff.mp (String.length_toList.trans single)
  have filled : text.terminator ≠ "" := by
    intro empty
    rw [empty] at single
    cases single
  by_cases isClosed : text.IsClosed
  · rwa [(terminate_eq_self_iff filled).mpr isClosed]
  · have same : text.terminate.terminator.toList = [c] := by
      rw [terminator_terminate, isCharacter]
    have closes : text.terminate.ClosesLine c := Or.inr (Or.inr (Or.inl same))
    have whole := toList_content_terminate filled isClosed
    rw [isCharacter] at whole
    rcases finalNewline_cases text.content.toList with final | final
    · rw [final, List.append_nil] at whole
      -- a newline that terminates is the one at the end from now on
      by_cases isNewline : c = '\n'
      · rw [isNewline] at whole same
        exact (isClosed_of_newline whole).mpr (Or.inl (String.toList_inj.mp same))
      · exact (isClosed_of_other isNewline whole).mpr closes
    · rw [final, ← List.append_assoc] at whole
      exact (isClosed_of_newline whole).mpr (Or.inr ⟨c, List.getLast?_concat, closes⟩)

/-- What is written of a longer terminator closes its line by its last character. -/
theorem isClosed_terminate_of_long (filled : text.terminator ≠ "")
    (long : text.terminator.length ≠ 1) (isOpen : ¬ text.IsClosed) :
    text.terminate.IsClosed ↔ EndsClosed
      (beforeNewline (text.terminator.toList ++ finalNewline text.content.toList)) := by
  have letters := length_terminator_ne_zero filled
  have characters : text.terminator.toList.length ≠ 1 := by rwa [String.length_toList]
  have added : 2 ≤ (text.terminator.toList ++ finalNewline text.content.toList).length := by
    rw [List.length_append]
    omega
  have alsoLong : text.terminate.terminator.length ≠ 1 := by rwa [terminator_terminate]
  rw [isClosed_iff_endsClosed alsoLong, toList_content_terminate filled isOpen,
    beforeNewline_append _ (List.length_pos_iff.mp (by omega)),
    endsClosed_append _ (beforeNewline_ne_nil added)]

/-- Terminating a line once more changes nothing exactly if the first time changed nothing,
or the terminator is a single character, or what is written of it ends with an opening
brace or a newline.  A line that ends with the terminator already is left alone exactly if
the terminator is a single character or ends with one of these. -/
theorem terminate_terminate_iff (filled : text.terminator ≠ "") :
    (text.terminate.terminate = text.terminate ↔
        text.terminate = text ∨ text.terminator.length = 1 ∨ EndsClosed
          (beforeNewline (text.terminator.toList ++ finalNewline text.content.toList))) ∧
      (text.terminator.toList <:+ beforeNewline text.content.toList →
        (text.terminate = text ↔
          text.terminator.length = 1 ∨ EndsClosed text.terminator.toList)) := by
  have again : text.terminate.terminator ≠ "" := by rwa [terminator_terminate]
  have letters : text.terminator.toList ≠ [] := by rwa [ne_eq, String.toList_eq_nil_iff]
  rw [terminate_eq_self_iff again, terminate_eq_self_iff filled]
  refine ⟨?_, ?_⟩
  · by_cases single : text.terminator.length = 1
    · exact iff_of_true (isClosed_terminate_of_single single) (Or.inr (Or.inl single))
    · by_cases isClosed : text.IsClosed
      · rw [(terminate_eq_self_iff filled).mpr isClosed]
        exact iff_of_true isClosed (Or.inl isClosed)
      · rw [isClosed_terminate_of_long filled single isClosed, or_iff_right isClosed,
          or_iff_right single]
  · rintro ⟨front, ends⟩
    by_cases single : text.terminator.length = 1
    · obtain ⟨c, isCharacter⟩ := List.length_eq_one_iff.mp (String.length_toList.trans single)
      refine iff_of_true (Or.inr ⟨c, ?_, Or.inr (Or.inr (Or.inl isCharacter))⟩) (Or.inl single)
      rw [← ends, isCharacter]
      exact List.getLast?_concat
    · rw [isClosed_iff_endsClosed single, ← ends, endsClosed_append front letters,
        or_iff_right single]

/-- A terminated statement on a line of its own. -/
def terminatedCall : IndentedText := { empty "\t" ";" with content := "foo();\n" }

theorem terminatedCall_terminate : terminatedCall.terminator ≠ "" ∧
    terminatedCall.terminator.toList <:+ beforeNewline terminatedCall.content.toList ∧
      terminatedCall.terminate.terminate = terminatedCall.terminate ∧
        terminatedCall.terminate = terminatedCall := by
  have filled : terminatedCall.terminator ≠ "" := by decide
  have ends : terminatedCall.terminator.toList <:+ beforeNewline terminatedCall.content.toList :=
    ⟨"foo()".toList, by decide⟩
  have single : terminatedCall.terminator.length = 1 := rfl
  obtain ⟨twice, never⟩ := terminate_terminate_iff filled
  exact ⟨filled, ends, twice.mpr (Or.inr (Or.inl single)), (never ends).mpr (Or.inl single)⟩

/-- A statement with a terminator of two characters. -/
def openCall : IndentedText := { empty "\t" ";;" with content := "foo()" }

/-- A terminator of two characters is put behind itself. -/
theorem openCall_terminate_terminate : openCall.terminate.content = "foo();;" ∧
    openCall.terminate.terminate.content = "foo();;;;" :=
  ⟨rfl, rfl⟩

end IndentedText

end BodyContract
