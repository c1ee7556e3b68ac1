import BodyContract.Proofs.CharSet.Algebra
import BodyContract.Proofs.Pattern.Composition

/-!
# Bracket classes

The items of a bracket class are characters, ranges, escapes for several characters
and classes again.  Written one behind the other in brackets they are read as one
set, which holds the characters that some item stands for, or all others behind a
caret, at every depth.
-/

namespace BodyContract

namespace Pattern

/-! ## Classes as they are written -/

/-- The escapes that stand for several characters. -/
inductive Shorthand where
  | digit
  | nonDigit
  | word
  | nonWord
  | space
  | nonSpace
deriving DecidableEq, Repr

/-- The code points with the Unicode property `White_Space`. -/
def whiteSpacePoints : List Nat :=
  [0x09, 0x0A, 0x0B, 0x0C, 0x0D, 0x20, 0x85, 0xA0, 0x1680, 0x2000, 0x2001, 0x2002, 0x2003, 0x2004,
    0x2005, 0x2006, 0x2007, 0x2008, 0x2009, 0x200A, 0x2028, 0x2029, 0x202F, 0x205F, 0x3000]

namespace Shorthand

def letter : Shorthand → Char
  | digit => 'd'
  | nonDigit => 'D'
  | word => 'w'
  | nonWord => 'W'
  | space => 's'
  | nonSpace => 'S'

/-- Whether an escape stands for a character.  The last one leaves out all white space,
which is more than the blanks of the one before. -/
def denotes (c : Char) : Shorthand → Bool
  | digit => c.isDigit
  | nonDigit => !c.isDigit
  | word => c.isAlphanum || c == '_'
  | nonWord => !(c.isAlphanum || c == '_')
  | space => [' ', '\t', '\r', '\n'].contains c
  | nonSpace => !whiteSpacePoints.contains c.toNat

end Shorthand

/-- An item of a bracket class. -/
inductive ClassItem where
  | char (c : Char)
  | range (low high : Char) (ordered : low ≤ high)
  | shorthand (kind : Shorthand)
  /-- A class of items again, of which there is one at least. -/
  | nested (isNegated : Bool) (first : ClassItem) (others : List ClassItem)

/-- A character in a class: a letter or digit as it is, any other one behind a backslash. -/
def charText (c : Char) : List Char := if c.isAlphanum then [c] else ['\\', c]

/-- The inside of a class from the caret on, if there is one, to the closing bracket. -/
def classInside (isNegated : Bool) (items : List Char) : List Char :=
  (if isNegated then ['^'] else []) ++ (items ++ [']'])

mutual

/-- An item as it is written. -/
def ClassItem.text : ClassItem → List Char
  | .char c => charText c
  | .range low high _ => charText low ++ '-' :: charText high
  | .shorthand kind => ['\\', kind.letter]
  | .nested isNegated first others =>
      '[' :: classInside isNegated (first.text ++ textOfItems others)

/-- Items one behind the other. -/
def textOfItems : List ClassItem → List Char
  | [] => []
  | item :: rest => item.text ++ textOfItems rest

end

mutual

/-- Whether an item stands for a character. -/
def ClassItem.denotes (c : Char) : ClassItem → Bool
  | .char other => c == other
  | .range low high _ => low ≤ c && c ≤ high
  | .shorthand kind => kind.denotes c
  | .nested isNegated first others =>
      if isNegated then !(first.denotes c || denotesAny c others)
      else first.denotes c || denotesAny c others

/-- Whether one of some items stands for a character. -/
def denotesAny (c : Char) : List ClassItem → Bool
  | [] => false
  | item :: rest => item.denotes c || denotesAny c rest

end

theorem denotesAny_eq_any (c : Char) (items : List ClassItem) :
    denotesAny c items = items.any fun item => item.denotes c := by
  induction items with
  | nil => rfl
  | cons item rest inductionHypothesis =>
      rw [denotesAny, List.any_cons, inductionHypothesis]

/-! ## Sets of characters -/

theorem only?_single (c : Char) : (CharSet.single c).only? = some c := by
  rw [CharSet.only?, CharSet.ranges_single]
  simp only [if_true, Char.ofNat_toNat]

theorem contains_range (low high c : Char) :
    (CharSet.range low high).contains c = (low ≤ c && c ≤ high : Bool) := by
  rw [CharSet.range, CharSet.contains_ofRanges]
  simp [Interval.contains, Char.le_def, UInt32.le_iff_toNat_le]

theorem contains_single (c other : Char) : (CharSet.single other).contains c = (c == other) := by
  rw [Bool.eq_iff_iff, CharSet.contains_single_iff, beq_iff_eq]

theorem contains_digit (c : Char) : CharSet.digit.contains c = c.isDigit := by
  rw [CharSet.digit, contains_range]
  rfl

theorem contains_word (c : Char) : CharSet.word.contains c = (c.isAlphanum || c == '_') := by
  have point : '_'.toNat = 95 := rfl
  rw [CharSet.word, CharSet.contains_ofRanges, Bool.eq_iff_iff]
  simp only [List.any_cons, List.any_nil, Bool.or_false, Interval.contains, Char.isAlphanum,
    Char.isAlpha, Char.isUpper, Char.isLower, Char.isDigit, Bool.and_eq_true, Bool.or_eq_true,
    decide_eq_true_eq, ge_iff_le, UInt32.le_iff_toNat_le, Char.toNat_val, beq_iff_eq,
    ← Char.toNat_inj]
  omega

theorem contains_space (c : Char) :
    CharSet.space.contains c = [' ', '\t', '\r', '\n'].contains c := by
  have blank : ' '.toNat = 0x20 := rfl
  have tab : '\t'.toNat = 0x09 := rfl
  have back : '\r'.toNat = 0x0D := rfl
  have feed : '\n'.toNat = 0x0A := rfl
  rw [CharSet.space, CharSet.contains_ofRanges, Bool.eq_iff_iff, List.contains_iff_mem]
  simp only [List.any_cons, List.any_nil, Bool.or_false, Interval.contains, Bool.and_eq_true,
    Bool.or_eq_true, decide_eq_true_eq, List.mem_cons, List.not_mem_nil, or_false,
    ← Char.toNat_inj]
  omega

theorem contains_whiteSpace (c : Char) :
    CharSet.whiteSpace.contains c = whiteSpacePoints.contains c.toNat := by
  rw [CharSet.whiteSpace, CharSet.contains_ofRanges, Bool.eq_iff_iff, List.contains_iff_mem,
    whiteSpacePoints]
  simp only [List.any_cons, List.any_nil, Bool.or_false, Interval.contains, Bool.and_eq_true,
    Bool.or_eq_true, decide_eq_true_eq, List.mem_cons, List.not_mem_nil, or_false]
  omega

/-- The set of an escape holds the characters that the escape stands for. -/
theorem exists_escaped?_letter (kind : Shorthand) :
    ∃ set : CharSet, escaped? kind.letter = some set ∧ set.IsCanonical ∧
      ∀ c, set.contains c = kind.denotes c := by
  have digit := CharSet.IsCanonical.ofIsBuilt CharSet.IsBuilt.digit
  have word := CharSet.IsCanonical.ofIsBuilt CharSet.IsBuilt.word
  have whiteSpace : CharSet.whiteSpace.IsCanonical := .ofRanges _
  cases kind with
  | digit => exact ⟨_, rfl, digit, contains_digit⟩
  | nonDigit =>
      refine ⟨_, rfl, digit.compl, ?_⟩
      intro c
      rw [CharSet.contains_compl digit.spaced, contains_digit]
      rfl
  | word => exact ⟨_, rfl, word, contains_word⟩
  | nonWord =>
      refine ⟨_, rfl, word.compl, ?_⟩
      intro c
      rw [CharSet.contains_compl word.spaced, contains_word]
      rfl
  | space => exact ⟨_, rfl, .ofIsBuilt .space, contains_space⟩
  | nonSpace =>
      refine ⟨_, rfl, whiteSpace.compl, ?_⟩
      intro c
      rw [CharSet.nonSpace, CharSet.contains_compl whiteSpace.spaced, contains_whiteSpace]
      rfl

/-! ## Characters and ranges -/

theorem escaped?_of_not_isAlphanum {c : Char} (other : c.isAlphanum = false) :
    escaped? c = some (.single c) := by
  rw [escaped?.eq_def]
  split
  all_goals first
    | rfl
    | cases other

theorem ne_of_isAlphanum {c other : Char} (plain : c.isAlphanum = true)
    (special : other.isAlphanum = false) : c ≠ other := by
  rintro rfl
  rw [plain] at special
  cases special

/-- No character is written so that a hyphen, a caret or a closing bracket comes first. -/
theorem charText_begins (c : Char) (rest : List Char) : ∃ first others,
    charText c ++ rest = first :: others ∧ first ≠ '-' ∧ first ≠ ']' ∧ first ≠ '^' := by
  rw [charText]
  cases plain : c.isAlphanum with
  | true =>
      exact ⟨c, rest, rfl, ne_of_isAlphanum plain (by decide), ne_of_isAlphanum plain (by decide),
        ne_of_isAlphanum plain (by decide)⟩
  | false => exact ⟨'\\', c :: rest, rfl, by decide, by decide, by decide⟩

/-- Without a hyphen behind it an item is no range. -/
theorem readRange_alone {rest : List Char} (noHyphen : rest.head? ≠ some '-') (start position : Nat)
    (set : CharSet) : readRange start set ⟨position, rest⟩ = .ok (set, ⟨position, rest⟩) := by
  have noRange : rangeFollows ⟨position, rest⟩ = false := by
    cases rest with
    | nil => rfl
    | cons c others =>
        have different : c ≠ '-' := by
          rintro rfl
          exact noHyphen rfl
        simp [rangeFollows, different]
  rw [readRange, noRange, if_neg Bool.false_ne_true]

theorem readRangeEnd_charText (c : Char) (position : Nat) (rest : List Char) :
    ∃ behind, readRangeEnd ⟨position, charText c ++ rest⟩ = .ok (c, ⟨behind, rest⟩) := by
  rw [charText]
  cases plain : c.isAlphanum with
  | true =>
      have noBackslash : c ≠ '\\' := ne_of_isAlphanum plain (by decide)
      refine ⟨position + c.utf8Size, ?_⟩
      simp [readRangeEnd, Cursor.peek?, Cursor.skip]
  | false =>
      refine ⟨position + '\\'.utf8Size + c.utf8Size, ?_⟩
      have escapes : readRangeEnd ⟨position, '\\' :: c :: rest⟩ =
          (readEscape position ⟨position + '\\'.utf8Size, c :: rest⟩ >>= fun result =>
            endRange position result.1 result.2) := rfl
      rw [if_neg Bool.false_ne_true, List.cons_append, List.singleton_append, escapes,
        readEscape_cons, escaped?_of_not_isAlphanum plain]
      simp only [bind, Except.bind, endRange, only?_single]

/-- A hyphen between two characters makes a range. -/
theorem readRange_charText {low high : Char} (ordered : low ≤ high) (start position : Nat)
    (rest : List Char) :
    ∃ behind, readRange start (.single low) ⟨position, '-' :: (charText high ++ rest)⟩ =
      .ok (.range low high, ⟨behind, rest⟩) := by
  obtain ⟨first, others, begins, -, noBracket, -⟩ := charText_begins high rest
  obtain ⟨behind, ends⟩ := readRangeEnd_charText high (position + '-'.utf8Size) rest
  have follows : rangeFollows ⟨position, '-' :: (charText high ++ rest)⟩ = true := by
    rw [begins]
    simp [rangeFollows]
  refine ⟨behind, ?_⟩
  rw [readRange, follows, if_pos rfl, only?_single]
  simp only [Cursor.skip, ends, bind, Except.bind, if_neg (Char.not_lt.mpr ordered)]

section Items

variable {fuel start : Nat} {isFirst : Bool} {found : CharSet}

/-- A character is read as the beginning of an item. -/
theorem readClassItems_charText (c : Char) (position : Nat) (rest : List Char) :
    ∃ behind, readClassItems (fuel + 1) start isFirst found ⟨position, charText c ++ rest⟩ =
      (do
        let (item, last) ← readRange position (.single c) ⟨behind, rest⟩
        readClassItems fuel start false (found.union item) last) := by
  rw [charText]
  cases plain : c.isAlphanum with
  | true =>
      refine ⟨position + c.utf8Size, ?_⟩
      rw [if_pos rfl, List.singleton_append,
        readClassItems_plain _ _ _ _ _ _ (ne_of_isAlphanum plain (by decide))
          (ne_of_isAlphanum plain (by decide)) (ne_of_isAlphanum plain (by decide))]
  | false =>
      refine ⟨position + '\\'.utf8Size + c.utf8Size, ?_⟩
      rw [if_neg Bool.false_ne_true, List.cons_append, List.singleton_append,
        readClassItems_escape, readEscape_cons, escaped?_of_not_isAlphanum plain]
      rfl

end Items

/-! ## Items one behind the other -/

/-- Whether an item is read as the set of the characters that it stands for, wherever
no hyphen follows. -/
def ReadsItem (item : ClassItem) : Prop :=
  ∀ fuel start isFirst found position rest, 2 * item.text.length ≤ fuel + 1 →
    rest.head? ≠ some '-' → ∃ set behind, set.IsCanonical ∧
      (∀ c, set.contains c = item.denotes c) ∧
        readClassItems (fuel + 1) start isFirst found ⟨position, item.text ++ rest⟩ =
          readClassItems fuel start false (found.union set) ⟨behind, rest⟩

/-- Whether items behind some others are read up to the end of their class. -/
def ReadsItems (items : List ClassItem) : Prop :=
  ∀ fuel start found position rest, 2 * (textOfItems items).length + 1 ≤ fuel →
    found.IsCanonical → ∃ set behind, set.IsCanonical ∧
      (∀ c, set.contains c = (found.contains c || denotesAny c items)) ∧
        readClassItems fuel start false found ⟨position, textOfItems items ++ ']' :: rest⟩ =
          .ok (set, ⟨behind, rest⟩)

theorem text_begins (item : ClassItem) (rest : List Char) : ∃ first others,
    item.text ++ rest = first :: others ∧ first ≠ '-' ∧ first ≠ ']' ∧ first ≠ '^' := by
  cases item with
  | char c => exact charText_begins c rest
  | range low high ordered =>
      rw [ClassItem.text, List.append_assoc]
      exact charText_begins low _
  | shorthand kind => exact ⟨'\\', _, rfl, by decide, by decide, by decide⟩
  | nested isNegated first others => exact ⟨'[', _, rfl, by decide, by decide, by decide⟩

theorem length_text_pos (item : ClassItem) : 0 < item.text.length := by
  obtain ⟨first, others, begins, -⟩ := text_begins item []
  rw [List.append_nil] at begins
  rw [begins]
  exact Nat.succ_pos _

theorem noHyphen_textOfItems (items : List ClassItem) (rest : List Char) :
    (textOfItems items ++ ']' :: rest).head? ≠ some '-' := by
  cases items with
  | nil =>
      rw [textOfItems]
      simp
  | cons item others =>
      obtain ⟨first, more, begins, noHyphen, -⟩ :=
        text_begins item (textOfItems others ++ ']' :: rest)
      rw [textOfItems, List.append_assoc, begins]
      simpa using noHyphen

theorem readsItem_char (c : Char) : ReadsItem (.char c) := by
  intro fuel start isFirst found position rest _ noHyphen
  obtain ⟨behind, isChar⟩ :=
    @readClassItems_charText fuel start isFirst found c position rest
  refine ⟨_, behind, .ofIsBuilt (.single c), fun other => contains_single other c, ?_⟩
  rw [ClassItem.text, isChar, readRange_alone noHyphen]
  rfl

theorem readsItem_range {low high : Char} (ordered : low ≤ high) :
    ReadsItem (.range low high ordered) := by
  intro fuel start isFirst found position rest _ _
  obtain ⟨middle, isLow⟩ := @readClassItems_charText fuel start isFirst found low position
    ('-' :: (charText high ++ rest))
  obtain ⟨behind, isRange⟩ := readRange_charText ordered position middle rest
  refine ⟨_, behind, .ofIsBuilt (.range low high), contains_range low high, ?_⟩
  rw [ClassItem.text, List.append_assoc, List.cons_append, isLow, isRange]
  rfl

theorem readsItem_shorthand (kind : Shorthand) : ReadsItem (.shorthand kind) := by
  intro fuel start isFirst found position rest _ noHyphen
  obtain ⟨set, stands, canonical, members⟩ := exists_escaped?_letter kind
  refine ⟨set, position + '\\'.utf8Size + kind.letter.utf8Size, canonical, members, ?_⟩
  rw [ClassItem.text, List.cons_append, List.singleton_append, readClassItems_escape,
    readEscape_cons, stands]
  simp only [bind, Except.bind, readRange_alone noHyphen]

theorem readsItems_nil : ReadsItems [] := by
  intro fuel start found position rest enough canonical
  cases fuel with
  | zero => omega
  | succ fuel =>
      refine ⟨found, position + ']'.utf8Size, canonical, ?_, ?_⟩
      · intro c
        rw [denotesAny, Bool.or_false]
      · rw [textOfItems, List.nil_append, readClassItems_close, if_neg Bool.false_ne_true]

theorem readsItems_cons {item : ClassItem} {items : List ClassItem} (reads : ReadsItem item)
    (later : ReadsItems items) : ReadsItems (item :: items) := by
  intro fuel start found position rest enough canonical
  have filled := length_text_pos item
  rw [textOfItems, List.length_append] at enough
  cases fuel with
  | zero => omega
  | succ fuel =>
      obtain ⟨set, middle, isCanonical, members, isItem⟩ :=
        reads fuel start false found position (textOfItems items ++ ']' :: rest) (by omega)
          (noHyphen_textOfItems items rest)
      obtain ⟨all, behind, allCanonical, allMembers, areItems⟩ :=
        later fuel start (found.union set) middle rest (by omega) (canonical.union isCanonical)
      refine ⟨all, behind, allCanonical, ?_, ?_⟩
      · intro c
        rw [allMembers, CharSet.contains_union, members, denotesAny, Bool.or_assoc]
      · rw [textOfItems, List.append_assoc, isItem, areItems]

section Inside

variable {first : ClassItem} {others : List ClassItem}

theorem readClassItems_opened (reads : ReadsItem first) (later : ReadsItems others)
    (fuel start position : Nat) (rest : List Char)
    (enough : 2 * (first.text.length + (textOfItems others).length) + 1 ≤ fuel) :
    ∃ set behind, set.IsCanonical ∧
      (∀ c, set.contains c = (first.denotes c || denotesAny c others)) ∧
        readClassItems fuel start true .empty
            ⟨position, first.text ++ (textOfItems others ++ ']' :: rest)⟩ =
          .ok (set, ⟨behind, rest⟩) := by
  have filled := length_text_pos first
  cases fuel with
  | zero => omega
  | succ fuel =>
      obtain ⟨set, middle, isCanonical, members, isItem⟩ :=
        reads fuel start true .empty position (textOfItems others ++ ']' :: rest) (by omega)
          (noHyphen_textOfItems others rest)
      obtain ⟨all, behind, allCanonical, allMembers, areItems⟩ :=
        later fuel start (CharSet.empty.union set) middle rest (by omega)
          (CharSet.IsCanonical.union (.ofIsBuilt .empty) isCanonical)
      refine ⟨all, behind, allCanonical, ?_, ?_⟩
      · intro c
        rw [allMembers, CharSet.contains_union, members]
        rfl
      · rw [isItem, areItems]

/-- A class is read as the set of what its items stand for, or as its complement. -/
theorem readClass_inside (reads : ReadsItem first) (later : ReadsItems others)
    (isNegated : Bool) (fuel start position : Nat) (rest : List Char)
    (enough : 2 * (first.text ++ textOfItems others).length + 2 ≤ fuel) :
    ∃ set behind, set.IsCanonical ∧
      (∀ c, set.contains c = (ClassItem.nested isNegated first others).denotes c) ∧
        readClass fuel start
            ⟨position, classInside isNegated (first.text ++ textOfItems others) ++ rest⟩ =
          .ok (set, ⟨behind, rest⟩) := by
  rw [List.length_append] at enough
  cases fuel with
  | zero => omega
  | succ fuel =>
      have items := fun place =>
        readClassItems_opened reads later fuel start place rest (by omega)
      cases isNegated with
      | true =>
          obtain ⟨set, behind, canonical, members, areItems⟩ := items (position + '^'.utf8Size)
          refine ⟨set.compl, behind, canonical.compl, ?_, ?_⟩
          · intro c
            rw [CharSet.contains_compl canonical.spaced, members, ClassItem.denotes, if_pos rfl]
          · rw [readClass, classInside, if_pos rfl, List.singleton_append, List.cons_append,
              Path.eat?_self, List.append_assoc, List.append_assoc, List.singleton_append]
            simp only [areItems, bind, Except.bind]
      | false =>
          obtain ⟨set, behind, canonical, members, areItems⟩ := items position
          obtain ⟨c, more, begins, -, -, noCaret⟩ :=
            text_begins first (textOfItems others ++ ']' :: rest)
          refine ⟨set, behind, canonical, ?_, ?_⟩
          · intro c
            rw [members, ClassItem.denotes, if_neg Bool.false_ne_true]
          · have noEat : (Cursor.mk position
                (first.text ++ (textOfItems others ++ ']' :: rest))).eat? '^' = none := by
              rw [begins]
              simp [Cursor.eat?, Cursor.peek?, noCaret]
            rw [readClass, classInside, if_neg Bool.false_ne_true, List.nil_append,
              List.append_assoc, List.append_assoc, List.singleton_append, noEat]
            exact areItems

theorem readsItem_nested (reads : ReadsItem first) (later : ReadsItems others)
    (isNegated : Bool) : ReadsItem (.nested isNegated first others) := by
  intro fuel start isFirst found position rest enough _
  rw [ClassItem.text, List.length_cons, classInside, List.length_append, List.length_append,
    List.length_singleton] at enough
  obtain ⟨set, behind, canonical, members, isClass⟩ := readClass_inside reads later isNegated fuel
    position (position + '['.utf8Size) rest (by omega)
  refine ⟨set, behind, canonical, members, ?_⟩
  rw [ClassItem.text, List.cons_append, readClassItems_class, isClass]
  rfl

end Inside

mutual

theorem readsItem (item : ClassItem) : ReadsItem item := by
  cases item with
  | char c => exact readsItem_char c
  | range low high ordered => exact readsItem_range ordered
  | shorthand kind => exact readsItem_shorthand kind
  | nested isNegated first others =>
      exact readsItem_nested (readsItem first) (readsItems others) isNegated

theorem readsItems (items : List ClassItem) : ReadsItems items := by
  cases items with
  | nil => exact readsItems_nil
  | cons item others => exact readsItems_cons (readsItem item) (readsItems others)

end

/-! ## Whole expressions -/

/-- A class is one atom.  It is read as the same set wherever it stands, since a set is
determined by its members. -/
theorem exists_isAtom_class (isNegated : Bool) (first : ClassItem) (others : List ClassItem) :
    ∃ set, IsAtom '[' (classInside isNegated (first.text ++ textOfItems others)) (.oneOf set) ∧
      ∀ c, set.contains c = (ClassItem.nested isNegated first others).denotes c := by
  have isRead := readClass_inside (readsItem first) (readsItems others) isNegated
  obtain ⟨set, -, canonical, members, -⟩ := isRead _ 0 0 [] le_rfl
  refine ⟨set, ⟨rfl, rfl, ?_⟩, members⟩
  intro fuel position rest enough
  rw [classInside, List.length_append, List.length_append, List.length_singleton] at enough
  cases fuel with
  | zero => omega
  | succ fuel =>
      obtain ⟨other, behind, otherCanonical, otherMembers, isClass⟩ :=
        isRead fuel position (position + '['.utf8Size) rest (by omega)
      have same : other = set := by
        apply otherCanonical.eq_of_contains canonical
        intro c
        rw [otherMembers, members]
      refine ⟨behind, ?_⟩
      rw [readAtom_class, isClass, same]
      rfl

theorem parse_brackets (isNegated : Bool) (first : ClassItem) (others : List ClassItem)
    {text : String}
    (isText : text.toList = '[' :: classInside isNegated (textOfItems (first :: others))) :
    ∃ set, parse text = .ok (.oneOf set) ∧
      ∀ c, set.contains c =
        (isNegated != (first :: others).any fun item => item.denotes c : Bool) := by
  obtain ⟨set, isAtom, members⟩ := exists_isAtom_class isNegated first others
  refine ⟨set, parse_item ?_, ?_⟩
  · rw [isText]
    exact isAtom.isItem
  · intro c
    rw [members, ClassItem.denotes, List.any_cons, ← denotesAny_eq_any]
    cases isNegated with
    | true => exact (Bool.true_bne _).symm
    | false => exact (Bool.false_bne _).symm

/-- Items in brackets are read as one set of characters: those that some item stands
for, and behind a caret all others. -/
theorem parse_class (first : ClassItem) (others : List ClassItem) :
    (∃ set, parse ("[" ++ String.ofList (textOfItems (first :: others)) ++ "]") = .ok (.oneOf set) ∧
      ∀ c, set.contains c = (first :: others).any fun item => item.denotes c) ∧
    ∃ set, parse ("[^" ++ String.ofList (textOfItems (first :: others)) ++ "]") = .ok (.oneOf set) ∧
      ∀ c, set.contains c = !(first :: others).any fun item => item.denotes c := by
  have plain : ("[" ++ String.ofList (textOfItems (first :: others)) ++ "]").toList =
      '[' :: classInside false (textOfItems (first :: others)) := by simp [classInside]
  have negated : ("[^" ++ String.ofList (textOfItems (first :: others)) ++ "]").toList =
      '[' :: classInside true (textOfItems (first :: others)) := by simp [classInside]
  constructor
  · obtain ⟨set, parsed, members⟩ := parse_brackets false first others plain
    refine ⟨set, parsed, ?_⟩
    intro c
    rw [members, Bool.false_bne]
  · obtain ⟨set, parsed, members⟩ := parse_brackets true first others negated
    refine ⟨set, parsed, ?_⟩
    intro c
    rw [members, Bool.true_bne]

end Pattern

end BodyContract
