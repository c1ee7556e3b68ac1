import Mathlib
import BodyContract.Pattern.Parser
import BodyContract.Proofs.Outcome
import BodyContract.Proofs.Path.Lookahead

/-!
# Shorthands written out

The shorthands of an expression are written out as bracket classes wherever their
two characters stand.  Where each of them is an escape, the longer text is read
as the same pattern.  This module follows the places of an expression from
character to character, and reads its classes; the next one reads the rest.
-/

namespace BodyContract

namespace Pattern

/-! ## Places of an expression -/

/-- Where a character of an expression stands. -/
inductive Place where
  | outside
  | quoted
  /-- Behind the bracket of a class that lies in `depth` others. -/
  | opened (depth : Nat)
  /-- In front of an item of a class. -/
  | item (depth : Nat)
  /-- Behind an item, which a hyphen makes the beginning of a range. -/
  | behindItem (depth : Nat)
  /-- Behind an item and a hyphen. -/
  | behindHyphen (depth : Nat)
deriving DecidableEq

namespace Place

/-- The place behind a class. -/
def closed : Nat → Place
  | 0 => .outside
  | depth + 1 => .item depth

/-- The place behind a character in front of which an item may begin. -/
def behindFirst (depth : Nat) (c : Char) : Place :=
  if c = '[' then .opened (depth + 1) else if c = ']' then closed depth else .behindItem depth

/-- The place behind a character that is no part of an escape. -/
def next : Place → Char → Place
  | .outside, c => if c = '[' then .opened 0 else if c = '"' then .quoted else .outside
  | .quoted, c => if c = '"' then .outside else .quoted
  | .opened depth, c => if c = '^' then .item depth else behindFirst depth c
  | .item depth, c => behindFirst depth c
  | .behindItem depth, c => if c = '-' then .behindHyphen depth else behindFirst depth c
  | .behindHyphen depth, c => if c = ']' then closed depth else .item depth

/-- The place behind an escape. -/
def behindEscape : Place → Place
  | .outside => .outside
  | .quoted => .quoted
  | .opened depth => .behindItem depth
  | .item depth => .behindItem depth
  | .behindItem depth => .behindItem depth
  | .behindHyphen depth => .item depth

end Place

/-- Whether a letter makes a shorthand behind a backslash. -/
def isShorthand (c : Char) : Bool := c == 'd' || c == 'w' || c == 's'

/-- Whether a text begins with the letter of a shorthand. -/
def opensShorthand (text : List Char) : Bool := text.head?.any isShorthand

/-- Whether the shorthands in a text are escapes of the expression: none stands in a
quoted text, and none begins with the second backslash of an escape. -/
def isClear : Place → List Char → Bool
  | _, [] => true
  | .quoted, c :: rest =>
      !(c == '\\' && opensShorthand rest) && isClear (Place.next .quoted c) rest
  | place, '\\' :: c :: rest =>
      !(c == '\\' && opensShorthand rest) && isClear place.behindEscape rest
  | place, c :: rest => isClear (place.next c) rest

theorem isClear_plain {place : Place} (unquoted : place ≠ .quoted) {c : Char}
    (noBackslash : c ≠ '\\') (rest : List Char) :
    isClear place (c :: rest) = isClear (place.next c) rest := by
  rw [isClear]
  · exact fun _ _ same _ => noBackslash same
  · exact unquoted

theorem isClear_escape {place : Place} (unquoted : place ≠ .quoted) (c : Char)
    (rest : List Char) : isClear place ('\\' :: c :: rest) =
      (!(c == '\\' && opensShorthand rest) && isClear place.behindEscape rest) := by
  rw [isClear]
  exact unquoted

/-! ## Expansion -/

/-- The bracket class of a shorthand. -/
def shorthandClass (c : Char) : List Char :=
  if c = 'd' then "[0-9]".toList
  else if c = 'w' then "[A-Za-z0-9_]".toList
  else "[ \t\r\n]".toList

theorem expand_cons (c : Char) (rest : List Char)
    (noShorthand : c = '\\' → opensShorthand rest = false) :
    expandShorthandsAux (c :: rest) = c :: expandShorthandsAux rest := by
  rw [expandShorthandsAux.eq_def]
  split
  · rename_i same
    cases same
  · rename_i same
    cases same
    cases noShorthand rfl
  · rename_i same
    cases same
    cases noShorthand rfl
  · rename_i same
    cases same
    cases noShorthand rfl
  · rename_i same
    cases same
    rfl

theorem expand_plain {c : Char} (noBackslash : c ≠ '\\') (rest : List Char) :
    expandShorthandsAux (c :: rest) = c :: expandShorthandsAux rest :=
  expand_cons c rest fun same => absurd same noBackslash

theorem expand_shorthand {c : Char} (shorthand : isShorthand c = true) (rest : List Char) :
    expandShorthandsAux ('\\' :: c :: rest) = shorthandClass c ++ expandShorthandsAux rest := by
  simp only [isShorthand, Bool.or_eq_true, beq_iff_eq] at shorthand
  rcases shorthand with (rfl | rfl) | rfl
  · rfl
  · rfl
  · rfl

/-- A backslash stays where no letter of a shorthand stands behind it. -/
theorem expand_backslash {rest : List Char} (noShorthand : opensShorthand rest = false) :
    expandShorthandsAux ('\\' :: rest) = '\\' :: expandShorthandsAux rest :=
  expand_cons '\\' rest fun _ => noShorthand

/-- An escape other than a shorthand stays. -/
theorem expand_escape {c : Char} {rest : List Char} (noShorthand : isShorthand c = false)
    (clear : (c == '\\' && opensShorthand rest) = false) :
    expandShorthandsAux ('\\' :: c :: rest) = '\\' :: c :: expandShorthandsAux rest := by
  have noLetter : opensShorthand (c :: rest) = false := noShorthand
  rw [expand_backslash noLetter]
  by_cases backslash : c = '\\'
  · subst backslash
    rw [expand_backslash clear]
  · rw [expand_plain backslash]

/-- What an expanded text begins with. -/
theorem expand_begins (c : Char) (rest : List Char) :
    ∃ first others, expandShorthandsAux (c :: rest) = first :: others ∧
      (first = c ∨ c = '\\' ∧ first = '[') := by
  by_cases backslash : c = '\\'
  · subst backslash
    cases opens : opensShorthand rest with
    | false => exact ⟨_, _, expand_backslash opens, Or.inl rfl⟩
    | true =>
        cases rest with
        | nil => cases opens
        | cons letter others =>
            have shorthand : isShorthand letter = true := opens
            have bracket : ∃ inside, shorthandClass letter = '[' :: inside := by
              simp only [isShorthand, Bool.or_eq_true, beq_iff_eq] at shorthand
              rcases shorthand with (rfl | rfl) | rfl
              · exact ⟨_, rfl⟩
              · exact ⟨_, rfl⟩
              · exact ⟨_, rfl⟩
            obtain ⟨inside, same⟩ := bracket
            rw [expand_shorthand shorthand, same]
            exact ⟨_, _, rfl, Or.inr ⟨rfl, rfl⟩⟩
  · exact ⟨_, _, expand_plain backslash rest, Or.inl rfl⟩

/-- Reading a character is the same in the expanded text. -/
theorem eat?_expand {c : Char} (noBackslash : c ≠ '\\') (noBracket : c ≠ '[')
    (position other : Nat) (rest : List Char) :
    (Cursor.mk other (expandShorthandsAux rest)).eat? c =
      ((Cursor.mk position rest).eat? c).map fun behind =>
        ⟨other + c.utf8Size, expandShorthandsAux behind.rest⟩ := by
  cases rest with
  | nil => rfl
  | cons first others =>
      by_cases same : first = c
      · subst same
        simp [Cursor.eat?, Cursor.peek?, Cursor.skip, expand_plain noBackslash]
      · obtain ⟨new, more, expanded, isFirst⟩ := expand_begins first others
        have different : new ≠ c := by
          rcases isFirst with rfl | ⟨-, rfl⟩
          · exact same
          · exact Ne.symm noBracket
        simp [Cursor.eat?, Cursor.peek?, expanded, same, different]

/-! ## Readers -/

variable {α β : Type}

/-- Whether a reader that goes from one place of a clear text to another one is
followed by a wider one in the expanded text. -/
def ReadsExpanded (place behind : Place) (reader wider : Cursor → Except PatternError (α × Cursor)) :
    Prop :=
  ∀ start value last, isClear place start.rest = true → reader start = .ok (value, last) →
    isClear behind last.rest = true ∧ ∀ position : Nat, ∃ next : Nat,
      wider ⟨position, expandShorthandsAux start.rest⟩ =
        .ok (value, ⟨next, expandShorthandsAux last.rest⟩)

theorem ReadsExpanded.bind {place middle behind : Place}
    {first firstWider : Cursor → Except PatternError (α × Cursor)}
    {second secondWider : α → Cursor → Except PatternError (β × Cursor)}
    (reads : ReadsExpanded place middle first firstWider)
    (later : ∀ value, ReadsExpanded middle behind (second value) (secondWider value)) :
    ReadsExpanded place behind (fun cursor => first cursor >>= fun result =>
        second result.1 result.2) (fun cursor => firstWider cursor >>= fun result =>
        secondWider result.1 result.2) := by
  intro start value last clear read
  obtain ⟨⟨found, between⟩, isFirst, isSecond⟩ := bind_eq_ok_iff.mp read
  obtain ⟨middleClear, goesOn⟩ := reads start found between clear isFirst
  obtain ⟨lastClear, ends⟩ := later found between value last middleClear isSecond
  refine ⟨lastClear, ?_⟩
  intro position
  obtain ⟨next, same⟩ := goesOn position
  obtain ⟨final, sameToo⟩ := ends next
  refine ⟨final, ?_⟩
  dsimp only
  rw [same]
  exact sameToo

/-! ## Ranges and classes -/

theorem readEscape_cons (start position : Nat) (c : Char) (rest : List Char) :
    readEscape start ⟨position, c :: rest⟩ = match escaped? c with
      | none => .error (.unsupported start ("\\" ++ c.toString))
      | some set => .ok (set, ⟨position + c.utf8Size, rest⟩) := (rfl)

/-- The class of a shorthand holds the characters of the shorthand. -/
theorem readClass_shorthand {c : Char} (shorthand : isShorthand c = true) :
    ∃ inside set, shorthandClass c = '[' :: inside ∧ escaped? c = some set ∧
      set.only? = none ∧ ∀ fuel start position rest, ∃ next : Nat,
        readClass (fuel + 6) start ⟨position, inside ++ rest⟩ = .ok (set, ⟨next, rest⟩) := by
  simp only [isShorthand, Bool.or_eq_true, beq_iff_eq] at shorthand
  rcases shorthand with (rfl | rfl) | rfl
  · refine ⟨"0-9]".toList, _, rfl, rfl, by cbv, ?_⟩
    intro fuel start position rest
    exact ⟨position + 4, by cbv⟩
  · refine ⟨"A-Za-z0-9_]".toList, _, rfl, rfl, by cbv, ?_⟩
    intro fuel start position rest
    exact ⟨position + 11, by cbv⟩
  · refine ⟨" \t\r\n]".toList, _, rfl, rfl, by cbv, ?_⟩
    intro fuel start position rest
    exact ⟨position + 5, by cbv⟩

/-- An escape that is no shorthand is read in the expanded text as well. -/
theorem readEscape_kept {c : Char} {rest : List Char} {start position : Nat} {set : CharSet}
    {last : Cursor} (read : readEscape start ⟨position, c :: rest⟩ = .ok (set, last)) :
    escaped? c = some set ∧ last.rest = rest ∧ ∀ other others begin, ∃ next : Nat,
      readEscape begin ⟨other, c :: others⟩ = .ok (set, ⟨next, others⟩) := by
  rw [readEscape_cons] at read
  cases stands : escaped? c with
  | none =>
      rw [stands] at read
      cases read
  | some found =>
      rw [stands] at read
      cases read
      refine ⟨rfl, rfl, ?_⟩
      intro other others begin
      rw [readEscape_cons, stands]
      exact ⟨_, rfl⟩

theorem readRangeEnd_expand {c : Char} {tail : List Char} {depth position : Nat}
    (noBracket : c ≠ ']') (clear : isClear (.behindHyphen depth) (c :: tail) = true)
    {high : Char} {last : Cursor}
    (read : readRangeEnd ⟨position, c :: tail⟩ = .ok (high, last)) :
    isClear (.item depth) last.rest = true ∧ ∀ other : Nat, ∃ next : Nat,
      readRangeEnd ⟨other, expandShorthandsAux (c :: tail)⟩ =
        .ok (high, ⟨next, expandShorthandsAux last.rest⟩) := by
  by_cases backslash : c = '\\'
  · subst backslash
    rw [readRangeEnd] at read
    simp only [Cursor.peek?, List.head?_cons, Cursor.skip] at read
    obtain ⟨⟨set, behind⟩, escape, finishes⟩ := bind_eq_ok_iff.mp read
    dsimp only at finishes
    cases tail with
    | nil => cases escape
    | cons letter rest =>
        obtain ⟨stands, same, escapes⟩ := readEscape_kept escape
        cases only : set.only? with
        | none =>
            rw [only] at finishes
            cases finishes
        | some found =>
            rw [only] at finishes
            cases finishes
            have noShorthand : isShorthand letter = false := by
              rw [← Bool.not_eq_true]
              intro shorthand
              obtain ⟨-, class_, -, standsToo, none, -⟩ := readClass_shorthand shorthand
              rw [stands] at standsToo
              cases standsToo
              rw [only] at none
              cases none
            rw [isClear_escape (by simp), Bool.and_eq_true, Bool.not_eq_true'] at clear
            rw [same, expand_escape noShorthand clear.1]
            refine ⟨clear.2, ?_⟩
            intro other
            obtain ⟨next, escapesToo⟩ := escapes (other + '\\'.utf8Size)
              (expandShorthandsAux rest) other
            refine ⟨next, ?_⟩
            rw [readRangeEnd]
            simp only [Cursor.peek?, List.head?_cons, Cursor.skip]
            rw [escapesToo]
            simp only [bind, Except.bind, only]
  · have plain : ∀ other others, readRangeEnd ⟨other, c :: others⟩ =
        .ok (c, ⟨other + c.utf8Size, others⟩) := by
      intro other others
      simp [readRangeEnd, Cursor.peek?, Cursor.skip]
    rw [plain] at read
    cases read
    rw [isClear_plain (by simp) backslash, Place.next, if_neg noBracket] at clear
    rw [expand_plain backslash]
    exact ⟨clear, fun other => ⟨_, plain other _⟩⟩

/-- A hyphen makes a range in the expanded text where it makes one in the text. -/
theorem rangeFollows_expand (position other : Nat) (rest : List Char) :
    rangeFollows ⟨other, expandShorthandsAux rest⟩ = rangeFollows ⟨position, rest⟩ := by
  cases rest with
  | nil => rfl
  | cons c tail =>
      by_cases hyphen : c = '-'
      · subst hyphen
        rw [expand_plain (by decide)]
        cases tail with
        | nil => rfl
        | cons second more =>
            obtain ⟨first, others, expanded, isFirst⟩ := expand_begins second more
            rw [expanded]
            by_cases bracket : second = ']'
            · subst bracket
              rcases isFirst with rfl | ⟨impossible, -⟩
              · rfl
              · cases impossible
            · have noBracket : first ≠ ']' := by
                rcases isFirst with rfl | ⟨-, rfl⟩
                · exact bracket
                · decide
              simp [rangeFollows]
      · obtain ⟨first, others, expanded, isFirst⟩ := expand_begins c tail
        have noHyphen : first ≠ '-' := by
          rcases isFirst with rfl | ⟨-, rfl⟩
          · exact hyphen
          · decide
        rw [expanded]
        simp [rangeFollows, hyphen, noHyphen]

/-- Where no range follows, an item may begin. -/
theorem isClear_item {rest : List Char} {depth position : Nat}
    (noRange : rangeFollows ⟨position, rest⟩ = false)
    (clear : isClear (.behindItem depth) rest = true) : isClear (.item depth) rest = true := by
  cases rest with
  | nil => rfl
  | cons c tail =>
      by_cases backslash : c = '\\'
      · subst backslash
        cases tail with
        | nil => rfl
        | cons letter others =>
            rw [isClear_escape (by simp)] at clear ⊢
            exact clear
      · rw [isClear_plain (by simp) backslash] at clear ⊢
        rw [Place.next] at clear
        rw [Place.next]
        by_cases hyphen : c = '-'
        · subst hyphen
          rw [if_pos rfl] at clear
          cases tail with
          | nil => rfl
          | cons second more =>
              have bracket : second = ']' := by
                by_contra different
                simp [rangeFollows] at noRange
              subst bracket
              rw [isClear_plain (by simp) (by decide), Place.next] at clear
              simp only [Place.behindFirst]
              rw [if_neg (by decide), if_neg (by decide), isClear_plain (by simp) (by decide),
                Place.next, if_neg (by decide), Place.behindFirst, if_neg (by decide)]
              exact clear
        · rw [if_neg hyphen] at clear
          exact clear

theorem readsExpanded_readRange (depth start begin : Nat) (first : CharSet) :
    ReadsExpanded (.behindItem depth) (.item depth) (readRange start first)
      (readRange begin first) := by
  rintro ⟨place, rest⟩ value last clear read
  rw [readRange] at read
  cases follows : rangeFollows ⟨place, rest⟩ with
  | false =>
      rw [follows, if_neg Bool.false_ne_true] at read
      cases read
      refine ⟨isClear_item follows clear, ?_⟩
      intro position
      refine ⟨position, ?_⟩
      rw [readRange, rangeFollows_expand place, follows, if_neg Bool.false_ne_true]
  | true =>
      rw [follows, if_pos rfl] at read
      cases only : first.only? with
      | none =>
          rw [only] at read
          cases read
      | some low =>
          rw [only] at read
          obtain ⟨⟨high, behind⟩, ends, finishes⟩ := bind_eq_ok_iff.mp read
          dsimp only at finishes
          split at finishes
          · cases finishes
          · rename_i ordered
            cases finishes
            have opens : ∃ c tail, rest = '-' :: c :: tail ∧ c ≠ ']' := by
              cases rest with
              | nil => cases follows
              | cons hyphen tail =>
                  by_cases isHyphen : hyphen = '-'
                  · subst isHyphen
                    cases tail with
                    | nil => cases follows
                    | cons c more =>
                        refine ⟨c, more, rfl, ?_⟩
                        rintro rfl
                        cases follows
                  · simp [rangeFollows, isHyphen] at follows
            obtain ⟨c, tail, rfl, noBracket⟩ := opens
            have afterHyphen : isClear (.behindHyphen depth) (c :: tail) = true := by
              rw [isClear_plain (by simp) (by decide), Place.next, if_pos rfl] at clear
              exact clear
            obtain ⟨itemClear, goesOn⟩ := readRangeEnd_expand noBracket afterHyphen ends
            refine ⟨itemClear, ?_⟩
            intro position
            obtain ⟨next, same⟩ := goesOn (position + '-'.utf8Size)
            refine ⟨next, ?_⟩
            rw [readRange, rangeFollows_expand place, follows, if_pos rfl, only,
              expand_plain (by decide)]
            simp only [Cursor.skip]
            rw [same]
            simp only [bind, Except.bind, if_neg ordered]

section Items

variable (fuel start position : Nat) (isFirst : Bool) (found : CharSet) (tail : List Char)

theorem readClassItems_class : readClassItems (fuel + 1) start isFirst found ⟨position, '[' :: tail⟩ =
    (do
      let (inner, behind) ← readClass fuel position ⟨position + '['.utf8Size, tail⟩
      readClassItems fuel start false (found.union inner) behind) := by
  rw [readClassItems]
  rfl

theorem readClassItems_escape : readClassItems (fuel + 1) start isFirst found ⟨position, '\\' :: tail⟩ =
    (do
      let (first, behindFirst) ← readEscape position ⟨position + '\\'.utf8Size, tail⟩
      let (item, behind) ← readRange position first behindFirst
      readClassItems fuel start false (found.union item) behind) := by
  rw [readClassItems]
  rfl

theorem readClassItems_close : readClassItems (fuel + 1) start isFirst found ⟨position, ']' :: tail⟩ =
    if isFirst then .error (.malformed position .emptyClass)
    else .ok (found, ⟨position + ']'.utf8Size, tail⟩) := by
  rw [readClassItems]
  rfl

variable {c : Char}

theorem readClassItems_plain (noClose : c ≠ ']') (noOpen : c ≠ '[') (noEscape : c ≠ '\\') :
    readClassItems (fuel + 1) start isFirst found ⟨position, c :: tail⟩ = (do
      let (item, behind) ← readRange position (.single c) ⟨position + c.utf8Size, tail⟩
      readClassItems fuel start false (found.union item) behind) := by
  rw [readClassItems]
  simp [Cursor.peek?, Cursor.skip]

end Items

theorem isClear_opened {rest : List Char} {depth position : Nat}
    (noCaret : (Cursor.mk position rest).eat? '^' = none)
    (clear : isClear (.opened depth) rest = true) : isClear (.item depth) rest = true := by
  cases rest with
  | nil => rfl
  | cons c tail =>
      by_cases backslash : c = '\\'
      · subst backslash
        cases tail with
        | nil => rfl
        | cons letter others =>
            rw [isClear_escape (by simp)] at clear ⊢
            exact clear
      · have different : c ≠ '^' := by
          rintro rfl
          cases noCaret
        rw [isClear_plain (by simp) backslash] at clear ⊢
        rw [Place.next, if_neg different] at clear
        rw [Place.next]
        exact clear

/-- Whether classes with some fuel are read in expanded texts, with more of it. -/
structure ClassReadersExpand (fuel spare : Nat) : Prop where
  inBrackets : ∀ depth start begin, ReadsExpanded (.opened depth) (Place.closed depth)
    (readClass fuel start) (readClass (fuel + spare) begin)
  items : ∀ depth start begin isFirst found, ReadsExpanded (.item depth) (Place.closed depth)
    (readClassItems fuel start isFirst found) (readClassItems (fuel + spare) begin isFirst found)

section Step

variable {fuel spare : Nat}

theorem readsExpanded_readClass (later : ClassReadersExpand fuel spare)
    (depth start begin : Nat) : ReadsExpanded (.opened depth) (Place.closed depth)
      (readClass (fuel + 1) start) (readClass (fuel + spare + 1) begin) := by
  rintro ⟨place, rest⟩ value last clear read
  rw [readClass] at read
  have eaten := fun other => eat?_expand (c := '^') (by decide) (by decide) place other rest
  cases caret : (Cursor.mk place rest).eat? '^' with
  | none =>
      simp only [caret] at read eaten
      obtain ⟨lastClear, goesOn⟩ :=
        later.items depth start begin true .empty _ value last (isClear_opened caret clear) read
      refine ⟨lastClear, ?_⟩
      intro position
      obtain ⟨next, same⟩ := goesOn position
      refine ⟨next, ?_⟩
      rw [readClass, eaten]
      exact same
  | some behind =>
      simp only [caret] at read eaten
      obtain ⟨⟨set, between⟩, items, whole⟩ := bind_eq_ok_iff.mp read
      cases whole
      have opens : rest = '^' :: behind.rest := Path.rest_of_eat? caret
      have itemClear : isClear (.item depth) behind.rest = true := by
        rw [opens, isClear_plain (by simp) (by decide), Place.next, if_pos rfl] at clear
        exact clear
      obtain ⟨lastClear, goesOn⟩ :=
        later.items depth start begin true .empty _ set between itemClear items
      refine ⟨lastClear, ?_⟩
      intro position
      obtain ⟨next, same⟩ := goesOn (position + '^'.utf8Size)
      refine ⟨next, ?_⟩
      rw [readClass, eaten]
      simp only [Option.map_some]
      rw [same]
      rfl

/-- An escape in a class: a shorthand is read as a class of its own. -/
theorem readClassItems_escape_expand (enough : 6 ≤ spare) (later : ClassReadersExpand fuel spare)
    {depth start begin position : Nat} {isFirst : Bool} {found value : CharSet} {tail : List Char}
    {last : Cursor} (clear : isClear (.item depth) ('\\' :: tail) = true)
    (read : readClassItems (fuel + 1) start isFirst found ⟨position, '\\' :: tail⟩ =
      .ok (value, last)) :
    isClear (Place.closed depth) last.rest = true ∧ ∀ other : Nat, ∃ next : Nat,
      readClassItems (fuel + spare + 1) begin isFirst found
        ⟨other, expandShorthandsAux ('\\' :: tail)⟩ =
          .ok (value, ⟨next, expandShorthandsAux last.rest⟩) := by
  rw [readClassItems_escape] at read
  obtain ⟨⟨first, behindFirst⟩, escape, afterEscape⟩ := bind_eq_ok_iff.mp read
  obtain ⟨⟨item, behind⟩, range, items⟩ := bind_eq_ok_iff.mp afterEscape
  dsimp only at range items
  cases tail with
  | nil => cases escape
  | cons letter rest =>
      obtain ⟨stands, sameRest, escapes⟩ := readEscape_kept escape
      rw [isClear_escape (by simp), Bool.and_eq_true, Bool.not_eq_true'] at clear
      have itemClear : isClear (.behindItem depth) behindFirst.rest = true := by
        rw [sameRest]
        exact clear.2
      have rangeExpands := fun begin => readsExpanded_readRange depth position begin first
        behindFirst item behind itemClear range
      obtain ⟨lastClear, ends⟩ := later.items depth start begin false (found.union item)
        behind value last (rangeExpands 0).1 items
      refine ⟨lastClear, ?_⟩
      intro other
      cases shorthand : isShorthand letter with
      | false =>
          obtain ⟨middle, escapesToo⟩ :=
            escapes (other + '\\'.utf8Size) (expandShorthandsAux rest) other
          obtain ⟨between, ranges⟩ := (rangeExpands other).2 middle
          obtain ⟨next, same⟩ := ends between
          refine ⟨next, ?_⟩
          rw [expand_escape shorthand clear.1, readClassItems_escape, escapesToo]
          rw [sameRest] at ranges
          simp only [bind, Except.bind]
          rw [ranges]
          exact same
      | true =>
          obtain ⟨inside, set, bracket, standsToo, noneOnly, reads⟩ := readClass_shorthand shorthand
          rw [stands] at standsToo
          cases standsToo
          have isItem : item = first ∧ behind = behindFirst := by
            rw [readRange] at range
            cases follows : rangeFollows behindFirst with
            | true =>
                rw [follows, if_pos rfl, noneOnly] at range
                cases range
            | false =>
                rw [follows, if_neg Bool.false_ne_true] at range
                cases range
                exact ⟨rfl, rfl⟩
          obtain ⟨rfl, rfl⟩ := isItem
          obtain ⟨less, rfl⟩ := Nat.exists_eq_add_of_le enough
          obtain ⟨middle, class_⟩ := reads (fuel + less) other (other + '['.utf8Size)
            (expandShorthandsAux rest)
          obtain ⟨next, same⟩ := ends middle
          refine ⟨next, ?_⟩
          have fuels : fuel + (6 + less) = fuel + less + 6 := by omega
          rw [sameRest, fuels] at same
          rw [expand_shorthand shorthand, bracket, List.cons_append, fuels,
            readClassItems_class, class_]
          exact same

theorem readsExpanded_readClassItems (enough : 6 ≤ spare) (later : ClassReadersExpand fuel spare)
    (depth start begin : Nat) (isFirst : Bool) (found : CharSet) :
    ReadsExpanded (.item depth) (Place.closed depth) (readClassItems (fuel + 1) start isFirst found)
      (readClassItems (fuel + spare + 1) begin isFirst found) := by
  rintro ⟨place, rest⟩ value last clear read
  cases rest with
  | nil =>
      rw [readClassItems] at read
      cases read
  | cons c tail =>
      by_cases escape : c = '\\'
      · subst escape
        exact readClassItems_escape_expand enough later clear read
      · rw [isClear_plain (by simp) escape, Place.next] at clear
        rw [expand_plain escape]
        by_cases opens : c = '['
        · subst opens
          rw [Place.behindFirst, if_pos rfl] at clear
          rw [readClassItems_class] at read
          have reads := fun other => (later.inBrackets (depth + 1) place other).bind
            (fun inner => later.items depth start begin false (found.union inner))
            _ value last clear read
          refine ⟨(reads 0).1, ?_⟩
          intro position
          obtain ⟨next, same⟩ := (reads position).2 (position + '['.utf8Size)
          refine ⟨next, ?_⟩
          rw [readClassItems_class]
          exact same
        · by_cases closes : c = ']'
          · subst closes
            rw [Place.behindFirst, if_neg (by decide), if_pos rfl] at clear
            rw [readClassItems_close] at read
            split at read
            · cases read
            · rename_i notFirst
              cases read
              refine ⟨clear, ?_⟩
              intro position
              refine ⟨position + ']'.utf8Size, ?_⟩
              rw [readClassItems_close, if_neg notFirst]
          · rw [Place.behindFirst, if_neg opens, if_neg closes] at clear
            rw [readClassItems_plain _ _ _ _ _ _ closes opens escape] at read
            have reads := fun other => (readsExpanded_readRange depth place other (.single c)).bind
              (fun item => later.items depth start begin false (found.union item))
              _ value last clear read
            refine ⟨(reads 0).1, ?_⟩
            intro position
            obtain ⟨next, same⟩ := (reads position).2 (position + c.utf8Size)
            refine ⟨next, ?_⟩
            rw [readClassItems_plain _ _ _ _ _ _ closes opens escape]
            exact same

end Step

theorem classReadersExpand {spare : Nat} (enough : 6 ≤ spare) (fuel : Nat) :
    ClassReadersExpand fuel spare := by
  induction fuel with
  | zero =>
      constructor
      · intro depth start begin cursor value last clear read
        rw [readClass] at read
        cases read
      · intro depth start begin isFirst found cursor value last clear read
        rw [readClassItems] at read
        cases read
  | succ fuel inductionHypothesis =>
      have fuels : fuel + 1 + spare = fuel + spare + 1 := Nat.add_right_comm fuel 1 spare
      constructor
      · intro depth start begin
        rw [fuels]
        exact readsExpanded_readClass inductionHypothesis depth start begin
      · intro depth start begin isFirst found
        rw [fuels]
        exact readsExpanded_readClassItems enough inductionHypothesis depth start begin isFirst found

end Pattern

end BodyContract
