import Mathlib
import BodyContract.Automaton.Subsets
import BodyContract.Proofs.Pattern.Shorthands
import BodyContract.Proofs.Path.Lexical

/-!
# The pattern of an expanded expression

Where the shorthands of an expression are escapes, the expression and the one in
which they are written out as classes are read as the same pattern, so they have
the same automaton.
-/

namespace BodyContract

namespace Pattern

/-! ## Repetitions -/

/-- Whether a character repeats what stands before it. -/
def isOperator (c : Char) : Bool := c == '*' || c == '+' || c == '?' || c == '\x7b'

/-- Whether a text begins with an operator. -/
def opensOperator (text : List Char) : Bool := text.head?.any isOperator

/-- Digits are the same in the expanded text. -/
theorem expand_digits {digits rest : List Char} (areDigits : ∀ c ∈ digits, c.isDigit = true) :
    expandShorthandsAux (digits ++ rest) = digits ++ expandShorthandsAux rest := by
  induction digits with
  | nil => rfl
  | cons c others inductionHypothesis =>
      have noBackslash : c ≠ '\\' := by
        rintro rfl
        exact absurd (areDigits '\\' List.mem_cons_self) (by decide)
      rw [List.cons_append, expand_plain noBackslash, inductionHypothesis fun other isIn =>
        areDigits other (List.mem_cons_of_mem c isIn), List.cons_append]

theorem isClear_digits {digits rest : List Char} (areDigits : ∀ c ∈ digits, c.isDigit = true) :
    isClear .outside (digits ++ rest) = isClear .outside rest := by
  induction digits with
  | nil => rfl
  | cons c others inductionHypothesis =>
      have special : c ≠ '\\' ∧ c ≠ '[' ∧ c ≠ '"' := by
        refine ⟨?_, ?_, ?_⟩ <;>
        · rintro rfl
          exact absurd (areDigits _ List.mem_cons_self) (by decide)
      obtain ⟨noBackslash, noBracket, noQuote⟩ := special
      rw [List.cons_append, isClear_plain (by simp) noBackslash, Place.next, if_neg noBracket,
        if_neg noQuote, inductionHypothesis fun other isIn =>
          areDigits other (List.mem_cons_of_mem c isIn)]

theorem stopsAt_expand {rest : List Char} (stops : StopsAt Char.isDigit rest) :
    StopsAt Char.isDigit (expandShorthandsAux rest) := by
  cases rest with
  | nil => exact stopsAt_nil _
  | cons c tail =>
      obtain ⟨first, others, expanded, isFirst⟩ := expand_begins c tail
      rw [expanded]
      apply stopsAt_cons
      rcases isFirst with rfl | ⟨-, rfl⟩
      · exact stops first rfl
      · decide

theorem readsExpanded_readCount : ReadsExpanded .outside .outside readCount readCount := by
  rintro start value last clear read
  rw [readCount] at read
  cases spanned : start.span Char.isDigit with
  | mk digits behind =>
      obtain ⟨same, areDigits, stops⟩ := Cursor.rest_of_span spanned
      rw [same, isClear_digits areDigits] at clear
      have spansToo : ∀ position : Nat, ∃ next : Nat,
          (Cursor.mk position (expandShorthandsAux start.rest)).span Char.isDigit =
            (digits, ⟨next, expandShorthandsAux behind.rest⟩) := by
        intro position
        rw [same, expand_digits areDigits]
        exact Cursor.span_append position areDigits (stopsAt_expand stops)
      simp only [spanned] at read
      have isLast : last = behind := by
        split at read
        · cases read
          rfl
        · split at read
          · cases read
          · cases read
            rfl
      rw [isLast]
      refine ⟨clear, ?_⟩
      intro position
      obtain ⟨next, spans⟩ := spansToo position
      refine ⟨next, ?_⟩
      rw [readCount]
      simp only [spans]
      split at read
      · rename_i empty
        cases read
        rw [if_pos empty]
      · rename_i filled
        rw [if_neg filled]
        split at read
        · cases read
        · rename_i small
          cases read
          rw [if_neg small]

theorem isClear_outside {c : Char} (noBackslash : c ≠ '\\') (noBracket : c ≠ '[')
    (noQuote : c ≠ '"') (rest : List Char) :
    isClear .outside (c :: rest) = isClear .outside rest := by
  rw [isClear_plain (by simp) noBackslash, Place.next, if_neg noBracket, if_neg noQuote]

/-- The upper count of a repetition, which is the lower one where no comma stands. -/
def readMost (least : Nat) (cursor : Cursor) : Except PatternError (Option Nat × Cursor) :=
  match cursor.eat? ',' with
  | some behindComma => readCount behindComma
  | none => .ok (some least, cursor)

/-- The end of the counts that begin at `start`. -/
def closeCounts (start least : Nat) (most : Option Nat) (cursor : Cursor) :
    Except PatternError ((Nat × Option Nat) × Cursor) :=
  match cursor.eat? '\x7d' with
  | none => .error (.malformed cursor.position .expectedClosingBrace)
  | some behind => do
      checkCount start least
      match most with
      | none => .ok ((least, none), behind)
      | some bound =>
          checkCount start bound
          if bound < least then
            .error (.malformed start .reversedCounts)
          else
            .ok ((least, some bound), behind)

theorem readCounts_eq (cursor : Cursor) : readCounts cursor = (do
    let (least?, behindLeast) ← readCount cursor.skip
    match least? with
    | none => .error (.malformed behindLeast.position .expectedCount)
    | some least => do
        let (most, behindMost) ← readMost least behindLeast
        closeCounts cursor.position least most behindMost) := by
  rw [readCounts]
  cases readCount cursor.skip with
  | error problem => rfl
  | ok result =>
      obtain ⟨least?, behindLeast⟩ := result
      cases least? with
      | none => rfl
      | some least =>
          simp only [bind, Except.bind, readMost]
          cases behindLeast.eat? ',' with
          | none => rfl
          | some behindComma =>
              dsimp only
              cases readCount behindComma <;> rfl

theorem readsExpanded_readMost (least : Nat) :
    ReadsExpanded .outside .outside (readMost least) (readMost least) := by
  rintro ⟨place, rest⟩ value last clear read
  have eaten := fun other => eat?_expand (c := ',') (by decide) (by decide) place other rest
  rw [readMost] at read
  cases comma : (Cursor.mk place rest).eat? ',' with
  | none =>
      simp only [comma] at read eaten
      cases read
      refine ⟨clear, ?_⟩
      intro position
      refine ⟨position, ?_⟩
      rw [readMost, eaten]
      rfl
  | some behind =>
      simp only [comma] at read eaten
      have opens : rest = ',' :: behind.rest := Path.rest_of_eat? comma
      rw [opens, isClear_outside (by decide) (by decide) (by decide)] at clear
      obtain ⟨lastClear, goesOn⟩ := readsExpanded_readCount behind value last clear read
      refine ⟨lastClear, ?_⟩
      intro position
      obtain ⟨next, same⟩ := goesOn (position + ','.utf8Size)
      refine ⟨next, ?_⟩
      rw [readMost, eaten]
      exact same

/-- Whether the counts of a repetition are in order and below the limit. -/
def AreCounts (least : Nat) (most : Option Nat) : Prop :=
  least ≤ repetitionLimit ∧ ∀ bound, most = some bound → bound ≤ repetitionLimit ∧ least ≤ bound

theorem checkCount_bind_eq_ok_iff {α : Type} {start bound : Nat}
    {next : Unit → Except PatternError α} {result : α} :
    checkCount start bound >>= next = .ok result ↔
      bound ≤ repetitionLimit ∧ next () = .ok result := by
  rw [checkCount]
  by_cases large : repetitionLimit < bound
  · rw [if_pos large]
    constructor
    · intro impossible
      cases impossible
    · rintro ⟨small, -⟩
      exact absurd large (Nat.not_lt.mpr small)
  · rw [if_neg large]
    exact ⟨fun succeeds => ⟨Nat.not_lt.mp large, succeeds⟩, fun succeeds => succeeds.2⟩

theorem closeCounts_eq_ok_iff {start least : Nat} {most : Option Nat} {cursor last : Cursor}
    {value : Nat × Option Nat} : closeCounts start least most cursor = .ok (value, last) ↔
      cursor.eat? '\x7d' = some last ∧ value = (least, most) ∧ AreCounts least most := by
  rw [closeCounts, AreCounts]
  cases cursor.eat? '\x7d' with
  | none => simp
  | some behind =>
      dsimp only
      rw [checkCount_bind_eq_ok_iff]
      cases most with
      | none =>
          constructor
          · rintro ⟨small, same⟩
            cases same
            exact ⟨rfl, rfl, small, by simp⟩
          · rintro ⟨same, rfl, small, -⟩
            cases same
            exact ⟨small, rfl⟩
      | some bound =>
          dsimp only
          rw [checkCount_bind_eq_ok_iff]
          by_cases reversed : bound < least
          · rw [if_pos reversed]
            constructor
            · rintro ⟨-, -, impossible⟩
              cases impossible
            · rintro ⟨-, -, -, inOrder⟩
              exact absurd reversed (Nat.not_lt.mpr (inOrder bound rfl).2)
          · rw [if_neg reversed]
            constructor
            · rintro ⟨small, smallToo, same⟩
              cases same
              refine ⟨rfl, rfl, small, ?_⟩
              rintro other ⟨⟩
              exact ⟨smallToo, Nat.not_lt.mp reversed⟩
            · rintro ⟨same, rfl, small, inOrder⟩
              cases same
              exact ⟨small, (inOrder bound rfl).1, rfl⟩

theorem readsExpanded_closeCounts (start begin least : Nat) (most : Option Nat) :
    ReadsExpanded .outside .outside (closeCounts start least most)
      (closeCounts begin least most) := by
  rintro ⟨place, rest⟩ value last clear read
  rw [closeCounts_eq_ok_iff] at read
  obtain ⟨brace, isValue, areCounts⟩ := read
  have opens : rest = '\x7d' :: last.rest := Path.rest_of_eat? brace
  rw [opens, isClear_outside (by decide) (by decide) (by decide)] at clear
  refine ⟨clear, ?_⟩
  intro position
  refine ⟨position + '\x7d'.utf8Size, ?_⟩
  rw [closeCounts_eq_ok_iff, eat?_expand (by decide) (by decide) place, brace]
  exact ⟨rfl, isValue, areCounts⟩

/-- The counts behind an opening brace. -/
theorem readCounts_expand {tail : List Char} {place : Nat} {value : Nat × Option Nat}
    {last : Cursor} (clear : isClear .outside tail = true)
    (read : readCounts ⟨place, '\x7b' :: tail⟩ = .ok (value, last)) :
    isClear .outside last.rest = true ∧ ∀ position : Nat, ∃ next : Nat,
      readCounts ⟨position, '\x7b' :: expandShorthandsAux tail⟩ =
        .ok (value, ⟨next, expandShorthandsAux last.rest⟩) := by
  rw [readCounts_eq] at read
  obtain ⟨⟨least?, behindLeast⟩, count, read⟩ := bind_eq_ok_iff.mp read
  obtain ⟨middleClear, counts⟩ := readsExpanded_readCount _ _ _ clear count
  cases least? with
  | none => cases read
  | some least =>
      have ends := fun other => ((readsExpanded_readMost least).bind fun most =>
        readsExpanded_closeCounts place other least most) _ value last middleClear read
      refine ⟨(ends 0).1, ?_⟩
      intro position
      obtain ⟨middle, same⟩ := counts (position + '\x7b'.utf8Size)
      obtain ⟨next, sameToo⟩ := (ends position).2 middle
      refine ⟨next, ?_⟩
      rw [readCounts_eq]
      simp only [Cursor.skip]
      rw [bind_eq_ok_iff]
      exact ⟨_, same, sameToo⟩

section Repetitions

variable (fuel position : Nat) (body : Pattern) (tail : List Char)

theorem readRepetitions_other {rest : List Char} (noOperator : opensOperator rest = false) :
    readRepetitions fuel body ⟨position, rest⟩ = .ok (body, ⟨position, rest⟩) := by
  cases fuel with
  | zero => rw [readRepetitions]
  | succ fuel =>
      cases rest with
      | nil => rfl
      | cons c others =>
          have different : ((c ≠ '*' ∧ c ≠ '+') ∧ c ≠ '?') ∧ c ≠ '\x7b' := by
            simpa [opensOperator, isOperator] using noOperator
          obtain ⟨⟨⟨noStar, noPlus⟩, noMark⟩, noBrace⟩ := different
          rw [readRepetitions]
          split
          · rename_i same
            exact absurd (Option.some.inj same) noStar
          · rename_i same
            exact absurd (Option.some.inj same) noPlus
          · rename_i same
            exact absurd (Option.some.inj same) noMark
          · rename_i same
            exact absurd (Option.some.inj same) noBrace
          · rfl

theorem opensOperator_expand {rest : List Char} (noOperator : opensOperator rest = false) :
    opensOperator (expandShorthandsAux rest) = false := by
  cases rest with
  | nil => rfl
  | cons c others =>
      obtain ⟨first, more, expanded, isFirst⟩ := expand_begins c others
      rw [expanded]
      rcases isFirst with rfl | ⟨-, rfl⟩
      · exact noOperator
      · rfl

variable {fuel}

/-- Repetitions that are read to the end are read in the expanded text. -/
theorem readRepetitions_expand (spare : Nat) {body value : Pattern} {start last : Cursor}
    (clear : isClear .outside start.rest = true)
    (read : readRepetitions fuel body start = .ok (value, last))
    (ended : opensOperator last.rest = false) :
    isClear .outside last.rest = true ∧ ∀ position : Nat, ∃ next : Nat,
      readRepetitions (fuel + spare) body ⟨position, expandShorthandsAux start.rest⟩ =
        .ok (value, ⟨next, expandShorthandsAux last.rest⟩) := by
  induction fuel generalizing body start with
  | zero =>
      rw [readRepetitions] at read
      cases read
      exact ⟨clear, fun position => ⟨position, readRepetitions_other _ _ _
        (opensOperator_expand ended)⟩⟩
  | succ fuel inductionHypothesis =>
      obtain ⟨place, rest⟩ := start
      by_cases operator : opensOperator rest = true
      · cases rest with
        | nil => cases operator
        | cons c tail =>
            have isOne : ((c = '*' ∨ c = '+') ∨ c = '?') ∨ c = '\x7b' := by
              simpa [opensOperator, isOperator] using operator
            have plain : c ≠ '\\' ∧ c ≠ '[' ∧ c ≠ '"' := by
              rcases isOne with ((rfl | rfl) | rfl) | rfl <;> decide
            dsimp only at clear ⊢
            rw [isClear_outside plain.1 plain.2.1 plain.2.2] at clear
            rw [expand_plain plain.1, Nat.add_right_comm]
            -- the three marks differ only in the counts that they stand for
            have mark : ∀ least most, (∀ amount place others,
                readRepetitions (amount + 1) body ⟨place, c :: others⟩ =
                  readRepetitions amount (.repeated body least most)
                    ⟨place + c.utf8Size, others⟩) →
                isClear .outside last.rest = true ∧ ∀ position : Nat, ∃ next : Nat,
                  readRepetitions (fuel + spare + 1) body
                    ⟨position, c :: expandShorthandsAux tail⟩ =
                      .ok (value, ⟨next, expandShorthandsAux last.rest⟩) := by
              intro least most steps
              rw [steps] at read
              obtain ⟨lastClear, goesOn⟩ := inductionHypothesis clear read
              refine ⟨lastClear, ?_⟩
              intro position
              obtain ⟨next, same⟩ := goesOn (position + c.utf8Size)
              refine ⟨next, ?_⟩
              rw [steps]
              exact same
            rcases isOne with ((rfl | rfl) | rfl) | rfl
            · exact mark 0 none fun _ _ _ => rfl
            · exact mark 1 none fun _ _ _ => rfl
            · exact mark 0 (some 1) fun _ _ _ => rfl
            · have steps : ∀ amount place others,
                  readRepetitions (amount + 1) body ⟨place, '\x7b' :: others⟩ =
                    (readCounts ⟨place, '\x7b' :: others⟩ >>= fun counts =>
                      readRepetitions amount (.repeated body counts.1.1 counts.1.2) counts.2) :=
                fun _ _ _ => rfl
              rw [steps] at read
              obtain ⟨⟨⟨least, most⟩, behind⟩, counts, read⟩ := bind_eq_ok_iff.mp read
              obtain ⟨behindClear, counted⟩ := readCounts_expand clear counts
              obtain ⟨lastClear, goesOn⟩ := inductionHypothesis behindClear read
              refine ⟨lastClear, ?_⟩
              intro position
              obtain ⟨middle, same⟩ := counted position
              obtain ⟨next, sameToo⟩ := goesOn middle
              refine ⟨next, ?_⟩
              rw [steps, bind_eq_ok_iff]
              exact ⟨_, same, sameToo⟩
      · rw [Bool.not_eq_true] at operator
        rw [readRepetitions_other _ _ _ operator] at read
        cases read
        exact ⟨clear, fun position => ⟨position, readRepetitions_other _ _ _
          (opensOperator_expand operator)⟩⟩

end Repetitions

/-! ## Quoted texts -/

theorem readQuotedAux_expand {start place : Nat} {text : List Char} {items : List Pattern}
    {value : Pattern} {last : Cursor} (clear : isClear .quoted text = true)
    (read : readQuotedAux start place text items = .ok (value, last)) (begin : Nat) :
    isClear .outside last.rest = true ∧ ∀ position : Nat, ∃ next : Nat,
      readQuotedAux begin position (expandShorthandsAux text) items =
        .ok (value, ⟨next, expandShorthandsAux last.rest⟩) := by
  induction text generalizing place items with
  | nil =>
      rw [readQuotedAux] at read
      cases read
  | cons c rest inductionHypothesis =>
      rw [isClear, Bool.and_eq_true, Bool.not_eq_true', Bool.and_eq_false_iff] at clear
      obtain ⟨noShorthand, later⟩ := clear
      have kept : expandShorthandsAux (c :: rest) = c :: expandShorthandsAux rest := by
        apply expand_cons
        rintro rfl
        rcases noShorthand with impossible | none
        · cases impossible
        · exact none
      rw [kept]
      rw [readQuotedAux] at read
      by_cases closes : c = '"'
      · rw [if_pos closes] at read
        cases read
        rw [Place.next, if_pos closes] at later
        refine ⟨later, ?_⟩
        intro position
        refine ⟨position + c.utf8Size, ?_⟩
        rw [readQuotedAux, if_pos closes]
      · rw [if_neg closes] at read
        rw [Place.next, if_neg closes] at later
        obtain ⟨lastClear, goesOn⟩ := inductionHypothesis later read
        refine ⟨lastClear, ?_⟩
        intro position
        obtain ⟨next, same⟩ := goesOn (position + c.utf8Size)
        refine ⟨next, ?_⟩
        rw [readQuotedAux, if_neg closes]
        exact same

/-! ## Sequences and choices -/

/-- Whether the readers with some fuel read expanded texts as well, with more of it. -/
structure ReadersExpand (fuel spare : Nat) : Prop where
  choice : ReadsExpanded .outside .outside (readChoice fuel) (readChoice (fuel + spare))
  sequence : ReadsExpanded .outside .outside (readSequence fuel) (readSequence (fuel + spare))
  atom : ∀ c tail place value last, isClear .outside (c :: tail) = true →
    readAtom fuel c ⟨place, c :: tail⟩ = .ok (value, last) →
      isClear .outside last.rest = true ∧ ∀ position : Nat, ∃ first others, ∃ next : Nat,
        expandShorthandsAux (c :: tail) = first :: others ∧
          readAtom (fuel + spare) first ⟨position, first :: others⟩ =
            .ok (value, ⟨next, expandShorthandsAux last.rest⟩)
  group : ∀ start begin, ReadsExpanded .outside .outside (readGroup fuel start)
    (readGroup (fuel + spare) begin)

/-- Whether a character ends a sequence. -/
def endsSequence (c : Char) : Bool := c == '|' || c == ')'

section Sequences

variable {fuel spare : Nat}

theorem readSequence_cons {c : Char} (within : endsSequence c = false) (fuel position : Nat)
    (tail : List Char) : readSequence (fuel + 1) ⟨position, c :: tail⟩ = (do
      let (atom, behindAtom) ← readAtom fuel c ⟨position, c :: tail⟩
      let (item, behind) ← readRepetitions fuel atom behindAtom
      let (items, rest) ← readSequence fuel behind
      .ok (item :: items, rest)) := by
  rw [readSequence]
  split
  · rename_i impossible
    cases impossible
  · rename_i same
    cases same
    cases within
  · rename_i same
    cases same
    cases within
  · rename_i same
    cases same
    rfl

theorem readSequence_end {rest : List Char} (ended : rest.head?.all endsSequence = true)
    (fuel position : Nat) :
    readSequence (fuel + 1) ⟨position, rest⟩ = .ok ([], ⟨position, rest⟩) := by
  cases rest with
  | nil => rfl
  | cons c tail =>
      have isEnd : c = '|' ∨ c = ')' := by simpa [endsSequence] using ended
      rcases isEnd with rfl | rfl
      · rfl
      · rfl

/-- No operator stands where a sequence is read. -/
theorem opensOperator_of_readSequence {cursor last : Cursor} {items : List Pattern}
    (read : readSequence fuel cursor = .ok (items, last)) : opensOperator cursor.rest = false := by
  rw [← Bool.not_eq_true]
  intro operator
  obtain ⟨place, rest⟩ := cursor
  cases rest with
  | nil => cases operator
  | cons c tail =>
      have isOne : ((c = '*' ∨ c = '+') ∨ c = '?') ∨ c = '\x7b' := by
        simpa [opensOperator, isOperator] using operator
      cases fuel with
      | zero => cases read
      | succ fuel =>
          have within : endsSequence c = false := by
            rcases isOne with ((rfl | rfl) | rfl) | rfl <;> decide
          rw [readSequence_cons within] at read
          obtain ⟨⟨atom, behind⟩, isAtom, -⟩ := bind_eq_ok_iff.mp read
          cases fuel with
          | zero => cases isAtom
          | succ fuel => rcases isOne with ((rfl | rfl) | rfl) | rfl <;> cases isAtom

theorem readsExpanded_readSequence (later : ReadersExpand fuel spare) :
    ReadsExpanded .outside .outside (readSequence (fuel + 1)) (readSequence (fuel + spare + 1)) := by
  rintro ⟨place, rest⟩ value last clear read
  have ends : rest.head?.all endsSequence = true →
      (expandShorthandsAux rest).head?.all endsSequence = true := by
    intro ended
    cases rest with
    | nil => rfl
    | cons c tail =>
        have noBackslash : c ≠ '\\' := by
          rintro rfl
          cases ended
        rw [expand_plain noBackslash]
        exact ended
  by_cases ended : rest.head?.all endsSequence = true
  · rw [readSequence_end ended] at read
    cases read
    exact ⟨clear, fun position => ⟨position, readSequence_end (ends ended) _ _⟩⟩
  · cases rest with
    | nil => exact absurd rfl ended
    | cons c tail =>
        have within : endsSequence c = false := by
          rw [← Bool.not_eq_true]
          exact ended
        rw [readSequence_cons within] at read
        obtain ⟨⟨atom, behindAtom⟩, isAtom, afterAtom⟩ := bind_eq_ok_iff.mp read
        obtain ⟨⟨item, behind⟩, repeats, afterItem⟩ := bind_eq_ok_iff.mp afterAtom
        obtain ⟨⟨items, final⟩, sequence_, whole⟩ := bind_eq_ok_iff.mp afterItem
        cases whole
        dsimp only at repeats sequence_ ⊢
        obtain ⟨atomClear, atoms⟩ := later.atom c tail place atom behindAtom clear isAtom
        obtain ⟨itemClear, repetitions⟩ := readRepetitions_expand spare atomClear repeats
          (opensOperator_of_readSequence sequence_)
        obtain ⟨lastClear, sequences⟩ := later.sequence behind items _ itemClear sequence_
        refine ⟨lastClear, ?_⟩
        intro position
        obtain ⟨first, others, middle, expanded, isAtomToo⟩ := atoms position
        obtain ⟨between, repeatsToo⟩ := repetitions middle
        obtain ⟨next, sequenceToo⟩ := sequences between
        have withinToo : endsSequence first = false := by
          obtain ⟨other, more, expandedToo, isFirst⟩ := expand_begins c tail
          rw [expanded] at expandedToo
          cases expandedToo
          rcases isFirst with rfl | ⟨-, rfl⟩
          · exact within
          · rfl
        refine ⟨next, ?_⟩
        rw [expanded, readSequence_cons withinToo, isAtomToo]
        simp only [bind, Except.bind]
        rw [repeatsToo]
        dsimp only
        rw [sequenceToo]

theorem readsExpanded_readChoice (later : ReadersExpand fuel spare) :
    ReadsExpanded .outside .outside (readChoice (fuel + 1)) (readChoice (fuel + spare + 1)) := by
  rintro start value last clear read
  rw [readChoice] at read
  obtain ⟨⟨items, behind⟩, sequence_, read⟩ := bind_eq_ok_iff.mp read
  obtain ⟨behindClear, sequences⟩ := later.sequence start items behind clear sequence_
  have eaten := fun other =>
    eat?_expand (c := '|') (by decide) (by decide) behind.position other behind.rest
  dsimp only at read
  cases bar : behind.eat? '|' with
  | none =>
      simp only [bar] at read eaten
      cases read
      refine ⟨behindClear, ?_⟩
      intro position
      obtain ⟨next, same⟩ := sequences position
      refine ⟨next, ?_⟩
      rw [readChoice, same]
      simp only [bind, Except.bind]
      rw [eaten]
      rfl
  | some behindBar =>
      simp only [bar] at read eaten
      obtain ⟨⟨branches, final⟩, choice_, whole⟩ := bind_eq_ok_iff.mp read
      cases whole
      have opens : behind.rest = '|' :: behindBar.rest := Path.rest_of_eat? bar
      rw [opens, isClear_outside (by decide) (by decide) (by decide)] at behindClear
      obtain ⟨lastClear, choices⟩ := later.choice behindBar branches _ behindClear choice_
      refine ⟨lastClear, ?_⟩
      intro position
      obtain ⟨middle, same⟩ := sequences position
      obtain ⟨next, sameToo⟩ := choices (middle + '|'.utf8Size)
      refine ⟨next, ?_⟩
      rw [readChoice, same]
      simp only [bind, Except.bind]
      rw [eaten]
      simp only [Option.map_some]
      rw [sameToo]

theorem readsExpanded_readGroup (later : ReadersExpand fuel spare) (start begin : Nat) :
    ReadsExpanded .outside .outside (readGroup (fuel + 1) start)
      (readGroup (fuel + spare + 1) begin) := by
  rintro cursor value last clear read
  rw [readGroup] at read
  obtain ⟨⟨branches, behind⟩, choice_, read⟩ := bind_eq_ok_iff.mp read
  obtain ⟨behindClear, choices⟩ := later.choice cursor branches behind clear choice_
  have eaten := fun other =>
    eat?_expand (c := ')') (by decide) (by decide) behind.position other behind.rest
  dsimp only at read
  cases closes : behind.eat? ')' with
  | none =>
      simp only [closes] at read
      cases read
  | some final =>
      simp only [closes] at read eaten
      cases read
      have opens : behind.rest = ')' :: last.rest := Path.rest_of_eat? closes
      rw [opens, isClear_outside (by decide) (by decide) (by decide)] at behindClear
      refine ⟨behindClear, ?_⟩
      intro position
      obtain ⟨middle, same⟩ := choices position
      refine ⟨middle + ')'.utf8Size, ?_⟩
      rw [readGroup, same]
      simp only [bind, Except.bind]
      rw [eaten]
      rfl

/-! ### Atoms -/

/-- Whether an atom that begins with a character begins with it in the expanded text
as well. -/
def AtomExpands (fuel spare : Nat) (c : Char) (tail : List Char) : Prop :=
  ∀ place value last, isClear .outside (c :: tail) = true →
    readAtom fuel c ⟨place, c :: tail⟩ = .ok (value, last) →
      isClear .outside last.rest = true ∧ ∀ position : Nat, ∃ first others, ∃ next : Nat,
        expandShorthandsAux (c :: tail) = first :: others ∧
          readAtom (fuel + spare) first ⟨position, first :: others⟩ =
            .ok (value, ⟨next, expandShorthandsAux last.rest⟩)

/-- An atom of one character. -/
theorem atomExpands_char {c : Char} (noBackslash : c ≠ '\\') (noBracket : c ≠ '[')
    (noQuote : c ≠ '"') {value : Pattern} (reads : ∀ amount place tail,
      readAtom (amount + 1) c ⟨place, c :: tail⟩ = .ok (value, ⟨place + c.utf8Size, tail⟩))
    (tail : List Char) : AtomExpands (fuel + 1) spare c tail := by
  intro place found last clear read
  rw [reads] at read
  cases read
  rw [isClear_outside noBackslash noBracket noQuote] at clear
  refine ⟨clear, ?_⟩
  intro position
  refine ⟨c, _, position + c.utf8Size, expand_plain noBackslash tail, ?_⟩
  rw [Nat.add_right_comm]
  exact reads _ position _

theorem readAtom_group {tail : List Char} (unmarked : ∀ more, tail ≠ '?' :: more)
    (fuel position : Nat) : readAtom (fuel + 1) '(' ⟨position, '(' :: tail⟩ =
      readGroup fuel position ⟨position + '('.utf8Size, tail⟩ := by
  rw [readAtom]
  dsimp only [Cursor.skip]
  split
  · exact absurd rfl (unmarked _)
  · exact absurd rfl (unmarked _)
  · rfl

theorem readAtom_group_unsupported {c : Char} (noColon : c ≠ ':') (fuel position : Nat)
    (tail : List Char) : readAtom (fuel + 1) '(' ⟨position, '(' :: '?' :: c :: tail⟩ =
      .error (.unsupported position "(?") := by
  rw [readAtom]
  dsimp only [Cursor.skip]
  split
  · rename_i same
    cases same
    exact absurd rfl noColon
  · rfl
  · rename_i different
    exact absurd rfl (different _)

theorem atomExpands_group (later : ReadersExpand fuel spare) (tail : List Char) :
    AtomExpands (fuel + 1) spare '(' tail := by
  intro place value last clear read
  rw [isClear_outside (by decide) (by decide) (by decide)] at clear
  have fuels : fuel + 1 + spare = fuel + spare + 1 := Nat.add_right_comm fuel 1 spare
  have kept : expandShorthandsAux ('(' :: tail) = '(' :: expandShorthandsAux tail :=
    expand_plain (by decide) tail
  by_cases marked : ∃ others, tail = '?' :: others
  · obtain ⟨others, rfl⟩ := marked
    cases others with
    | nil => cases read
    | cons second more =>
        by_cases colon : second = ':'
        · subst colon
          rw [isClear_outside (by decide) (by decide) (by decide),
            isClear_outside (by decide) (by decide) (by decide)] at clear
          have reads := fun begin => later.group place begin _ value last clear read
          refine ⟨(reads 0).1, ?_⟩
          intro position
          obtain ⟨next, same⟩ := (reads position).2
            (position + '('.utf8Size + '?'.utf8Size + ':'.utf8Size)
          refine ⟨'(', _, next, kept, ?_⟩
          rw [expand_plain (by decide), expand_plain (by decide), fuels]
          exact same
        · rw [readAtom_group_unsupported colon] at read
          cases read
  · have unmarked : ∀ more, tail ≠ '?' :: more := fun more same => marked ⟨more, same⟩
    rw [readAtom_group unmarked] at read
    have reads := fun begin => later.group place begin _ value last clear read
    refine ⟨(reads 0).1, ?_⟩
    intro position
    obtain ⟨next, same⟩ := (reads position).2 (position + '('.utf8Size)
    refine ⟨'(', _, next, kept, ?_⟩
    have unmarkedToo : ∀ more, expandShorthandsAux tail ≠ '?' :: more := by
      intro more isMarked
      cases tail with
      | nil => cases isMarked
      | cons c others =>
          obtain ⟨first, behind, expanded, isFirst⟩ := expand_begins c others
          rw [expanded] at isMarked
          cases isMarked
          rcases isFirst with rfl | ⟨-, impossible⟩
          · exact unmarked others rfl
          · cases impossible
    rw [fuels, readAtom_group unmarkedToo]
    exact same

theorem readAtom_class (fuel position : Nat) (tail : List Char) :
    readAtom (fuel + 1) '[' ⟨position, '[' :: tail⟩ = (do
      let (set, behind) ← readClass fuel position ⟨position + '['.utf8Size, tail⟩
      .ok (.oneOf set, behind)) := by
  rw [readAtom]
  rfl

theorem atomExpands_class (enough : 6 ≤ spare) (tail : List Char) :
    AtomExpands (fuel + 1) spare '[' tail := by
  intro place value last clear read
  rw [isClear_plain (by simp) (by decide), Place.next, if_pos rfl] at clear
  rw [readAtom_class] at read
  obtain ⟨⟨set, behind⟩, class_, whole⟩ := bind_eq_ok_iff.mp read
  cases whole
  have reads := fun begin =>
    (classReadersExpand enough fuel).inBrackets 0 place begin _ set last clear class_
  refine ⟨(reads 0).1, ?_⟩
  intro position
  obtain ⟨next, same⟩ := (reads position).2 (position + '['.utf8Size)
  refine ⟨'[', _, next, expand_plain (by decide) tail, ?_⟩
  rw [Nat.add_right_comm, readAtom_class, same]
  rfl

theorem atomExpands_quoted (tail : List Char) : AtomExpands (fuel + 1) spare '"' tail := by
  intro place value last clear read
  rw [isClear_plain (by simp) (by decide), Place.next, if_neg (by decide), if_pos rfl] at clear
  have reads : ∀ amount begin others, readAtom (amount + 1) '"' ⟨begin, '"' :: others⟩ =
      readQuotedAux begin (begin + '"'.utf8Size) others [] := fun _ _ _ => rfl
  rw [reads] at read
  have quotes := readQuotedAux_expand clear read
  refine ⟨(quotes 0).1, ?_⟩
  intro position
  obtain ⟨next, same⟩ := (quotes position).2 (position + '"'.utf8Size)
  refine ⟨'"', _, next, expand_plain (by decide) tail, ?_⟩
  rw [Nat.add_right_comm, reads]
  exact same

theorem readAtom_escape (fuel position : Nat) (tail : List Char) :
    readAtom (fuel + 1) '\\' ⟨position, '\\' :: tail⟩ = (do
      let (set, behind) ← readEscape position ⟨position + '\\'.utf8Size, tail⟩
      .ok (.oneOf set, behind)) := by
  rw [readAtom]
  rfl

/-- A shorthand outside of classes is read as a class. -/
theorem atomExpands_escape (enough : 6 ≤ spare) (tail : List Char) :
    AtomExpands (fuel + 1) spare '\\' tail := by
  intro place value last clear read
  rw [readAtom_escape] at read
  obtain ⟨⟨set, behind⟩, escape, whole⟩ := bind_eq_ok_iff.mp read
  cases whole
  cases tail with
  | nil => cases escape
  | cons letter rest =>
      obtain ⟨stands, sameRest, escapes⟩ := readEscape_kept escape
      rw [isClear_escape (by simp), Bool.and_eq_true, Bool.not_eq_true'] at clear
      rw [sameRest, Nat.add_right_comm]
      refine ⟨clear.2, ?_⟩
      intro position
      cases shorthand : isShorthand letter with
      | false =>
          obtain ⟨next, same⟩ :=
            escapes (position + '\\'.utf8Size) (expandShorthandsAux rest) position
          refine ⟨'\\', _, next, expand_escape shorthand clear.1, ?_⟩
          rw [readAtom_escape, same]
          rfl
      | true =>
          obtain ⟨inside, setToo, bracket, standsToo, -, reads⟩ := readClass_shorthand shorthand
          rw [stands] at standsToo
          cases standsToo
          obtain ⟨less, rfl⟩ := Nat.exists_eq_add_of_le enough
          obtain ⟨next, same⟩ := reads (fuel + less) position (position + '['.utf8Size)
            (expandShorthandsAux rest)
          have fuels : fuel + (6 + less) = fuel + less + 6 := by omega
          have expanded : expandShorthandsAux ('\\' :: letter :: rest) =
              '[' :: (inside ++ expandShorthandsAux rest) := by
            rw [expand_shorthand shorthand, bracket, List.cons_append]
          refine ⟨'[', _, next, expanded, ?_⟩
          rw [fuels, readAtom_class, same]
          rfl

/-- No operator is an atom. -/
theorem readAtom_operator {c : Char} (operator : isOperator c = true) {cursor : Cursor}
    {result : Pattern × Cursor} : readAtom fuel c cursor ≠ .ok result := by
  have isOne : ((c = '*' ∨ c = '+') ∨ c = '?') ∨ c = '\x7b' := by
    simpa [isOperator] using operator
  intro read
  cases fuel with
  | zero => cases read
  | succ fuel => rcases isOne with ((rfl | rfl) | rfl) | rfl <;> cases read

/-- A character that opens nothing is an atom on its own. -/
theorem readAtom_char {c : Char} (noGroup : c ≠ '(') (noBracket : c ≠ '[') (noQuote : c ≠ '"')
    (noBackslash : c ≠ '\\') (noOperator : isOperator c = false) :
    ∃ value, ∀ fuel position tail, readAtom (fuel + 1) c ⟨position, c :: tail⟩ =
      .ok (value, ⟨position + c.utf8Size, tail⟩) := by
  by_cases dot : c = '.'
  · subst dot
    exact ⟨_, fun _ _ _ => rfl⟩
  by_cases start : c = '^'
  · subst start
    exact ⟨_, fun _ _ _ => rfl⟩
  by_cases stop : c = '$'
  · subst stop
    exact ⟨_, fun _ _ _ => rfl⟩
  have isNone : ((c ≠ '*' ∧ c ≠ '+') ∧ c ≠ '?') ∧ c ≠ '\x7b' := by
    simpa [isOperator] using noOperator
  obtain ⟨⟨⟨noStar, noPlus⟩, noMark⟩, noBrace⟩ := isNone
  refine ⟨literal c, ?_⟩
  intro fuel position tail
  rw [readAtom.eq_def]
  simp [Cursor.skip]

theorem atomExpands (enough : 6 ≤ spare) (later : ReadersExpand fuel spare) (c : Char)
    (tail : List Char) : AtomExpands (fuel + 1) spare c tail := by
  by_cases group : c = '('
  · subst group
    exact atomExpands_group later tail
  by_cases bracket : c = '['
  · subst bracket
    exact atomExpands_class enough tail
  by_cases quote : c = '"'
  · subst quote
    exact atomExpands_quoted tail
  by_cases escape : c = '\\'
  · subst escape
    exact atomExpands_escape enough tail
  cases operator : isOperator c with
  | true =>
      intro place value last clear read
      exact absurd read (readAtom_operator operator)
  | false =>
      obtain ⟨value, reads⟩ := readAtom_char group bracket quote escape operator
      exact atomExpands_char escape bracket quote reads tail

end Sequences

theorem readersExpand {spare : Nat} (enough : 6 ≤ spare) (fuel : Nat) :
    ReadersExpand fuel spare := by
  induction fuel with
  | zero =>
      constructor
      · intro start value last clear read
        cases read
      · intro start value last clear read
        cases read
      · intro c tail place value last clear read
        cases read
      · intro start begin cursor value last clear read
        cases read
  | succ fuel inductionHypothesis =>
      have fuels : fuel + 1 + spare = fuel + spare + 1 := Nat.add_right_comm fuel 1 spare
      constructor
      · rw [fuels]
        exact readsExpanded_readChoice inductionHypothesis
      · rw [fuels]
        exact readsExpanded_readSequence inductionHypothesis
      · intro c tail
        exact atomExpands enough inductionHypothesis c tail
      · intro start begin
        rw [fuels]
        exact readsExpanded_readGroup inductionHypothesis start begin

/-! ## Whole expressions -/

/-- Where shorthands are written out, the text grows by three characters at least. -/
theorem expand_eq_or_longer (text : List Char) :
    expandShorthandsAux text = text ∨
      text.length + 3 ≤ (expandShorthandsAux text).length := by
  induction text using List.twoStepInduction with
  | nil => exact Or.inl rfl
  | singleton c => exact Or.inl (expand_cons c [] fun _ => rfl)
  | cons_cons c second rest skipsOne inductionHypothesis =>
      by_cases shorthand : c = '\\' ∧ isShorthand second = true
      · obtain ⟨rfl, shorthand⟩ := shorthand
        have long : 5 ≤ (shorthandClass second).length := by
          simp only [isShorthand, Bool.or_eq_true, beq_iff_eq] at shorthand
          rcases shorthand with (rfl | rfl) | rfl <;> decide
        right
        rw [expand_shorthand shorthand, List.length_append, List.length_cons, List.length_cons]
        rcases skipsOne with same | longer
        · rw [same]
          omega
        · omega
      · have kept : expandShorthandsAux (c :: second :: rest) =
            c :: expandShorthandsAux (second :: rest) := by
          apply expand_cons
          rintro rfl
          rw [← Bool.not_eq_true]
          exact fun opens => shorthand ⟨rfl, opens⟩
        rw [kept]
        rcases inductionHypothesis second with same | longer
        · left
          rw [same]
        · right
          simp only [List.length_cons] at longer ⊢
          omega

variable {text : String}

theorem toList_expandShorthands (text : String) :
    (expandShorthands text).toList = expandShorthandsAux text.toList := by
  rw [expandShorthands, String.toList_ofList]

/-- Where shorthands are escapes, writing them out keeps the pattern. -/
theorem parse_expandShorthands (clear : isClear .outside text.toList = true) {pattern : Pattern}
    (parsed : parse text = .ok pattern) : parse (expandShorthands text) = .ok pattern := by
  rcases expand_eq_or_longer text.toList with same | longer
  · rw [expandShorthands, same, String.ofList_toList]
    exact parsed
  · rw [parse] at parsed
    obtain ⟨⟨branches, behind⟩, choice_, ends⟩ := bind_eq_ok_iff.mp parsed
    obtain ⟨spare, grows⟩ := Nat.exists_eq_add_of_le longer
    have start : Cursor.ofString (expandShorthands text) =
        ⟨0, expandShorthandsAux text.toList⟩ := by
      rw [Cursor.ofString, toList_expandShorthands]
    have enough : enoughFuel (expandShorthandsAux text.toList).length =
        enoughFuel text.toList.length + (5 * spare + 15) := by
      rw [grows, enoughFuel, enoughFuel]
      omega
    have enoughSpare : 6 ≤ 5 * spare + 15 := by omega
    obtain ⟨-, choices⟩ := (readersExpand enoughSpare _).choice _ _ _ clear choice_
    obtain ⟨next, same⟩ := choices 0
    rw [parse, start, bind_eq_ok_iff]
    refine ⟨(branches, ⟨next, expandShorthandsAux behind.rest⟩), ?_, ?_⟩
    · dsimp only
      rw [enough]
      exact same
    · dsimp only at ends ⊢
      cases atEnd : behind.rest with
      | nil =>
          rw [atEnd] at ends
          exact ends
      | cons c others =>
          rw [atEnd] at ends
          cases ends

/-- Where shorthands are escapes of an expression, writing them out keeps the
automaton, so the expression keeps its texts. -/
theorem expandShorthands_keeps_automaton (clear : isClear .outside text.toList = true)
    {automaton : Automaton} (built : (parse text >>= Automaton.ofPattern) = .ok automaton) :
    (parse (expandShorthands text) >>= Automaton.ofPattern) = .ok automaton := by
  obtain ⟨pattern, parsed, isAutomaton⟩ := bind_eq_ok_iff.mp built
  exact bind_eq_ok_iff.mpr ⟨pattern, parse_expandShorthands clear parsed, isAutomaton⟩

/-! ### A digit in brackets -/

/-- A digit, a parenthesis and a letter: the shorthand stands in a class, in front of
an escape and of a quoted text. -/
def digitInBrackets : String := "[\\d]\\(\"x\""

/-- The automaton that reads a digit, a parenthesis and a letter. -/
def digitAutomaton : Automaton :=
  ⟨#[⟨false, [⟨⟨48, 57⟩, 1⟩]⟩, ⟨false, [⟨⟨40, 40⟩, 2⟩]⟩, ⟨false, [⟨⟨120, 120⟩, 3⟩]⟩, ⟨true, []⟩]⟩

theorem build_digitInBrackets :
    (parse digitInBrackets >>= Automaton.ofPattern) = .ok digitAutomaton := by cbv

theorem digitInBrackets_keeps_automaton :
    isClear .outside digitInBrackets.toList = true ∧
      (parse digitInBrackets >>= Automaton.ofPattern) = .ok digitAutomaton ∧
        (parse (expandShorthands digitInBrackets) >>= Automaton.ofPattern) = .ok digitAutomaton :=
  have clear : isClear .outside digitInBrackets.toList = true := by decide +kernel
  ⟨clear, build_digitInBrackets, expandShorthands_keeps_automaton clear build_digitInBrackets⟩

/-! ### Shorthands that are no escapes -/

/-- Behind the second backslash of an escape and in a quoted text the two characters of
a shorthand are no escape, but they are written out there as well: a backslash and a
letter are then no text of the expression any more. -/
theorem expandShorthands_loses_text :
    (parse "\\\\d" >>= Automaton.ofPattern).map (·.accepts "\\d") = .ok true ∧
      (parse (expandShorthands "\\\\d") >>= Automaton.ofPattern).map (·.accepts "\\d") =
        .ok false ∧
      (parse "\"\\d\"" >>= Automaton.ofPattern).map (·.accepts "\\d") = .ok true ∧
      (parse (expandShorthands "\"\\d\"") >>= Automaton.ofPattern).map (·.accepts "\\d") =
        .ok false := by
  have afterEscape : expandShorthands "\\\\d" = "\\[0-9]" := by decide +kernel
  have inQuotes : expandShorthands "\"\\d\"" = "\"[0-9]\"" := by decide +kernel
  rw [afterEscape, inQuotes]
  refine ⟨?_, ?_, ?_, ?_⟩
  · cbv
  · cbv
  · cbv
  · cbv

end Pattern

end BodyContract
