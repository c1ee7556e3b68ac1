import BodyContract.Matcher.Removal
import BodyContract.Proofs.Path.Paces

/-!
# In front of the last step

The containers around a path are found by its text: it is cut off in front of
its last brackets, or in front of its last dot.  For a path of steps that gives
the path of some steps in front of the last one, or a text that breaks off
inside a step and cannot be read.
-/

namespace BodyContract

variable {separator : Char} {front back : List Char}

/-! ## Cutting off -/

theorem splitAtLast?_of_notMem {others : List Char} (free : separator ∉ back) :
    splitAtLast? (separator :: others) back = none := by
  induction back with
  | nil => rfl
  | cons c rest inductionHypothesis =>
      rw [List.mem_cons, not_or] at free
      rw [splitAtLast?, inductionHypothesis free.2]
      simp [free.1]

theorem splitAtLast?_separator (free : separator ∉ back) :
    splitAtLast? [separator] (front ++ separator :: back) = some (front, separator :: back) := by
  induction front with
  | nil =>
      rw [List.nil_append, splitAtLast?, splitAtLast?_of_notMem free]
      simp
  | cons c rest inductionHypothesis => rw [List.cons_append, splitAtLast?, inductionHypothesis]

theorem splitAtLast?_append (free : separator ∉ back) :
    splitAtLast? [separator] (front ++ back) =
      (splitAtLast? [separator] front).map fun parts => (parts.1, parts.2 ++ back) := by
  induction front with
  | nil => rw [List.nil_append, splitAtLast?_of_notMem free, splitAtLast?, Option.map_none]
  | cons c rest inductionHypothesis =>
      rw [List.cons_append, splitAtLast?, splitAtLast?, inductionHypothesis]
      cases splitAtLast? [separator] rest with
      | some parts => rfl
      | none =>
          rw [Option.map_none]
          by_cases same : separator = c
          · simp [same]
          · simp [same]

/-- The place behind which a character does not come again. -/
theorem exists_last_of_mem (isIn : separator ∈ back) :
    ∃ before behind, back = before ++ separator :: behind ∧ separator ∉ behind := by
  obtain ⟨behind, before, same, free⟩ := List.eq_append_cons_of_mem (List.mem_reverse.mpr isIn)
  refine ⟨before.reverse, behind.reverse, ?_, ?_⟩
  · rw [← List.reverse_reverse back, same, List.reverse_append, List.reverse_cons,
      List.append_assoc, List.singleton_append]
  · rw [List.mem_reverse]
    exact free

/-! ## Steps whose ends are found -/

namespace Pace

/-- Whether the ends of a step are found in its text: no bracket is closed and
no line ends inside a quoted name, and it has no dots if a dot is in front. -/
def isPlain : Pace → Bool
  | .bracketed isDotted (.key name) =>
      decide (']' ∉ name.toList ∧ '\n' ∉ name.toList ∧ (isDotted = true → '.' ∉ name.toList))
  | _ => true

/-- Whether a step begins with a dot. -/
def beginsWithDot : Pace → Bool
  | .bare _ => true
  | .bracketed isDotted _ => isDotted

variable {pace : Pace} {isDotted : Bool} {step : Step}

/-- What stands between the brackets of a step. -/
theorem bracketed_inside (plain : (Pace.bracketed isDotted step).isPlain = true) :
    ∃ inside, step.bracketed = '[' :: (inside ++ [']']) ∧ ']' ∉ inside ∧ '\n' ∉ inside := by
  cases step with
  | key name =>
      rw [isPlain, decide_eq_true_eq] at plain
      have notBetween : ∀ c, c ≠ '\\' → c ≠ '\'' → c ∉ name.toList →
          c ∉ '\'' :: (escapedFor '\'' name.toList ++ ['\'']) := by
        intro c notBackslash notQuote notIn isIn
        rw [List.mem_cons, List.mem_append, List.mem_singleton] at isIn
        rcases isIn with isQuote | isInside | isQuote
        · exact notQuote isQuote
        · exact notIn ((mem_escapedFor_iff notBackslash).mp isInside)
        · exact notQuote isQuote
      refine ⟨'\'' :: (escapedFor '\'' name.toList ++ ['\'']), ?_, ?_, ?_⟩
      · simp [Step.bracketed]
      · exact notBetween ']' (by decide) (by decide) plain.1
      · exact notBetween '\n' (by decide) (by decide) plain.2.1
  | index position =>
      refine ⟨Nat.toDigits 10 position, rfl, ?_, ?_⟩
      · intro isIn
        exact absurd (isDigit_of_mem_toDigits isIn) (by decide)
      · intro isIn
        exact absurd (isDigit_of_mem_toDigits isIn) (by decide)

/-- No bracket is in a bare name. -/
theorem notMem_of_bare {name : String} (readable : (Pace.bare name).isReadable false = true)
    {c : Char} (special : Path.endsName false c = true) : c ∉ name.toList := by
  rw [isReadable, Bool.and_eq_true, List.all_eq_true] at readable
  intro isIn
  have inside := readable.2 c isIn
  rw [special] at inside
  cases inside

/-- A dot between brackets is inside a name. -/
theorem key_of_dot (isIn : '.' ∈ step.bracketed) : ∃ name, step = .key name ∧ '.' ∈ name.toList := by
  cases step with
  | key name =>
      simp only [Step.bracketed, List.mem_cons, List.mem_append, List.not_mem_nil, or_false]
        at isIn
      refine ⟨name, rfl, ?_⟩
      rcases isIn with isOther | isOther | isInside | isOther | isOther
      · exact absurd isOther (by decide)
      · exact absurd isOther (by decide)
      · exact (mem_escapedFor_iff (by decide)).mp isInside
      · exact absurd isOther (by decide)
      · exact absurd isOther (by decide)
  | index position =>
      simp only [Step.bracketed, List.mem_cons, List.mem_append, List.not_mem_nil, or_false]
        at isIn
      rcases isIn with isOther | isDigit | isOther
      · exact absurd isOther (by decide)
      · exact absurd (isDigit_of_mem_toDigits isDigit) (by decide)
      · exact absurd isOther (by decide)

/-- A step that begins with a dot has no other one. -/
theorem chars_of_beginsWithDot (begins : pace.beginsWithDot = true)
    (readable : pace.isReadable false = true) (plain : pace.isPlain = true) :
    ∃ behind, pace.chars = '.' :: behind ∧ '.' ∉ behind := by
  cases pace with
  | bare name => exact ⟨name.toList, rfl, notMem_of_bare readable (by decide)⟩
  | bracketed isDotted step =>
      have dotted : isDotted = true := begins
      rw [dotted] at plain ⊢
      refine ⟨step.bracketed, rfl, ?_⟩
      intro isIn
      obtain ⟨name, rfl, isInside⟩ := key_of_dot isIn
      rw [isPlain, decide_eq_true_eq] at plain
      exact plain.2.2 rfl isInside

end Pace

/-! ## In front of the last brackets -/

section

open Pace

variable {paces : List Pace} {isDotted : Bool} {step : Step} {rest : List Char}

theorem lastBrackets?_skip (free : '[' ∉ front) (fuel : Nat) :
    lastBrackets? (fuel + front.length) (front ++ rest) = lastBrackets? fuel rest := by
  induction front with
  | nil => rfl
  | cons c more inductionHypothesis =>
      rw [List.mem_cons, not_or] at free
      have different : c ≠ '[' := fun same => free.1 same.symm
      rw [List.length_cons, ← Nat.add_assoc, List.cons_append, lastBrackets?, if_neg different]
      exact inductionHypothesis free.2

theorem skipBrackets?_close {inside : List Char} (open_ : ']' ∉ inside) (line : '\n' ∉ inside) :
    skipBrackets? (inside ++ ']' :: rest) = some rest := by
  induction inside with
  | nil => rw [List.nil_append, skipBrackets?, if_pos rfl]
  | cons c more inductionHypothesis =>
      rw [List.mem_cons, not_or] at open_ line
      rw [List.cons_append, skipBrackets?, if_neg (Ne.symm open_.1), if_neg (Ne.symm line.1)]
      exact inductionHypothesis open_.2 line.2

theorem lastBrackets?_bracketed (plain : (Pace.bracketed isDotted step).isPlain = true)
    (fuel : Nat) : lastBrackets? (fuel + 1) (step.bracketed ++ rest) =
      some ((lastBrackets? fuel rest).getD (step.bracketed ++ rest).length) := by
  obtain ⟨inside, same, open_, line⟩ := bracketed_inside plain
  have opens : step.bracketed ++ rest = '[' :: (inside ++ ']' :: rest) := by
    rw [same, List.cons_append, List.append_assoc, List.singleton_append]
  rw [opens, lastBrackets?, if_pos rfl, skipBrackets?_close open_ line, List.length_cons]

/-- The last brackets in the characters of steps are those of the last step in
brackets. -/
theorem lastBrackets?_charsOf (readable : ∀ pace ∈ paces, pace.isReadable false = true)
    (plain : ∀ pace ∈ paces, pace.isPlain = true) {fuel : Nat}
    (enough : (charsOf paces).length ≤ fuel) :
    (lastBrackets? fuel (charsOf paces) = none ∧ ∀ pace ∈ paces, ∃ name, pace = .bare name) ∨
      ∃ front isDotted step back, paces = front ++ .bracketed isDotted step :: back ∧
        (∀ pace ∈ back, ∃ name, pace = .bare name) ∧
        lastBrackets? fuel (charsOf paces) = some (step.bracketed ++ charsOf back).length := by
  induction paces generalizing fuel with
  | nil =>
      refine Or.inl ⟨?_, fun pace isIn => absurd isIn List.not_mem_nil⟩
      cases fuel <;> rfl
  | cons pace rest inductionHypothesis =>
      have readableToo := fun other isIn => readable other (List.mem_cons_of_mem pace isIn)
      have plainToo := fun other isIn => plain other (List.mem_cons_of_mem pace isIn)
      rw [charsOf_cons, List.length_append] at enough
      -- Characters in front of any bracket are skipped.
      have skipped : ∀ {run : List Char}, '[' ∉ run → run.length ≤ fuel → ∀ chars,
          lastBrackets? fuel (run ++ chars) = lastBrackets? (fuel - run.length) chars := by
        intro run free short chars
        have split : fuel = fuel - run.length + run.length := (Nat.sub_add_cancel short).symm
        rw [split, lastBrackets?_skip free, Nat.add_sub_cancel]
      cases pace with
      | bare name =>
          have free : '[' ∉ (Pace.bare name).chars := by
            rw [Pace.chars, List.mem_cons, not_or]
            exact ⟨by decide, notMem_of_bare (readable _ List.mem_cons_self) (by decide)⟩
          rw [charsOf_cons, skipped free (by omega)]
          have enoughToo : (charsOf rest).length ≤ fuel - (Pace.bare name).chars.length := by omega
          rcases inductionHypothesis readableToo plainToo enoughToo with
            ⟨found, bare⟩ | ⟨front, isDotted, step, back, rfl, bare, found⟩
          · refine Or.inl ⟨found, ?_⟩
            intro other isIn
            rcases List.mem_cons.mp isIn with rfl | isLater
            · exact ⟨name, rfl⟩
            · exact bare other isLater
          · exact Or.inr ⟨.bare name :: front, isDotted, step, back, rfl, bare, found⟩
      | bracketed isDotted step =>
          have free : '[' ∉ dot isDotted := by cases isDotted <;> decide
          obtain ⟨inside, opens⟩ := bracketed_begins step
          have long : 1 ≤ step.bracketed.length := by
            rw [opens, List.length_cons]
            omega
          rw [Pace.chars, List.length_append] at enough
          have fuels : fuel - (dot isDotted).length =
              (fuel - (dot isDotted).length - 1) + 1 := by omega
          rw [charsOf_cons, Pace.chars, List.append_assoc, skipped free (by omega), fuels,
            lastBrackets?_bracketed (plain _ List.mem_cons_self)]
          have enoughToo : (charsOf rest).length ≤ fuel - (dot isDotted).length - 1 := by omega
          rcases inductionHypothesis readableToo plainToo enoughToo with
            ⟨found, bare⟩ | ⟨front, isDottedToo, stepToo, back, rfl, bare, found⟩
          · refine Or.inr ⟨[], isDotted, step, rest, rfl, bare, ?_⟩
            rw [found, Option.getD_none]
          · refine Or.inr ⟨.bracketed isDotted step :: front, isDottedToo, stepToo, back, rfl,
              bare, ?_⟩
            rw [found, Option.getD_some]

/-- Without its last brackets, a path of steps ends in front of the last step in
brackets, or behind its dot. -/
theorem withoutLastBrackets_textOf (readable : ∀ pace ∈ paces, pace.isReadable false = true)
    (plain : ∀ pace ∈ paces, pace.isPlain = true) :
    (withoutLastBrackets (textOf paces) = textOf paces ∧
        ∀ pace ∈ paces, ∃ name, pace = .bare name) ∨
      ∃ front isDotted step back, paces = front ++ .bracketed isDotted step :: back ∧
        (∀ pace ∈ back, ∃ name, pace = .bare name) ∧
        withoutLastBrackets (textOf paces) =
          String.ofList ('$' :: (charsOf front ++ dot isDotted)) := by
  have first : lastBrackets? ('$' :: charsOf paces).length ('$' :: charsOf paces) =
      lastBrackets? (charsOf paces).length (charsOf paces) :=
    @lastBrackets?_skip ['$'] (charsOf paces) (by decide) _
  rw [withoutLastBrackets, toList_textOf, first]
  rcases lastBrackets?_charsOf readable plain (Nat.le_refl _) with
    ⟨found, bare⟩ | ⟨front, isDotted, step, back, rfl, bare, found⟩
  · rw [found]
    exact Or.inl ⟨rfl, bare⟩
  · refine Or.inr ⟨front, isDotted, step, back, rfl, bare, ?_⟩
    rw [found]
    have split : '$' :: charsOf (front ++ .bracketed isDotted step :: back) =
        ('$' :: (charsOf front ++ dot isDotted)) ++ (step.bracketed ++ charsOf back) := by
      rw [charsOf_append, charsOf_cons, Pace.chars]
      simp
    dsimp only
    rw [split, List.length_append, Nat.add_sub_cancel, List.take_left]

/-- In front of the brackets of the last step there are all other steps. -/
theorem withoutLastBrackets_of_bracketed {front : List Pace}
    (readable : ∀ pace ∈ front ++ [.bracketed false step], pace.isReadable false = true)
    (plain : ∀ pace ∈ front ++ [.bracketed false step], pace.isPlain = true) :
    withoutLastBrackets (textOf (front ++ [.bracketed false step])) = textOf front := by
  rcases withoutLastBrackets_textOf readable plain with
    ⟨-, bare⟩ | ⟨first, isDotted, stepToo, back, same, bare, cut⟩
  · obtain ⟨name, impossible⟩ := bare (.bracketed false step)
      (List.mem_append_right front (List.mem_singleton_self _))
    cases impossible
  · cases back using List.reverseRecOn with
    | nil =>
        obtain ⟨rfl, sameLast⟩ := List.append_inj' same rfl
        cases sameLast
        rw [cut, dot, if_neg Bool.false_ne_true, List.append_nil]
        rfl
    | append_singleton others last =>
        rw [← List.cons_append, ← List.append_assoc] at same
        have sameLast := (List.append_inj' same rfl).2
        obtain ⟨name, isBare⟩ :=
          bare last (List.mem_append_right others (List.mem_singleton_self _))
        rw [isBare] at sameLast
        cases sameLast

/-! ## In front of the last dot -/

/-- In front of the last dot there are steps, or the text breaks off inside
quotes. -/
theorem withoutLastDot?_textOf (readable : ∀ pace ∈ paces, pace.isReadable false = true)
    (plain : ∀ pace ∈ paces, pace.isPlain = true) {parent : String}
    (split : withoutLastDot? (textOf paces) = some parent) :
    Path.IsUnreadable parent ∨
      ∃ front last back, paces = front ++ last :: back ∧ parent = textOf front := by
  induction paces using List.reverseRecOn generalizing parent with
  | nil => cases split
  | append_singleton front last inductionHypothesis =>
      have readableFront := fun pace isIn => readable pace (List.mem_append_left [last] isIn)
      have plainFront := fun pace isIn => plain pace (List.mem_append_left [last] isIn)
      have isLast : last ∈ front ++ [last] := List.mem_append_right front (List.mem_singleton_self _)
      rw [withoutLastDot?, toList_textOf, charsOf_concat, ← List.cons_append] at split
      cases begins : last.beginsWithDot with
      | true =>
          obtain ⟨behind, same, free⟩ :=
            chars_of_beginsWithDot begins (readable last isLast) (plain last isLast)
          rw [same, splitAtLast?_separator free] at split
          cases split
          exact Or.inr ⟨front, last, [], rfl, rfl⟩
      | false =>
          cases last with
          | bare name => cases begins
          | bracketed isDotted step =>
              have undotted : isDotted = false := begins
              rw [undotted] at split readable isLast
              have chars : (Pace.bracketed false step).chars = step.bracketed := rfl
              rw [chars] at split
              by_cases isIn : '.' ∈ step.bracketed
              · obtain ⟨name, rfl, isInside⟩ := key_of_dot isIn
                obtain ⟨before, behind, same, free⟩ := exists_last_of_mem isInside
                have name_ : Path.keepsBackslashes (before ++ '.' :: behind) = true := by
                  rw [← same]
                  exact readable _ isLast
                have escaped : escapedFor '\'' (before ++ '.' :: behind) =
                    escapedFor '\'' before ++ '.' :: escapedFor '\'' behind := by
                  rw [escapedFor, List.flatMap_append]
                  rfl
                have freeToo : '.' ∉ escapedFor '\'' behind ++ ['\'', ']'] := by
                  rw [List.mem_append, not_or]
                  exact ⟨fun isBehind => free ((mem_escapedFor_iff (by decide)).mp isBehind),
                    by decide⟩
                have whole : ('$' :: charsOf front) ++ (Step.key name).bracketed =
                    ('$' :: (charsOf front ++ (dot false ++ '[' :: '\'' :: escapedFor '\'' before)))
                      ++ '.' :: (escapedFor '\'' behind ++ ['\'', ']']) := by
                  rw [Step.bracketed, same, escaped]
                  simp [dot]
                rw [whole, splitAtLast?_separator freeToo] at split
                cases split
                exact Or.inl (Path.isUnreadable_of_quote readableFront name_ false)
              · rw [splitAtLast?_append isIn, Option.map_map] at split
                have splitFront : withoutLastDot? (textOf front) = some parent := by
                  rw [withoutLastDot?, toList_textOf]
                  exact split
                rcases inductionHypothesis readableFront plainFront splitFront with
                  broken | ⟨first, middle, others, rfl, same⟩
                · exact Or.inl broken
                · refine Or.inr ⟨first, middle, others ++ [.bracketed isDotted step], ?_, same⟩
                  rw [List.append_assoc, List.cons_append]

/-- In front of the dot of the last step there are all other steps. -/
theorem withoutLastDot?_of_beginsWithDot {front : List Pace} {last : Pace}
    (begins : last.beginsWithDot = true) (readable : last.isReadable false = true)
    (plain : last.isPlain = true) :
    withoutLastDot? (textOf (front ++ [last])) = some (textOf front) := by
  obtain ⟨behind, same, free⟩ := chars_of_beginsWithDot begins readable plain
  rw [withoutLastDot?, toList_textOf, charsOf_concat, same, ← List.cons_append,
    splitAtLast?_separator free]
  rfl

end

end BodyContract
