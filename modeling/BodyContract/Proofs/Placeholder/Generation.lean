import BodyContract.Placeholder.Basic
import BodyContract.Proofs.Path.Matching
import BodyContract.Proofs.Regex.Literal
import BodyContract.Proofs.Sampling.Seeded

/-!
# What is generated for a placeholder

A generated value is read from an accepted text that is no longer than the limit
of a walk.  If the pattern has one text only, it is read from this text.  Whether
the value still has the text depends on the kind: `ValueKind.keeps`.
-/

namespace BodyContract

namespace ValueKind

/-- Whether a generated value of the kind has the text that it is read from.
Texts are written with their escapes, truth values as words, and numbers in the
shortest form. -/
def keeps (kind : ValueKind) (text : String) : Bool :=
  match kind with
  | .text => escapeJava text == text
  | .boolean => text == "true" || text == "false"
  | kind => (kind.read? text).bind Json.scalarText? == some text

end ValueKind

namespace Placeholder

/-- A generated value is read from an accepted text. -/
theorem exists_text_of_generateAux {placeholder : Placeholder} {attempts : Nat} {last : String}
    {sampler : Sampler} {value : Json}
    (made : generateAux placeholder attempts last sampler = .ok value) :
    ∃ text, sampler.automaton.accepts text = true ∧ text.length ≤ sampler.limit ∧
      placeholder.kind.read? text = some value := by
  induction attempts generalizing last sampler with
  | zero => cases made
  | succ attempts inductionHypothesis =>
      have kept : sampler.sample.2.automaton = sampler.automaton ∧
          sampler.sample.2.limit = sampler.limit := ⟨rfl, rfl⟩
      have short : sampler.sample.1.length ≤ sampler.limit := by
        have written : sampler.sample.1 = String.ofList (sampler.automaton.walk .fromSource
            sampler.limit Automaton.initial sampler.source).1 := rfl
        rw [written, ← String.length_toList, String.toList_ofList]
        exact Automaton.length_walk_le _ _ _ _
      rw [generateAux] at made
      dsimp only at made
      split at made
      · rename_i read
        cases made
        split at read
        · rename_i accepts
          exact ⟨sampler.sample.1, accepts, short, read⟩
        · cases read
      · obtain ⟨text, accepts, within, read⟩ := inductionHypothesis made
        rw [kept.1] at accepts
        rw [kept.2] at within
        exact ⟨text, accepts, within, read⟩

/-! ## Patterns with one text -/

/-- Whether a text is the only one that a pattern has, and conditions of paths
take it for one as well.  For literal expressions both follow. -/
inductive Spells (pattern text : String) : Prop where
  | literal (isLiteral : Pattern.IsLiteral pattern.toList text.toList)
  | agreed
      (only : ∀ source sampler, Sampler.ofExpression pattern source = .ok sampler →
        ∀ word, sampler.automaton.accepts word = true → word = text)
      (matched : ∃ regex, Path.wholeMatch? pattern = some regex ∧
        regex.regex.isMatch text = true)

variable {pattern text : String}

theorem Spells.only (spells : Spells pattern text) {source : RandomSource} {sampler : Sampler}
    (made : Sampler.ofExpression pattern source = .ok sampler) {word : String}
    (accepts : sampler.automaton.accepts word = true) : word = text := by
  cases spells with
  | agreed only _ => exact only source sampler made word accepts
  | literal isLiteral =>
      obtain ⟨tree, read, made⟩ := bind_eq_ok_iff.mp made
      obtain ⟨automaton, built, made⟩ := bind_eq_ok_iff.mp made
      cases made
      have parsed := Pattern.parse_literal isLiteral
      rw [String.ofList_toList, read] at parsed
      cases parsed
      exact String.toList_injective ((Automaton.accepts_literal_iff built word).mp accepts)

/-- The sampler of a literal expression. -/
theorem ofExpression_literal {chars : List Char} (literal : Pattern.IsLiteral pattern.toList chars)
    {automaton : Automaton}
    (built : Automaton.ofPattern (.ofSequence (chars.map .literal)) = .ok automaton)
    (source : RandomSource) : Sampler.ofExpression pattern source =
      .ok ⟨automaton, source, Sampler.defaultLimit⟩ := by
  have parsed := Pattern.parse_literal literal
  rw [String.ofList_toList] at parsed
  exact bind_eq_ok_iff.mpr ⟨_, parsed, bind_eq_ok_iff.mpr ⟨_, built, rfl⟩⟩

/-- The expression that a path holds for the pattern matches the text. -/
theorem Spells.matched (spells : Spells pattern text) (short : text.length < 32768) :
    ∃ regex, Path.wholeMatch? pattern = some regex ∧ regex.regex.isMatch text = true := by
  cases spells with
  | agreed _ matched => exact matched
  | literal isLiteral =>
      rw [← String.length_toList] at short
      have found := Path.wholeMatch?_literal isLiteral short
      rwa [String.ofList_toList, String.ofList_toList] at found

/-- What is generated where a pattern has one text only is read from it. -/
theorem read?_of_generate {placeholder : Placeholder} (spells : Spells placeholder.pattern text)
    {value : Json} (made : placeholder.generate = .ok value) :
    text.length ≤ Sampler.defaultLimit ∧ placeholder.kind.read? text = some value := by
  rw [generate, generateSeeded] at made
  split at made
  · cases made
  · rename_i sampler isSampler
    obtain ⟨found, accepts, short, read⟩ := exists_text_of_generateAux made
    have limit : sampler.limit = Sampler.defaultLimit := by
      obtain ⟨tree, -, isSampler⟩ := bind_eq_ok_iff.mp isSampler
      obtain ⟨automaton, -, isSampler⟩ := bind_eq_ok_iff.mp isSampler
      cases isSampler
      rfl
    rw [spells.only isSampler accepts, limit] at short
    rw [spells.only isSampler accepts] at read
    exact ⟨short, read⟩

/-- A generated value that keeps the text of its pattern has it. -/
theorem scalarText?_of_generateEscaped {placeholder : Placeholder}
    (spells : Spells placeholder.pattern text) (kept : placeholder.kind.keeps text = true)
    {value : Json} (made : placeholder.generateEscaped = .ok value) :
    text.length ≤ Sampler.defaultLimit ∧ value.scalarText? = some text := by
  obtain ⟨plain, generated, written⟩ := bind_eq_ok_iff.mp made
  obtain ⟨short, read⟩ := read?_of_generate spells generated
  refine ⟨short, ?_⟩
  obtain ⟨pattern, kind⟩ := placeholder
  dsimp only at kept read written
  cases kind with
  | text =>
      cases read
      cases written
      exact congrArg some (beq_iff_eq.mp kept)
  | boolean =>
      rcases (Bool.or_eq_true _ _).mp kept with isTrue | isFalse
      · rw [beq_iff_eq.mp isTrue] at read ⊢
        cases read
        cases written
        decide
      · rw [beq_iff_eq.mp isFalse] at read ⊢
        cases read
        cases written
        decide
  | _ =>
      cases written
      rw [ValueKind.keeps, read] at kept
      · exact beq_iff_eq.mp kept
      all_goals exact ValueKind.noConfusion

/-- The expression that a path holds for a pattern matches what is generated. -/
theorem matchesText_of_generateEscaped {placeholder : Placeholder}
    (spells : Spells placeholder.pattern text) (kept : placeholder.kind.keeps text = true)
    {value : Json} (made : placeholder.generateEscaped = .ok value) :
    ∃ regex, Path.wholeMatch? placeholder.pattern = some regex ∧
      value.matchesText regex = true := by
  obtain ⟨short, hasText⟩ := scalarText?_of_generateEscaped spells kept made
  have limit : Sampler.defaultLimit < 32768 := by decide
  obtain ⟨regex, isWhole, accepts⟩ := spells.matched (Nat.lt_of_le_of_lt short limit)
  refine ⟨regex, isWhole, ?_⟩
  rw [Json.matchesText, hasText]
  exact accepts

/-! ## Automata without a choice -/

section Forced

variable {automaton : Automaton} {chars : List Char}
  (forces : automaton.Forces Automaton.initial chars)

include forces

/-- An automaton without a choice has one text only. -/
theorem spells_of_forces
    (made : ∀ source, Sampler.ofExpression pattern source =
      .ok ⟨automaton, source, Sampler.defaultLimit⟩)
    (matched : ∃ regex, Path.wholeMatch? pattern = some regex ∧
      regex.regex.isMatch (String.ofList chars) = true) : Spells pattern (String.ofList chars) := by
  refine .agreed ?_ matched
  intro source sampler isSampler word accepts
  rw [made source] at isSampler
  cases isSampler
  apply String.toList_injective
  rw [String.toList_ofList]
  exact (Automaton.acceptsFrom_iff_of_forces forces _).mp accepts

/-- Where the automaton of a pattern has no choice, its text is generated. -/
theorem generate_of_forces {placeholder : Placeholder}
    (made : ∀ source, Sampler.ofExpression placeholder.pattern source =
      .ok ⟨automaton, source, Sampler.defaultLimit⟩)
    (short : chars.length ≤ Sampler.defaultLimit) {value : Json}
    (read : placeholder.kind.read? (String.ofList chars) = some value) :
    placeholder.generate = .ok value := by
  have written : (Sampler.mk automaton (.ofSeed 0) Sampler.defaultLimit).sample.1 =
      String.ofList chars :=
    congrArg String.ofList (Automaton.walk_of_forces forces short (.ofSeed 0))
  have accepts : (Sampler.mk automaton (.ofSeed 0) Sampler.defaultLimit).sample.2.automaton.accepts
      (String.ofList chars) = true := by
    rw [Automaton.accepts, String.toList_ofList]
    exact (Automaton.acceptsFrom_iff_of_forces forces _).mpr rfl
  have several : attempts = 99 + 1 := rfl
  rw [generate, generateSeeded, made]
  dsimp only
  rw [several, generateAux]
  simp only [written, accepts, if_true, read]

omit forces

/-- The text of a literal expression is generated. -/
theorem generate_literal {placeholder : Placeholder}
    (literal : Pattern.IsLiteral placeholder.pattern.toList chars)
    (built : Automaton.ofPattern (.ofSequence (chars.map .literal)) = .ok (.ofText chars))
    (short : chars.length ≤ Sampler.defaultLimit) {value : Json}
    (read : placeholder.kind.read? (String.ofList chars) = some value) :
    placeholder.generate = .ok value :=
  generate_of_forces (Automaton.forces_ofText chars) (ofExpression_literal literal built) short read

end Forced

/-! ## Bodies -/

theorem markedPattern?_of_ofMarker? {value : Json} {placeholder : Placeholder}
    (isMarker : ofMarker? value = some placeholder) :
    markedPattern? value = some placeholder.pattern := by
  obtain ⟨pattern, marked, rest⟩ := Option.bind_eq_some_iff.mp isMarker
  rw [marked]
  split at rest
  · cases rest
    rfl
  · obtain ⟨name, -, rest⟩ := Option.bind_eq_some_iff.mp rest
    obtain ⟨kind, -, rest⟩ := Option.bind_eq_some_iff.mp rest
    cases rest
    rfl

/-- A marker marks its placeholder. -/
theorem ofMarker?_marker (placeholder : Placeholder) :
    ofMarker? placeholder.marker = some placeholder := by
  obtain ⟨pattern, kind⟩ := placeholder
  cases kind <;> rfl

theorem fill_marker {value : Json} {placeholder : Placeholder}
    (isMarker : ofMarker? value = some placeholder) :
    fill value = placeholder.generateEscaped := by
  rw [fill.eq_def, isMarker]

/-- A text that is generated at a marker is written with its escapes. -/
theorem fill_text {pattern text : String}
    (generated : generate ⟨pattern, .text⟩ = .ok (.string text)) :
    fill (marker ⟨pattern, .text⟩) = .ok (.string (escapeJava text)) := by
  rw [fill_marker (ofMarker?_marker _), generateEscaped, generated]
  rfl

/-- A whole number that is generated at a marker is written as it is. -/
theorem fill_integer {pattern : String} {value : Int}
    (generated : generate ⟨pattern, .integer⟩ = .ok (.int value)) :
    fill (marker ⟨pattern, .integer⟩) = .ok (.int value) := by
  rw [fill_marker (ofMarker?_marker _), generateEscaped, generated]
  rfl

/-- The expression that a path holds for the pattern of a marker matches what is
generated there. -/
theorem matchesText_of_fill {value other : Json} {placeholder : Placeholder}
    (isMarker : ofMarker? value = some placeholder) (spells : Spells placeholder.pattern text)
    (kept : placeholder.kind.keeps text = true) (filled : fill value = .ok other) :
    ∃ regex, Path.wholeMatch? placeholder.pattern = some regex ∧
      other.matchesText regex = true := by
  rw [fill_marker isMarker] at filled
  exact matchesText_of_generateEscaped spells kept filled

theorem ofMarker?_eq_none {value : Json} (noMarker : markedPattern? value = none) :
    ofMarker? value = none := by
  rw [ofMarker?, noMarker]
  rfl

theorem fill_array {elements others : List Json} (filled : fillElements elements = .ok others) :
    fill (.array elements) = .ok (.array others) :=
  bind_eq_ok_iff.mpr ⟨others, filled, rfl⟩

theorem fill_object {members others : List (String × Json)}
    (noMarker : markedPattern? (.object members) = none)
    (filled : fillMembers members = .ok others) :
    fill (.object members) = .ok (.object others) := by
  rw [fill, ofMarker?_eq_none noMarker]
  exact bind_eq_ok_iff.mpr ⟨others, filled, rfl⟩

theorem fillMembers_cons {name : String} {value other : Json} {rest others : List (String × Json)}
    (filled : fill value = .ok other) (filledToo : fillMembers rest = .ok others) :
    fillMembers ((name, value) :: rest) = .ok ((name, other) :: others) := by
  rw [fillMembers]
  exact bind_eq_ok_iff.mpr ⟨other, filled, bind_eq_ok_iff.mpr ⟨others, filledToo, rfl⟩⟩

theorem fillElements_cons {value other : Json} {rest others : List Json}
    (filled : fill value = .ok other) (filledToo : fillElements rest = .ok others) :
    fillElements (value :: rest) = .ok (other :: others) := by
  rw [fillElements]
  exact bind_eq_ok_iff.mpr ⟨other, filled, bind_eq_ok_iff.mpr ⟨others, filledToo, rfl⟩⟩

/-- Every element of a filled array is that of the array, filled. -/
theorem exists_of_fillElements {elements others : List Json}
    (filled : fillElements elements = .ok others) {value : Json} (member : value ∈ elements) :
    ∃ other ∈ others, fill value = .ok other := by
  induction elements generalizing others with
  | nil => exact absurd member List.not_mem_nil
  | cons first rest inductionHypothesis =>
      rw [fillElements] at filled
      obtain ⟨head, isHead, filled⟩ := bind_eq_ok_iff.mp filled
      obtain ⟨tail, isTail, filled⟩ := bind_eq_ok_iff.mp filled
      cases filled
      rcases List.mem_cons.mp member with rfl | later
      · exact ⟨head, List.mem_cons_self, isHead⟩
      · obtain ⟨other, isIn, same⟩ := inductionHypothesis isTail later
        exact ⟨other, List.mem_cons_of_mem head isIn, same⟩

/-- Every member of a filled object is that of the object, filled. -/
theorem lookup_of_fillMembers {members others : List (String × Json)}
    (filled : fillMembers members = .ok others) {name : String} {value : Json}
    (isThere : members.lookup name = some value) :
    ∃ other, others.lookup name = some other ∧ fill value = .ok other := by
  induction members generalizing others with
  | nil => cases isThere
  | cons first rest inductionHypothesis =>
      obtain ⟨firstName, firstValue⟩ := first
      rw [fillMembers] at filled
      obtain ⟨head, isHead, filled⟩ := bind_eq_ok_iff.mp filled
      obtain ⟨tail, isTail, filled⟩ := bind_eq_ok_iff.mp filled
      cases filled
      rw [List.lookup_cons] at isThere ⊢
      cases same : name == firstName with
      | true =>
          rw [same] at isThere
          cases isThere
          exact ⟨head, rfl, isHead⟩
      | false =>
          rw [same] at isThere
          exact inductionHypothesis isTail isThere

end Placeholder

end BodyContract
