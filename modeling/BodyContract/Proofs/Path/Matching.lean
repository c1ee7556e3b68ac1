import BodyContract.Proofs.Path.Continuation
import BodyContract.Proofs.Path.Selection

/-!
# Conditions that match texts

The condition that the text behind some steps matches a regular expression holds of
the values from which the steps lead to such a text; what the steps are is known from
how they are read inside a filter.  The same steps can be read outside of a filter,
behind a path.
-/

namespace BodyContract

namespace Path

/-! ## Steps inside a filter -/

/-- The segments that a whole text is read as inside a filter, unless it asks for
a size. -/
def stepsInFilter? (text : List Char) : Option (List Segment) :=
  match readSegments (8 * text.length + 1) true ⟨0, text⟩ with
  | .ok ((steps, false), ⟨_, []⟩) => some steps
  | _ => none

variable {text more : List Char} {steps : List Segment} {inFilter : Bool}

theorem readSegments_of_stepsInFilter? (known : stepsInFilter? text = some steps) :
    ∃ last, readSegments (8 * text.length + 1) true ⟨0, text⟩ = .ok ((steps, false), ⟨last, []⟩) := by
  rw [stepsInFilter?] at known
  split at known
  · rename_i last read
    cases known
    exact ⟨last, read⟩
  · cases known

/-- Steps that are read inside a filter are read in front of what is no part of
them, and outside of a filter as well. -/
theorem readSegments_steps (known : stepsInFilter? text = some steps)
    (ends : EndsWord inFilter more) (stops : StopsAt (fun c => c == '.' || c == '[') more)
    (spare position : Nat) :
    ∃ behind, readSegments (spare + (8 * text.length + 1)) inFilter ⟨position, text ++ more⟩ =
      .ok ((steps, false), ⟨behind, more⟩) := by
  obtain ⟨last, read⟩ := readSegments_of_stepsInFilter? known
  obtain ⟨short, goesOn⟩ := passesOn_readSegments ends (fun _ => rfl) spare (8 * text.length)
    _ _ _ _ read rfl rfl
  obtain ⟨behind, readMore⟩ := goesOn position
  have left : spare + (8 * text.length + 1) - 2 * steps.length =
      spare + 8 * text.length - 2 * steps.length + 1 := by omega
  rw [left, readSegments_end stops, putFront_ok, List.append_nil] at readMore
  exact ⟨behind, readMore⟩

/-- Names, quoted names and positions are read inside a filter as they are. -/
theorem stepsInFilter?_charsOf {paces : List Pace}
    (readable : ∀ pace ∈ paces, pace.isReadable true = true) :
    stepsInFilter? (Pace.charsOf paces) = some (Pace.segmentsOf paces) := by
  have long := Pace.length_le_length_charsOf paces
  obtain ⟨behind, read⟩ := readSegments_paces readable (endsPace_nil true)
    (8 * (Pace.charsOf paces).length - 2 * paces.length + 1) 0
  have enough : 8 * (Pace.charsOf paces).length - 2 * paces.length + 1 + 2 * paces.length =
      8 * (Pace.charsOf paces).length + 1 := by omega
  rw [enough, readSegments_end (stopsAt_nil _), putFront_ok, List.append_nil,
    List.append_nil] at read
  rw [stepsInFilter?, read]

/-- Steps in front of a blank are read as an operand. -/
theorem readOperand_steps (known : stepsInFilter? text = some steps) (spare position : Nat)
    (others : List Char) :
    ∃ behind, readOperand (spare + (8 * text.length + 1) + 1)
        ⟨position, '@' :: (text ++ ' ' :: others)⟩ =
      .ok (.current steps false, ⟨behind, ' ' :: others⟩) := by
  have ends : EndsWord true (' ' :: others) := by
    refine ⟨⟨stopsAt_cons ?_ others, by simp⟩, by simp⟩
    simp [endsName, whiteSpace_blank]
  obtain ⟨behind, read⟩ := readSegments_steps known ends (stopsAt_cons (by decide) others)
    spare (position + '@'.utf8Size)
  refine ⟨behind, ?_⟩
  rw [readOperand]
  simp only [Cursor.peek?, List.head?_cons, Cursor.skip, read, bind, Except.bind]

/-- The condition that the text behind some steps matches a regular expression. -/
def matchingCondition (steps : List Segment) (regex : FullMatch) : Condition :=
  .compares (.current steps false) .matching (.regex regex)

/-- Behind a path, steps lead on from what the path selects. -/
theorem parse_append_steps {front : String} {base : Path} {c : Char} {others : List Char}
    (parsed : parse front = .ok base) (opens : endsName false c = true)
    (known : stepsInFilter? (c :: others) = some steps) :
    parse (String.ofList (front.toList ++ c :: others)) =
      .ok ⟨String.ofList (front.toList ++ c :: others), base.segments ++ steps⟩ := by
  apply parse_append parsed
  · refine ⟨⟨stopsAt_cons (by rw [opens]; rfl) others, ?_⟩, ?_⟩
    · rintro ⟨⟩
      exact absurd opens (by decide)
    · rintro ⟨⟩
      exact absurd opens (by decide)
  · intro fuel position
    have nothing : EndsWord false [] := ⟨endsPace_nil false, by simp⟩
    obtain ⟨behind, read⟩ := readSegments_steps known nothing (stopsAt_nil _) fuel position
    rw [List.append_nil] at read
    exact ⟨behind, read⟩

end Path

/-! ## What steps lead to -/

/-- The member or element that a segment leads to if it leads to one at most. -/
def Segment.next? : Segment → Json → Option Json
  | .child name, value => value.member? name
  | .element position, .array elements =>
      (Node.place? elements.length position).bind fun place => elements[place]?
  | _, _ => none

/-- The value that steps lead to. -/
def Json.behind? : List Segment → Json → Option Json
  | [], value => some value
  | step :: rest, value => (step.next? value).bind (behind? rest)

/-- Whether a value has a text that matches a regular expression. -/
def Json.matchesText (regex : FullMatch) (value : Json) : Bool :=
  value.scalarText?.any regex.regex.isMatch

variable {steps : List Segment}

theorem map_value_select_definite {step : Segment} (definite : step.isDefinite = true)
    (document : Json) (node : Node) :
    (select document step node).map (·.value) = (step.next? node.value).toList := by
  cases step with
  | child name => exact map_value_child node name
  | element position =>
      rw [select, Node.element.eq_def]
      cases node.value with
      | array elements =>
          dsimp only [Segment.next?]
          cases Node.place? elements.length position with
          | none => rfl
          | some place =>
              dsimp only [Option.bind_some]
              cases elements[place]? <;> rfl
      | _ => rfl
  | _ => cases definite

theorem map_value_selectAll_definite (definite : areDefinite steps = true) (document : Json)
    (nodes : List Node) :
    (selectAll document steps nodes).map (·.value) =
      nodes.flatMap fun node => (Json.behind? steps node.value).toList := by
  induction steps generalizing nodes with
  | nil =>
      rw [selectAll]
      exact List.map_eq_flatMap
  | cons step rest inductionHypothesis =>
      rw [areDefinite, List.all_cons, Bool.and_eq_true] at definite
      rw [selectAll, inductionHypothesis definite.2, List.flatMap_assoc]
      congr 1
      funext node
      have first := map_value_select_definite definite.1 document node
      rw [Json.behind?, ← List.flatMap_map (fun node : Node => node.value)
        (fun value => (Json.behind? rest value).toList), first]
      cases step.next? node.value with
      | none => rfl
      | some next => rw [Option.toList_some, List.flatMap_singleton, Option.bind_some]

/-- Steps behind a path lead on from the values that it selects. -/
theorem evaluate_steps (text front : String) (segments : List Segment)
    (definite : areDefinite steps = true) (document : Json) :
    (Path.mk text (segments ++ steps)).evaluate document =
      ((Path.mk front segments).evaluate document).flatMap fun value =>
        (Json.behind? steps value).toList := by
  rw [Path.evaluate, Path.nodes, selectAll_append, map_value_selectAll_definite definite,
    Path.evaluate, Path.nodes, List.flatMap_map]

/-- What steps lead to is the value of an operand. -/
theorem resolve?_definite (definite : areDefinite steps = true) (document value : Json) :
    resolve? document (.current steps false) value = Json.behind? steps value := by
  have values := map_value_selectAll_definite definite document [⟨[], value⟩]
  rw [List.flatMap_singleton] at values
  have first := congrArg List.head? values
  rw [Option.head?_toList, List.head?_map] at first
  rw [resolve?, operandValue?, definite, ← first]
  cases (selectAll document steps [⟨[], value⟩]).head? <;> rfl

theorem holds_matchingCondition_iff (definite : areDefinite steps = true) (regex : FullMatch)
    (document value : Json) :
    holds document (Path.matchingCondition steps regex) value = true ↔
      ∃ found, Json.behind? steps value = some found ∧ found.matchesText regex = true := by
  rw [Path.matchingCondition, holds, resolve?_definite definite]
  cases Json.behind? steps value with
  | none => simp
  | some found =>
      rw [Option.bind_some]
      simp only [Option.some.injEq, exists_eq_left', Json.matchesText]
      cases found.scalarText? <;> simp

/-- A matching condition behind a path selects something exactly if the steps lead
from an item of what the path selects to a value whose text matches. -/
theorem evaluate_matching_ne_nil_iff (definite : areDefinite steps = true) (text : String)
    (base : Path) (regex : FullMatch) (document : Json) :
    (Path.mk text (base.segments ++
        [.filter (Path.matchingCondition steps regex)])).evaluate document ≠ [] ↔
      ∃ value ∈ base.evaluate document, ∃ item ∈ value.items, ∃ found,
        Json.behind? steps item = some found ∧ found.matchesText regex = true := by
  rw [evaluate_filter_ne_nil_iff text base.text]
  simp only [holds_matchingCondition_iff definite]

end BodyContract
