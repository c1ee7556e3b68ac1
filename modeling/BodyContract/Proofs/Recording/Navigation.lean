import Mathlib.Data.List.Basic
import BodyContract.Chain.OfBody
import BodyContract.Proofs.Path.Selection

/-!
# Where a recorded chain stands

`Recorder.Stands key pieces` says that a chain which has not checked anything
yet has come to its place by the given pieces of hops, and that its calls lead
to the same place in every other document.  Each step of navigation adds its
piece; going to an element by its position takes a wildcard at the end away
first.
-/

namespace BodyContract

theorem applyAll_append (front back : List Call) (asserter : Asserter) :
    Call.applyAll (front ++ back) asserter =
      Call.applyAll front asserter >>= Call.applyAll back := by
  induction front generalizing asserter with
  | nil => rfl
  | cons call rest inductionHypothesis =>
      rw [List.cons_append, Call.applyAll, Call.applyAll]
      cases call.apply asserter with
      | error failure => rfl
      | ok next => exact inductionHypothesis next

/-- The same assertion about another document, with checks. -/
def Asserter.strictOn (asserter : Asserter) (document : Json) : Asserter :=
  { asserter with document := document, isStrict := true }

namespace Recorder

/-- A chain without a check that has come to its place by pieces of hops. -/
structure Stands (key : Recorder) (pieces : List (List Hop)) : Prop where
  lenient : key.delegate.isStrict = false
  style : key.style = .bracketed
  unchecked : key.checkedKey = none
  pieces_eq : key.delegate.pieces = "$" :: pieces.map Hop.textOf
  readable : ∀ piece ∈ pieces, ∀ hop ∈ piece, hop.isReadable = true
  lastField : key.delegate.focus = .field → ∃ front name, pieces = front ++ [[.member name]] ∧
    key.delegate.fieldName = some (NameStyle.bracketed.wrap name)
  replays : ∀ document, key.replay (.ofDocument document) = .ok (key.delegate.strictOn document)

theorem join_pieces (pieces : List (List Hop)) :
    String.join ("$" :: pieces.map Hop.textOf) = Path.pathText pieces.flatten := by
  have joined : String.join (pieces.map Hop.textOf) = Hop.textOf pieces.flatten := by
    induction pieces with
    | nil => rfl
    | cons piece rest inductionHypothesis =>
        rw [List.map_cons, String.join_cons, inductionHypothesis, List.flatten_cons,
          Hop.textOf_append]
  rw [String.join_cons, joined, Path.pathText]

/-- The place of a chain is reached by all its hops. -/
theorem Stands.path_eq {key : Recorder} {pieces : List (List Hop)} (stands : key.Stands pieces) :
    key.path = Path.pathText pieces.flatten := by
  rw [path, Asserter.path, stands.pieces_eq, join_pieces]

theorem Stands.flatten_readable {key : Recorder} {pieces : List (List Hop)}
    (stands : key.Stands pieces) : ∀ hop ∈ pieces.flatten, hop.isReadable = true := by
  intro hop member
  obtain ⟨piece, isPiece, inPiece⟩ := List.mem_flatten.mp member
  exact stands.readable piece isPiece hop inPiece

theorem stands_root (document : Json) :
    (ofAsserter (Asserter.ofDocument document).lenient .bracketed).Stands [] where
  lenient := rfl
  style := rfl
  unchecked := rfl
  pieces_eq := rfl
  readable := by simp
  lastField := by
    intro isField
    cases isField
  replays := fun _ => rfl

/-- A chain after a step that adds a piece. -/
theorem Stands.step {key : Recorder} {pieces : List (List Hop)} (stands : key.Stands pieces)
    {piece : List Hop} (readable : ∀ hop ∈ piece, hop.isReadable = true) {focus : Focus}
    {fieldName : Option String} {calls : List Call} (methods : List String)
    (lastField : focus = .field → ∃ name, piece = [.member name] ∧
      fieldName = some (NameStyle.bracketed.wrap name))
    (applies : ∀ document, Call.applyAll calls (key.delegate.strictOn document) =
      .ok ((key.delegate.step focus fieldName (Hop.textOf piece)).strictOn document)) :
    ({ key.extend (key.delegate.step focus fieldName (Hop.textOf piece)) calls with
      methods := methods } : Recorder).Stands (pieces ++ [piece]) where
  lenient := stands.lenient
  style := stands.style
  unchecked := stands.unchecked
  pieces_eq := by
    simp only [extend, Asserter.step, stands.pieces_eq, List.cons_append, List.map_append,
      List.map_cons, List.map_nil]
  readable := by
    intro other member
    rcases List.mem_append.mp member with old | new
    · exact stands.readable other old
    · rw [List.mem_singleton] at new
      rw [new]
      exact readable
  lastField := by
    intro isField
    obtain ⟨name, rfl, named⟩ := lastField isField
    exact ⟨pieces, name, rfl, named⟩
  replays := by
    intro document
    rw [replay, extend, applyAll_append]
    have before := stands.replays document
    rw [replay] at before
    rw [before]
    exact applies document

section Steps

variable {key : Recorder} {pieces : List (List Hop)} {name : String}

theorem Stands.traverseField (stands : key.Stands pieces)
    (readable : Path.keepsBackslashes name.toList = true) :
    (key.traverseField name).Stands (pieces ++ [[.member name]]) := by
  have wrapped : "." ++ key.style.wrap name = Hop.textOf [.member name] := by
    rw [stands.style, Hop.textOf_singleton, Hop.text]
  rw [Recorder.traverseField, fieldAs, Asserter.field, wrapped]
  refine stands.step (by simpa [Hop.isReadable] using readable) _ ?_ ?_
  · intro _
    exact ⟨name, rfl, by rw [stands.style]⟩
  · intro document
    rw [← wrapped]
    rfl

theorem Stands.array (stands : key.Stands pieces)
    (readable : Path.keepsBackslashes name.toList = true) :
    (key.array name).Stands (pieces ++ [[.member name, .every]]) := by
  have wrapped : "." ++ key.style.wrap name ++ "[*]" = Hop.textOf [.member name, .every] := by
    have split : [Hop.member name, .every] = [.member name] ++ [.every] := rfl
    rw [stands.style, split, Hop.textOf_append, Hop.textOf_singleton, Hop.textOf_singleton,
      Hop.text, Hop.text]
  rw [Recorder.array, Asserter.array, wrapped]
  refine stands.step (by simpa [Hop.isReadable] using readable) _ ?_ ?_
  · intro impossible
    cases impossible
  · intro document
    rw [← wrapped]
    rfl

theorem Stands.anonymousArray (stands : key.Stands pieces) :
    key.anonymousArray.Stands (pieces ++ [[.every]]) := by
  have wildcard : "[*]" = Hop.textOf [.every] := by rw [Hop.textOf_singleton, Hop.text]
  rw [Recorder.anonymousArray, Asserter.anonymousArray, wildcard]
  refine stands.step (by simp [Hop.isReadable]) _ ?_ ?_
  · intro impossible
    cases impossible
  · intro document
    rw [← wildcard]
    rfl

/-- Turning to the elements adds nothing to the path. -/
theorem Stands.arrayField (stands : key.Stands pieces) : key.arrayField.Stands pieces where
  lenient := stands.lenient
  style := stands.style
  unchecked := stands.unchecked
  pieces_eq := stands.pieces_eq
  readable := stands.readable
  lastField := by
    intro impossible
    cases impossible
  replays := by
    intro document
    have before := stands.replays document
    rw [replay] at before
    rw [replay, Recorder.arrayField, record, extend, applyAll_append, before]
    rfl

theorem Stands.arrayFieldNamed (stands : key.Stands pieces)
    (readable : Path.keepsBackslashes name.toList = true) :
    (key.arrayFieldNamed name).Stands (pieces ++ [[.member name]]) where
  lenient := stands.lenient
  style := stands.style
  unchecked := stands.unchecked
  pieces_eq := (stands.traverseField readable).pieces_eq
  readable := (stands.traverseField readable).readable
  lastField := by
    intro impossible
    cases impossible
  replays := by
    intro document
    have before := stands.replays document
    rw [replay] at before
    rw [replay, Recorder.arrayFieldNamed, recordWith, record, extend, applyAll_append, before]
    rfl

end Steps

/-! ## Elements by their positions -/

theorem last_of_isWholeNumber {name : String} (whole : isWholeNumber name = true) :
    ∃ c more, name.toList.reverse = c :: more ∧ Path.IsWholeChar c := by
  obtain ⟨first, rest, same, isWhole, digits⟩ := Path.chars_of_isWholeNumber whole
  rw [same, List.reverse_cons]
  cases reversed : rest.reverse with
  | nil => exact ⟨first, [], rfl, isWhole⟩
  | cons c more =>
      refine ⟨c, more ++ [first], rfl, Or.inr (Or.inr (digits c ?_))⟩
      rw [← List.mem_reverse, reversed]
      exact List.mem_cons_self

/-- The text of a member or of a position does not end like that of a wildcard. -/
theorem not_wildcard_suffix_text {hop : Hop} (named : hop ≠ .every) (front : List Char) :
    ¬ "[*]".toList <:+ front ++ hop.text.toList := by
  rw [← List.reverse_prefix, List.reverse_append]
  intro ends
  cases hop with
  | every => exact named rfl
  | member name =>
      rw [Hop.text, String.toList_append, List.reverse_append] at ends
      cases whole : isWholeNumber name with
      | true =>
          obtain ⟨c, more, same, isWhole⟩ := last_of_isWholeNumber whole
          rw [Path.wrap_of_whole whole, same] at ends
          have first := (List.cons_prefix_cons.mp ends).1
          rw [← first] at isWhole
          rcases isWhole with other | other | other <;> exact absurd other (by decide)
      | false =>
          rw [Path.toList_wrap_of_not_whole whole] at ends
          simp only [List.reverse_cons, List.reverse_append, List.reverse_nil, List.nil_append,
            List.cons_append] at ends
          have second := (List.cons_prefix_cons.mp (List.cons_prefix_cons.mp ends).2).1
          exact absurd second (by decide)
  | position index =>
      rw [Hop.toList_position, List.reverse_cons, List.reverse_append] at ends
      cases reversed : (Nat.toDigits 10 index).reverse with
      | nil => exact Nat.toDigits_ne_nil (List.reverse_eq_nil_iff.mp reversed)
      | cons c more =>
          have isIn : c ∈ Nat.toDigits 10 index := by
            rw [← List.mem_reverse, reversed]
            exact List.mem_cons_self
          have digit := isDigit_of_mem_toDigits isIn
          rw [reversed] at ends
          have second := (List.cons_prefix_cons.mp (List.cons_prefix_cons.mp ends).2).1
          rw [← second] at digit
          exact absurd digit (by decide)

/-- The pieces without the wildcard that the last one ends with. -/
def withoutWildcard (pieces : List (List Hop)) : List (List Hop) :=
  match pieces.getLast? with
  | none => []
  | some last =>
      if last.getLast? = some .every then
        if last.dropLast.isEmpty then pieces.dropLast else pieces.dropLast ++ [last.dropLast]
      else
        pieces

theorem endsWith_wildcard_iff (piece : List Hop) :
    (Hop.textOf piece).endsWith "[*]" = true ↔ piece.getLast? = some .every := by
  have suffix : (Hop.textOf piece).endsWith "[*]" = true ↔
      "[*]".toList <:+ (Hop.textOf piece).toList := by
    rw [← String.endsWith_toSlice, String.Slice.endsWith_string_iff, String.copy_toSlice]
  rw [suffix]
  rcases List.eq_nil_or_concat' piece with rfl | ⟨front, last, rfl⟩
  · simp
  · rw [Hop.textOf_append, Hop.textOf_singleton, String.toList_append, List.getLast?_append,
      List.getLast?_singleton, Option.some_or, Option.some.injEq]
    constructor
    · intro ends
      by_cases named : last = .every
      · exact named
      · exact absurd ends (not_wildcard_suffix_text named _)
    · rintro rfl
      exact List.suffix_append _ _

theorem toList_dropLast_wildcard (init : List Hop) :
    (Hop.textOf (init ++ [.every])).toList.dropLast.dropLast.dropLast =
      (Hop.textOf init).toList := by
  have wildcard : (Hop.textOf [.every]).toList = ['[', '*', ']'] := by
    rw [Hop.textOf_singleton]
    rfl
  rw [Hop.textOf_append, String.toList_append, wildcard]
  simp

theorem textOf_eq_empty_iff (hops : List Hop) : Hop.textOf hops = "" ↔ hops = [] := by
  constructor
  · intro empty
    have long := Hop.length_le_length_textOf hops
    rw [empty] at long
    exact List.eq_nil_of_length_eq_zero (Nat.le_zero.mp long)
  · rintro rfl
    rfl

theorem dropWildcard_textOf (pieces : List (List Hop)) :
    Asserter.dropWildcard ("$" :: pieces.map Hop.textOf) =
      "$" :: (withoutWildcard pieces).map Hop.textOf := by
  rcases List.eq_nil_or_concat' pieces with rfl | ⟨others, last, rfl⟩
  · decide
  · have lastText : ("$" :: (others ++ [last]).map Hop.textOf).getLast? =
        some (Hop.textOf last) := by
      rw [List.map_append, ← List.cons_append, List.map_singleton, List.getLast?_concat]
    rw [Asserter.dropWildcard, lastText, withoutWildcard, List.getLast?_concat]
    by_cases ends : last.getLast? = some .every
    · obtain ⟨init, rfl⟩ := List.getLast?_eq_some_iff.mp ends
      simp only [(endsWith_wildcard_iff _).mpr ends, ends, if_true, toList_dropLast_wildcard,
        String.ofList_toList, List.dropLast_concat]
      have shorter : ("$" :: (others ++ [init ++ [Hop.every]]).map Hop.textOf).dropLast =
          "$" :: others.map Hop.textOf := by
        rw [List.map_append, ← List.cons_append, List.map_singleton, List.dropLast_concat]
      rw [shorter]
      by_cases alone : init = []
      · simp [alone]
      · have filled : (Hop.textOf init).isEmpty = false := by
          rw [← Bool.not_eq_true, String.isEmpty_iff, textOf_eq_empty_iff]
          exact alone
        simp [alone, filled]
    · have kept : (Hop.textOf last).endsWith "[*]" = false := by
        rw [← Bool.not_eq_true, endsWith_wildcard_iff]
        exact ends
      simp [kept, ends]

theorem mem_withoutWildcard {pieces : List (List Hop)} {piece : List Hop}
    (member : piece ∈ withoutWildcard pieces) {hop : Hop} (inPiece : hop ∈ piece) :
    ∃ other ∈ pieces, hop ∈ other := by
  rw [withoutWildcard] at member
  split at member
  · exact absurd member List.not_mem_nil
  · rename_i last isLast
    have lastMember := List.mem_of_getLast? isLast
    split at member
    · split at member
      · exact ⟨piece, List.dropLast_subset _ member, inPiece⟩
      · rcases List.mem_append.mp member with old | shortened
        · exact ⟨piece, List.dropLast_subset _ old, inPiece⟩
        · rw [List.mem_singleton] at shortened
          subst shortened
          exact ⟨last, lastMember, List.dropLast_subset _ inPiece⟩
    · exact ⟨piece, member, inPiece⟩

/-- Going to an element by its position leaves the wildcard in front out. -/
theorem Stands.elementWithIndex {key : Recorder} {pieces : List (List Hop)}
    (stands : key.Stands pieces) {index : Nat} (small : index < twoTo 63) :
    (key.elementWithIndex index).Stands (withoutWildcard pieces ++ [[.position index]]) where
  lenient := stands.lenient
  style := stands.style
  unchecked := stands.unchecked
  pieces_eq := by
    simp only [Recorder.elementWithIndex, Asserter.elementWithIndex, record, extend,
      stands.pieces_eq, dropWildcard_textOf, List.cons_append, List.map_append, List.map_cons,
      List.map_nil, Hop.textOf_singleton, Hop.text]
  readable := by
    intro piece member hop inPiece
    rcases List.mem_append.mp member with old | new
    · obtain ⟨other, isPiece, inOther⟩ := mem_withoutWildcard old inPiece
      exact stands.readable other isPiece hop inOther
    · rw [List.mem_singleton] at new
      rw [new, List.mem_singleton] at inPiece
      rw [inPiece, Hop.isReadable, decide_eq_true_eq]
      exact small
  lastField := by
    intro impossible
    cases impossible
  replays := by
    intro document
    have before := stands.replays document
    rw [replay] at before
    rw [replay, Recorder.elementWithIndex, record, extend, applyAll_append, before]
    rfl

end Recorder

end BodyContract
