import BodyContract.Proofs.Path.Comparing

/-!
# Paths put together from pieces

An assertion keeps its path as pieces of text.  A piece is some hops, or a filter
whose condition compares what hops lead to with a literal or a regular
expression.  Each piece is read by itself, and pieces one behind the other are
read as the segments of all of them.
-/

namespace BodyContract

namespace Path

/-! ## What a condition compares with -/

/-- Whether a text in front of a closing parenthesis is read as an operand. -/
structure ReadsAs (text : List Char) (operand : Operand) : Prop where
  begins : ∃ c more, text = c :: more ∧ isVisible c = true
  reads : ∀ fuel rest, Reads (readOperand (fuel + 1)) text operand (')' :: rest)

theorem readsAs_literal {value read : Json} (literal : LiteralReads value read) :
    ReadsAs value.filterLiteral.toList (.literal read) :=
  ⟨(reads_literal literal 0 []).1, fun fuel rest => (reads_literal literal fuel rest).2⟩

theorem readsAs_regex {pattern : String} {regex : FullMatch}
    (isWhole : wholeMatch? pattern = some regex) :
    ReadsAs ("/" ++ escapeSlashes pattern ++ "/").toList (.regex regex) := by
  rw [wholeMatch?, Option.bind_eq_bind, Option.bind_eq_some_iff] at isWhole
  obtain ⟨plain, isPlain, accepted⟩ := isWhole
  have chars : ("/" ++ escapeSlashes pattern ++ "/").toList =
      '/' :: (escapeSlashesAux false pattern.toList ++ ['/']) := by
    simp [escapeSlashes]
  rw [chars]
  refine ⟨⟨'/', _, rfl, by decide⟩, ?_⟩
  intro fuel rest position
  obtain ⟨behind, read⟩ := readOperand_escapeSlashes isPlain fuel rest position
  rw [wholeMatchOf, accepted] at read
  exact ⟨behind, read⟩

theorem ReadsAs.answers {text : List Char} {operand : Operand} (reads : ReadsAs text operand) :
    Answers text (fun _ => .ok operand) := by
  refine ⟨reads.begins, ?_⟩
  intro fuel position
  obtain ⟨behind, read⟩ := reads.reads fuel [']'] position
  exact endsFilter_of_map read

/-! ## Conditions -/

/-- The text of a condition on what hops lead to. -/
def comparisonText (inside : List Hop) (sign right : String) : String :=
  "[?(@" ++ Hop.textOf inside ++ " " ++ sign ++ " " ++ right ++ ")]"

/-- The condition that what hops lead to compares with an operand. -/
def comparisonOf (inside : List Hop) (comparison : Comparison) (right : Operand) : Condition :=
  .compares (.current (inside.map Hop.segment) false) comparison right

theorem toList_comparisonText (inside : List Hop) (comparison : Comparison) (right : String) :
    (comparisonText inside comparison.sign right).toList =
      comparing (Hop.textOf inside).toList comparison right.toList := by
  simp [comparisonText, comparing]

/-! ## Pieces -/

/-- Whether a text behind a path is read as further segments. -/
structure LeadsOn (text : String) (segments : List Segment) : Prop where
  ends : EndsWord false text.toList
  read : ∀ fuel position, ∃ behind,
    readSegments (fuel + 8 * text.toList.length + 1) false ⟨position, text.toList⟩ =
      .ok ((segments, false), ⟨behind, []⟩)

theorem leadsOn_hops {hops : List Hop} (readable : ∀ hop ∈ hops, hop.isReadable = true) :
    LeadsOn (Hop.textOf hops) (hops.map Hop.segment) where
  ends := by
    cases hops with
    | nil => exact ⟨endsPace_nil false, by simp⟩
    | cons hop others =>
        obtain ⟨c, more, same, first⟩ := hop.text_begins
        rw [Hop.toList_textOf_cons, same, List.cons_append]
        rcases first with rfl | rfl
        · exact ⟨⟨stopsAt_cons (by decide) _, by simp⟩, by simp⟩
        · exact ⟨⟨stopsAt_cons (by decide) _, by simp⟩, by simp⟩
  read := by
    intro fuel position
    have long := Hop.length_le_length_textOf hops
    obtain ⟨behind, read⟩ := readSegments_hops readable (stopsAt_nil _)
      (fuel + 8 * (Hop.textOf hops).toList.length - 2 * hops.length + 1) position
    have enough : fuel + 8 * (Hop.textOf hops).toList.length - 2 * hops.length + 1 +
        2 * hops.length = fuel + 8 * (Hop.textOf hops).toList.length + 1 := by omega
    rw [readSegments_end (stopsAt_nil _), putFront_ok, enough, List.append_nil,
      List.append_nil] at read
    exact ⟨behind, read⟩

theorem leadsOn_comparison {inside : List Hop}
    (readable : ∀ hop ∈ inside, hop.isReadable = true) {comparison : Comparison} {text : String}
    {right : Operand} (isRight : ReadsAs text.toList right)
    (fits : comparison = .matching → ∃ regex, right = .regex regex) :
    LeadsOn (comparisonText inside comparison.sign text)
      [.filter (comparisonOf inside comparison right)] where
  ends := by
    rw [toList_comparisonText]
    exact endsWord_comparing
  read := by
    intro fuel position
    have fitsRight : Fits comparison text.toList := by
      intro isMatching fuel position operand last read
      obtain ⟨behind, isRead⟩ := isRight.reads fuel [']'] position
      rw [isRead] at read
      cases read
      exact fits isMatching
    obtain ⟨_, behind, read⟩ := readSegments_comparing (stepsInFilter?_hops readable)
      isRight.answers fitsRight fuel position
    refine ⟨behind, ?_⟩
    rw [toList_comparisonText]
    exact read

/-- A piece of a path. -/
inductive Piece where
  | steps (hops : List Hop)
  | condition (inside : List Hop) (comparison : Comparison) (text : String) (right : Operand)

namespace Piece

/-- The text of a piece. -/
def text : Piece → String
  | .steps hops => Hop.textOf hops
  | .condition inside comparison text _ => comparisonText inside comparison.sign text

/-- The segments that a piece stands for. -/
def segments : Piece → List Segment
  | .steps hops => hops.map Hop.segment
  | .condition inside comparison _ right => [.filter (comparisonOf inside comparison right)]

/-- Whether the text of a piece is read as its segments. -/
def IsReadable : Piece → Prop
  | .steps hops => hops ≠ [] ∧ ∀ hop ∈ hops, hop.isReadable = true
  | .condition inside comparison text right =>
      (∀ hop ∈ inside, hop.isReadable = true) ∧ ReadsAs text.toList right ∧
        (comparison = .matching → ∃ regex, right = .regex regex)

theorem leadsOn {piece : Piece} (readable : piece.IsReadable) :
    LeadsOn piece.text piece.segments := by
  cases piece with
  | steps hops => exact leadsOn_hops readable.2
  | condition inside comparison text right =>
      obtain ⟨insideReadable, isRight, fits⟩ := readable
      exact leadsOn_comparison insideReadable isRight fits

end Piece

/-- The path of some pieces from the root. -/
def textOfPieces (pieces : List Piece) : String := String.join ("$" :: pieces.map Piece.text)

theorem textOfPieces_concat (front : List Piece) (last : Piece) :
    textOfPieces (front ++ [last]) =
      String.ofList ((textOfPieces front).toList ++ last.text.toList) := by
  have alone : String.join [last.text] = last.text := by
    rw [String.join_cons, String.join_nil, String.append_empty]
  rw [← String.toList_append, String.ofList_toList, textOfPieces, List.map_append,
    ← List.cons_append, String.join_append, List.map_singleton, alone, textOfPieces]

/-- Pieces from the root are read as the segments of all of them. -/
theorem parse_textOfPieces {pieces : List Piece}
    (readable : ∀ piece ∈ pieces, piece.IsReadable) :
    parse (textOfPieces pieces) =
      .ok ⟨textOfPieces pieces, pieces.flatMap Piece.segments⟩ := by
  induction pieces using List.reverseRecOn with
  | nil =>
      have root : textOfPieces [] = pathText [] := by
        rw [textOfPieces, List.map_nil, String.join_cons, String.join_nil, pathText,
          Hop.textOf_nil]
      rw [root]
      exact parse_hops (by simp)
  | append_singleton front last inductionHypothesis =>
      have parsed := inductionHypothesis fun piece member =>
        readable piece (List.mem_append_left _ member)
      have leads := Piece.leadsOn (readable last (List.mem_append_right _ List.mem_cons_self))
      have read := parse_append parsed leads.ends leads.read
      rw [textOfPieces_concat, read, List.flatMap_append, List.flatMap_singleton]

end Path

end BodyContract
