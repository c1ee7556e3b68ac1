import BodyContract.Proofs.Assertion.Following
import BodyContract.Proofs.Path.Continuation

/-!
# Literals inside of paths

A literal in brackets is one segment: the member of a name, or a filter for a value.
Whatever the literal holds, it ends where its text ends, so the segments in front of it
and behind it are read as if it were not there.
-/

namespace BodyContract

namespace Path

/-- A segment that is given by a literal. -/
inductive Selector where
  | member (name : String)
  | equal (value : Json)

namespace Selector

/-- The text of a selector. -/
def text : Selector → String
  | .member name => "[" ++ (Json.string name).filterLiteral ++ "]"
  | .equal value => "[?(@ == " ++ value.filterLiteral ++ ")]"

/-- The segment that a selector is read as. -/
def segment : Selector → Segment
  | .member name => .child name
  | .equal value => .filter (.compares (.current [] false) .equal (.literal value))

/-- Whether the literal of a selector is exact.  A name always is. -/
def isExact : Selector → Bool
  | .member _ => true
  | .equal value => value.isExactLiteral

theorem toList_text_member (name : String) : (member name).text.toList =
    '[' :: '\'' :: (escapedForPath name.toList ++ ['\'', ']']) := by
  rw [text, String.toList_append, String.toList_append, Json.filterLiteral, toList_quoteForPath]
  simp

theorem text_equal (value : Json) : (equal value).text = conditionText [] value := by
  simp [text, conditionText]

/-- A selector is opened, holds something and is closed. -/
theorem text_begins (selector : Selector) :
    ∃ inside, selector.text.toList = '[' :: inside ∧ 3 ≤ inside.length := by
  cases selector with
  | member name =>
      refine ⟨_, toList_text_member name, ?_⟩
      rw [List.length_cons, List.length_append]
      exact Nat.succ_le_succ (Nat.le_add_left 2 _)
  | equal value =>
      refine ⟨_, (congrArg String.toList (text_equal value)).trans
        (toList_conditionText [] value), ?_⟩
      simp only [List.length_cons, List.length_append]
      omega

end Selector

open Selector

variable {selector : Selector}

theorem readBracket_selector (exact : selector.isExact = true) (fuel position : Nat)
    (rest : List Char) : ∃ behind,
      readBracket (fuel + 6) ⟨position, selector.text.toList ++ rest⟩ =
        .ok (selector.segment, ⟨behind, rest⟩) := by
  cases selector with
  | member name =>
      obtain ⟨behind, read⟩ :=
        reads_quoted name (']' :: rest) (position + '['.utf8Size + '\''.utf8Size)
      rw [List.append_assoc, List.singleton_append] at read
      refine ⟨behind + ']'.utf8Size, ?_⟩
      rw [toList_text_member, List.cons_append, List.cons_append, List.append_assoc, readBracket,
        expect_self]
      simp only [bind, Except.bind]
      rw [skipBlanks_visible (by decide)]
      simp [Cursor.peek?, Cursor.skip, read]
      rw [closeBracket]
      rfl
  | equal value =>
      rw [text_equal]
      exact readBracket_condition (fun _ member => absurd member List.not_mem_nil)
        (Asserter.literalReads_of_isExactLiteral exact) fuel position rest

/-- A selector is one segment, and what follows it is read as what follows, be it
segments or not. -/
theorem readSegments_selector (exact : selector.isExact = true) (inFilter : Bool)
    (fuel position : Nat) (rest : List Char) : ∃ behind,
      readSegments (fuel + 7) inFilter ⟨position, selector.text.toList ++ rest⟩ =
        putFront [selector.segment] (readSegments (fuel + 5) inFilter ⟨behind, rest⟩) := by
  obtain ⟨behind, read⟩ := readBracket_selector exact fuel position rest
  obtain ⟨inside, opens, -⟩ := selector.text_begins
  refine ⟨behind, ?_⟩
  rw [opens, List.cons_append] at read ⊢
  exact readSegments_bracket inFilter read

/-- What is a path behind the root is read at any place, with as much fuel or more. -/
theorem readSegments_behindRoot {rest : String} {tail : Path}
    (parsed : parse ("$" ++ rest) = .ok tail) (spare position : Nat) : ∃ behind,
      readSegments (spare + enoughFuel (rest.toList.length + 1)) false ⟨position, rest.toList⟩ =
        .ok ((tail.segments, false), ⟨behind, []⟩) := by
  obtain ⟨chars, asksSize, last, same, isRead, atEnd⟩ := readSegments_of_parse parsed
  rw [String.toList_append] at same
  cases same
  have ends : EndsWord false [] := ⟨endsPace_nil false, by simp⟩
  obtain ⟨short, goesOn⟩ := passesOn_readSegments ends id spare
    (8 * (rest.toList.length + 1) + 15) _ _ _ _ isRead (Bool.false_and asksSize) atEnd
  obtain ⟨behind, isReadMore⟩ := goesOn position
  obtain ⟨left, enough⟩ : ∃ left, spare + (8 * (rest.toList.length + 1) + 15 + 1) -
      2 * tail.segments.length = left + 1 :=
    ⟨spare + (8 * (rest.toList.length + 1) + 15) - 2 * tail.segments.length, by omega⟩
  refine ⟨behind, ?_⟩
  rw [enough, readSegments_end (stopsAt_nil _), putFront_ok, List.append_nil,
    List.append_nil] at isReadMore
  exact isReadMore

/-- A selector between two parts of a path is one segment between their segments. -/
theorem parse_selector_between (exact : selector.isExact = true) {front rest : String}
    {base tail : Path} (parsed : parse front = .ok base)
    (restParsed : parse ("$" ++ rest) = .ok tail) :
    parse (front ++ selector.text ++ rest) =
      .ok ⟨front ++ selector.text ++ rest, base.segments ++ selector.segment :: tail.segments⟩ := by
  obtain ⟨inside, opens, long⟩ := selector.text_begins
  have ends : EndsWord false (selector.text.toList ++ rest.toList) := by
    rw [opens, List.cons_append]
    exact ⟨⟨stopsAt_cons (by decide) _, by simp⟩, by simp⟩
  have joined : front ++ selector.text ++ rest =
      String.ofList (front.toList ++ (selector.text.toList ++ rest.toList)) := by
    rw [← String.toList_append, ← String.toList_append, String.ofList_toList, String.append_assoc]
  rw [joined]
  apply parse_append parsed ends
  intro fuel position
  obtain ⟨spare, enough⟩ : ∃ spare,
      fuel + 8 * (selector.text.toList ++ rest.toList).length + 1 =
        spare + enoughFuel (rest.toList.length + 1) + 2 := by
    refine ⟨fuel + 8 * (selector.text.toList ++ rest.toList).length -
      (enoughFuel (rest.toList.length + 1) + 1), ?_⟩
    rw [List.length_append, opens, List.length_cons, enoughFuel]
    omega
  obtain ⟨less, fuels⟩ : ∃ less, spare + enoughFuel (rest.toList.length + 1) = less + 5 :=
    ⟨spare + enoughFuel (rest.toList.length + 1) - 5, by rw [enoughFuel]; omega⟩
  obtain ⟨middle, first⟩ := readSegments_selector exact false less position rest.toList
  obtain ⟨behind, later⟩ := readSegments_behindRoot restParsed spare middle
  refine ⟨behind, ?_⟩
  rw [fuels] at enough later
  rw [enough, first, later, putFront_ok, List.singleton_append]

/-- A selector behind the root is the only segment. -/
theorem parse_selector (exact : selector.isExact = true) :
    parse ("$" ++ selector.text) = .ok ⟨"$" ++ selector.text, [selector.segment]⟩ := by
  have root : parse "$" = .ok ⟨"$", []⟩ := by rfl
  have nothingMore : parse ("$" ++ "") = .ok ⟨"$", []⟩ := root
  have parsed := parse_selector_between exact root nothingMore
  rwa [String.append_empty] at parsed

/-- Literals are read back: in brackets as the name of a member, in a filter as the value
that is compared with.  They end where they should, so nothing else of the path changes. -/
theorem parse_literals :
    (∀ name : String, parse ("$[" ++ (Json.string name).filterLiteral ++ "]") =
        .ok ⟨"$[" ++ (Json.string name).filterLiteral ++ "]", [.child name]⟩) ∧
      (∀ value : Json, value.isExactLiteral = true →
        parse ("$[?(@ == " ++ value.filterLiteral ++ ")]") =
          .ok ⟨"$[?(@ == " ++ value.filterLiteral ++ ")]",
            [.filter (.compares (.current [] false) .equal (.literal value))]⟩) ∧
      (∀ selector : Selector, selector.isExact = true → ∀ front rest base tail,
        parse front = .ok base → parse ("$" ++ rest) = .ok tail →
          parse (front ++ selector.text ++ rest) =
            .ok ⟨front ++ selector.text ++ rest,
              base.segments ++ selector.segment :: tail.segments⟩) ∧
      ∀ selector : Selector, selector.isExact = true → ∀ inFilter fuel position rest,
        ∃ behind, readSegments (fuel + 7) inFilter ⟨position, selector.text.toList ++ rest⟩ =
          putFront [selector.segment] (readSegments (fuel + 5) inFilter ⟨behind, rest⟩) := by
  refine ⟨?_, ?_, ?_, ?_⟩
  · intro name
    have exact : (Selector.member name).isExact = true := rfl
    have parsed := parse_selector exact
    rwa [Selector.text, ← String.append_assoc, ← String.append_assoc] at parsed
  · intro value exact
    have isExact : (Selector.equal value).isExact = true := exact
    have parsed := parse_selector isExact
    rwa [Selector.text, ← String.append_assoc, ← String.append_assoc] at parsed
  · intro selector exact front rest base tail parsed restParsed
    exact parse_selector_between exact parsed restParsed
  · intro selector exact inFilter fuel position rest
    exact readSegments_selector exact inFilter fuel position rest

/-- A text that tries to end its literal: a quote, a bracket, a backslash and a quote, a
parenthesis and more brackets. -/
def hostileText : String := "']\\')]\n[\"*\"]"

theorem parse_literals_hostileText :
    parse ("$[" ++ (Json.string hostileText).filterLiteral ++ "]") =
        .ok ⟨"$[" ++ (Json.string hostileText).filterLiteral ++ "]", [.child hostileText]⟩ ∧
      (Json.int (-9223372036854775808)).isExactLiteral = true ∧
      parse ("$[?(@ == " ++ (Json.int (-9223372036854775808)).filterLiteral ++ ")]") =
        .ok ⟨"$[?(@ == " ++ (Json.int (-9223372036854775808)).filterLiteral ++ ")]",
          [.filter (.compares (.current [] false) .equal
            (.literal (.int (-9223372036854775808))))]⟩ ∧
      (Selector.equal (.string hostileText)).isExact = true ∧
      parse "$.a" = .ok ⟨"$.a", [.child "a"]⟩ ∧
      parse ("$" ++ "..b") = .ok ⟨"$" ++ "..b", [.descendants (some "b")]⟩ ∧
      parse ("$.a" ++ (Selector.equal (.string hostileText)).text ++ "..b") =
        .ok ⟨"$.a" ++ (Selector.equal (.string hostileText)).text ++ "..b",
          [.child "a", .filter (.compares (.current [] false) .equal
            (.literal (.string hostileText))), .descendants (some "b")]⟩ ∧
      (Selector.member hostileText).isExact = true ∧
      ∃ behind, readSegments (1 + 7) false
          ⟨1, (Selector.member hostileText).text.toList ++ ['\'', ']']⟩ =
        putFront [.child hostileText] (readSegments (1 + 5) false ⟨behind, ['\'', ']']⟩) := by
  have exact : (Json.int (-9223372036854775808)).isExactLiteral = true := by decide +kernel
  have front : parse "$.a" = .ok ⟨"$.a", [.child "a"]⟩ := by cbv
  have rest : parse ("$" ++ "..b") = .ok ⟨"$" ++ "..b", [.descendants (some "b")]⟩ := by cbv
  obtain ⟨names, values, between, behind⟩ := parse_literals
  exact ⟨names hostileText, exact, values _ exact, rfl, front, rest,
    between (.equal (.string hostileText)) rfl "$.a" "..b" _ _ front rest, rfl,
    behind (.member hostileText) rfl false 1 1 ['\'', ']']⟩

end Path

end BodyContract
