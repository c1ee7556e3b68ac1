import BodyContract.Proofs.Path.Grammar
import BodyContract.Proofs.Path.Paces

/-!
# Paths that go on

A path that can be read can be gone on with: in front of a dot or a bracket, the
segments that have been read stay what they are, and those behind follow.  In
brackets nothing depends on what comes later; a bare name ends inside a filter
where it ends outside, if only segments follow.
-/

namespace BodyContract

namespace Path

variable {α : Type} {cursor last : Cursor}

/-! ## Reading on at the end of a text -/

section

variable {more : List Char} {fuel spare : Nat} {wasInFilter inFilter : Bool}

/-- What ends a bare name and has no part in asking for a size. -/
def EndsWord (inFilter : Bool) (more : List Char) : Prop :=
  EndsPace inFilter more ∧ more.head? ≠ some ')'

theorem eatWord?_size_append (ends : EndsWord inFilter more)
    (refused : eatWord? "()" cursor = none) (position : Nat) :
    eatWord? "()" ⟨position, cursor.rest ++ more⟩ = none := by
  have word : ∀ position text,
      eatWord? "()" ⟨position, text⟩ = none ↔ ['(', ')'].isPrefixOf text = false := by
    intro position text
    rw [eatWord?]
    by_cases isNext : "()".toList.isPrefixOf text = true
    · simp only [if_pos isNext, reduceCtorEq, false_iff, Bool.not_eq_false]
      exact isNext
    · simp only [if_neg isNext, true_iff]
      exact Bool.eq_false_iff.mpr isNext
  obtain ⟨start, text⟩ := cursor
  cases text with
  | nil => exact eatWord?_size ends.1.2 position
  | cons first text =>
      rw [word] at refused ⊢
      cases text with
      | cons second others => exact refused
      | nil =>
          cases more with
          | nil => exact refused
          | cons c others =>
              have different : ')' ≠ c := by
                rintro rfl
                exact ends.2 rfl
              simp [List.isPrefixOf, different]

theorem endsName_narrower {c : Char} (narrower : inFilter = true → wasInFilter = true)
    (inside : endsName wasInFilter c = false) : endsName inFilter c = false := by
  cases inFilter with
  | true => rwa [narrower rfl] at inside
  | false =>
      rw [endsName, Bool.or_eq_false_iff] at inside
      rw [endsName, inside.1]
      rfl

theorem endsName_append {rest : List Char} (closed : EndsName false rest)
    (ends : EndsName inFilter more) : EndsName inFilter (rest ++ more) := by
  cases rest with
  | nil => exact ends
  | cons c others =>
      have stops := closed c rfl
      apply stopsAt_cons
      rw [Bool.not_eq_false'] at stops ⊢
      rw [endsName, Bool.false_and, Bool.or_false] at stops
      rw [endsName, stops, Bool.true_or]

/-- Where segments are read up to the end of a text, it begins with them. -/
theorem endsName_of_readSegments {result : List Segment × Bool}
    (read : readSegments fuel wasInFilter cursor = .ok (result, last)) (atEnd : last.rest = []) :
    EndsName false cursor.rest := by
  obtain ⟨position, text⟩ := cursor
  cases fuel with
  | zero => cases read
  | succ fuel =>
      cases text with
      | nil => exact stopsAt_nil _
      | cons c others =>
          apply stopsAt_cons
          by_contra inside
          have outside : (c == '.' || c == '[') = false := by
            simpa [endsName] using inside
          rw [readSegments_end (stopsAt_cons outside others)] at read
          cases read
          cases atEnd

theorem endsName_of_continueWith {segment : Segment} {result : List Segment × Bool}
    (read : continueWith fuel wasInFilter segment cursor = .ok (result, last))
    (atEnd : last.rest = []) : EndsName false cursor.rest := by
  cases fuel with
  | zero => cases read
  | succ fuel =>
      rw [continueWith_eq] at read
      obtain ⟨⟨others, behind⟩, isRead, same⟩ := bind_eq_ok_iff.mp read
      cases same
      exact endsName_of_readSegments isRead atEnd

/-- A name that does not ask for a size leads to a member. -/
theorem followNamed_eq {name : String} (noSize : wasInFilter = true →
      (name == "size" || name == "length") = true → eatWord? "()" cursor = none) :
    followNamed fuel wasInFilter name cursor =
      continueWith fuel wasInFilter (.child name) cursor := by
  rw [followNamed.eq_def]
  by_cases asks : (wasInFilter && (name == "size" || name == "length")) = true
  · rw [if_pos asks]
    rw [Bool.and_eq_true] at asks
    rw [noSize asks.1 asks.2]
  · rw [if_neg asks]

theorem eatWord?_of_followNamed {name : String} {segments : List Segment} {asksSize : Bool}
    (read : followNamed fuel wasInFilter name cursor = .ok ((segments, asksSize), last))
    (noSize : (wasInFilter && asksSize) = false) : wasInFilter = true →
      (name == "size" || name == "length") = true → eatWord? "()" cursor = none := by
  intro inside asks
  subst inside
  rw [followNamed.eq_def, asks, Bool.and_self, if_pos rfl] at read
  cases eaten : eatWord? "()" cursor with
  | none => rfl
  | some behind =>
      rw [eaten] at read
      cases read
      cases noSize

/-- Whether segments that have been read up to the end of a text, inside a filter
or outside of it, are read in front of another text, and those of that text
behind them. -/
def PassesOn (wasInFilter inFilter : Bool) (more : List Char) (fuel spare : Nat)
    (reader wider : Cursor → Except PathProblem ((List Segment × Bool) × Cursor)) : Prop :=
  ∀ start segments asksSize last, reader start = .ok ((segments, asksSize), last) →
    (wasInFilter && asksSize) = false → last.rest = [] →
      2 * segments.length ≤ fuel ∧ ∀ position : Nat, ∃ behind,
        wider ⟨position, start.rest ++ more⟩ = putFront segments
          (readSegments (spare + (fuel + 1) - 2 * segments.length) inFilter ⟨behind, more⟩)

theorem LooksAhead.bindPassesOn {first firstWider : Cursor → Except PathProblem (α × Cursor)}
    {second secondWider : α → Cursor → Except PathProblem ((List Segment × Bool) × Cursor)}
    (ahead : LooksAhead 0 first firstWider)
    (later : ∀ value, PassesOn wasInFilter inFilter more fuel spare (second value)
      (secondWider value)) :
    PassesOn wasInFilter inFilter more fuel spare
      (fun cursor => first cursor >>= fun result => second result.1 result.2)
      (fun cursor => firstWider cursor >>= fun result => secondWider result.1 result.2) := by
  intro start segments asksSize last read noSize atEnd
  obtain ⟨⟨value, middle⟩, isFirst, isSecond⟩ := bind_eq_ok_iff.mp read
  obtain ⟨short, goesOn⟩ := later value middle segments asksSize last isSecond noSize atEnd
  refine ⟨short, ?_⟩
  intro position
  obtain ⟨front, whole, goesOnToo⟩ := ahead start value middle isFirst
  obtain ⟨next, isFirstMore⟩ := goesOnToo (middle.rest ++ more) trivial position
  obtain ⟨behind, same⟩ := goesOn next
  refine ⟨behind, ?_⟩
  rw [whole, List.append_assoc]
  dsimp only
  rw [isFirstMore]
  exact same

/-- A name in front of segments is the same name inside a filter and outside. -/
theorem passesOn_named (ends : EndsWord inFilter more)
    {second secondWider : String → Cursor → Except PathProblem ((List Segment × Bool) × Cursor)}
    (later : ∀ name, PassesOn wasInFilter inFilter more fuel spare (second name)
      (secondWider name))
    (narrower : inFilter = true → wasInFilter = true)
    (closes : ∀ name start segments asksSize last,
      second name start = .ok ((segments, asksSize), last) → (wasInFilter && asksSize) = false →
        last.rest = [] → EndsName false start.rest) :
    PassesOn wasInFilter inFilter more fuel spare
      (fun cursor => readName wasInFilter cursor >>= fun result => second result.1 result.2)
      (fun cursor => readName inFilter cursor >>= fun result =>
        secondWider result.1 result.2) := by
  intro start segments asksSize last read noSize atEnd
  obtain ⟨⟨name, middle⟩, isName, isSecond⟩ := bind_eq_ok_iff.mp read
  obtain ⟨short, goesOn⟩ := later name middle segments asksSize last isSecond noSize atEnd
  have closed := closes name middle segments asksSize last isSecond noSize atEnd
  refine ⟨short, ?_⟩
  intro position
  have isNameMore : ∃ next, readName inFilter ⟨position, start.rest ++ more⟩ =
      .ok (name, ⟨next, middle.rest ++ more⟩) := by
    rw [readName] at isName
    cases spanned : start.span fun c => !endsName wasInFilter c with
    | mk run behind =>
        simp only [spanned] at isName
        obtain ⟨same, inside, -⟩ := Cursor.rest_of_span spanned
        split at isName
        · cases isName
        · rename_i filled
          cases isName
          rw [same, List.append_assoc]
          apply readName_append
          · exact fun isEmpty => filled (List.isEmpty_iff.mpr isEmpty)
          · intro c isIn
            have isInside := inside c isIn
            rw [Bool.not_eq_true'] at isInside
            exact endsName_narrower narrower isInside
          · exact endsName_append closed ends.1.1
  obtain ⟨next, isNameMore⟩ := isNameMore
  obtain ⟨behind, same⟩ := goesOn next
  refine ⟨behind, ?_⟩
  dsimp only
  rw [isNameMore]
  exact same

/-- What a reader passes on behind some characters is passed on by any reader
that goes on behind them. -/
theorem PassesOn.fromBehind
    {reader wider whole : Cursor → Except PathProblem ((List Segment × Bool) × Cursor)}
    (passes : PassesOn wasInFilter inFilter more fuel spare reader wider) {start last : Cursor}
    (count : Nat) {segments : List Segment} {asksSize : Bool}
    (read : reader (start.skipMany count) = .ok ((segments, asksSize), last))
    (noSize : (wasInFilter && asksSize) = false) (atEnd : last.rest = [])
    (opens : ∀ position : Nat, ∃ behind,
      whole ⟨position, start.rest ++ more⟩ = wider ⟨behind, start.rest.drop count ++ more⟩) :
    2 * segments.length ≤ fuel ∧ ∀ position : Nat, ∃ behind,
      whole ⟨position, start.rest ++ more⟩ = putFront segments
        (readSegments (spare + (fuel + 1) - 2 * segments.length) inFilter ⟨behind, more⟩) := by
  obtain ⟨short, goesOn⟩ := passes _ segments asksSize last read noSize atEnd
  rw [Cursor.rest_skipMany] at goesOn
  refine ⟨short, ?_⟩
  intro position
  obtain ⟨middle, same⟩ := opens position
  rw [same]
  exact goesOn middle

theorem passesOn_continueWith
    (passes : ∀ fewer, fewer + 2 = fuel → PassesOn wasInFilter inFilter more fewer spare
      (readSegments (fewer + 1) wasInFilter) (readSegments (spare + (fewer + 1)) inFilter))
    (segment : Segment) :
    PassesOn wasInFilter inFilter more fuel spare (continueWith fuel wasInFilter segment)
      (continueWith (spare + fuel) inFilter segment) := by
  intro start segments asksSize last read noSize atEnd
  cases fuel with
  | zero => cases read
  | succ fewer =>
      rw [continueWith_eq] at read
      obtain ⟨⟨⟨others, asksSizeToo⟩, behind⟩, isRead, same⟩ := bind_eq_ok_iff.mp read
      rw [Except.ok.injEq, Prod.mk.injEq, Prod.mk.injEq] at same
      obtain ⟨⟨rfl, rfl⟩, rfl⟩ := same
      dsimp only at atEnd noSize ⊢
      cases fewer with
      | zero => cases isRead
      | succ fewer =>
          obtain ⟨short, goesOn⟩ :=
            passes fewer rfl start others asksSizeToo behind isRead noSize atEnd
          rw [List.length_cons]
          refine ⟨by omega, ?_⟩
          intro position
          obtain ⟨later, same⟩ := goesOn position
          refine ⟨later, ?_⟩
          have sameFuel : spare + (fewer + 1 + 1 + 1) - 2 * (others.length + 1) =
              spare + (fewer + 1) - 2 * others.length := by omega
          rw [← Nat.add_assoc, continueWith_succ, same, putFront_putFront, sameFuel]
          rfl

theorem passesOn_followNamed (ends : EndsWord inFilter more)
    (narrower : inFilter = true → wasInFilter = true) (name : String)
    (continuing : PassesOn wasInFilter inFilter more fuel spare
      (continueWith fuel wasInFilter (.child name))
      (continueWith (spare + fuel) inFilter (.child name))) :
    PassesOn wasInFilter inFilter more fuel spare (followNamed fuel wasInFilter name)
      (followNamed (spare + fuel) inFilter name) := by
  intro start segments asksSize last read noSize atEnd
  have refused := eatWord?_of_followNamed read noSize
  rw [followNamed_eq refused] at read
  obtain ⟨short, goesOn⟩ := continuing start segments asksSize last read noSize atEnd
  refine ⟨short, ?_⟩
  intro position
  obtain ⟨behind, same⟩ := goesOn position
  refine ⟨behind, ?_⟩
  rw [followNamed_eq, same]
  exact fun inside asks => eatWord?_size_append ends (refused (narrower inside) asks) position

/-- Segments that are read up to the end of a text are read in front of another
text, and outside of a filter as inside. -/
theorem passesOn_readSegments (ends : EndsWord inFilter more)
    (narrower : inFilter = true → wasInFilter = true) (spare fuel : Nat) :
    PassesOn wasInFilter inFilter more fuel spare (readSegments (fuel + 1) wasInFilter)
      (readSegments (spare + (fuel + 1)) inFilter) := by
  induction fuel using Nat.strong_induction_on with
  | _ fuel inductionHypothesis =>
      have continuing : ∀ segment, PassesOn wasInFilter inFilter more fuel spare
          (continueWith fuel wasInFilter segment) (continueWith (spare + fuel) inFilter segment) :=
        passesOn_continueWith fun fewer less => inductionHypothesis fewer (by omega)
      have bracket : LooksAhead 0 (readBracket fuel) (readBracket (spare + fuel)) :=
        (readersLookAhead_of_le (Nat.le_add_left fuel spare)).bracket
      have descending : ∀ segment, PassesOn wasInFilter inFilter more fuel spare
          (descendTo fuel wasInFilter segment) (descendTo (spare + fuel) inFilter segment) := by
        intro segment
        cases segment with
        | child name => exact continuing (.descendants (some name))
        | wildcard => exact continuing (.descendants none)
        | _ =>
            intro start segments asksSize last read
            cases read
      have passes : ∀ first : Opening, first ≠ .nothing →
          PassesOn wasInFilter inFilter more fuel spare (first.read fuel wasInFilter)
            (first.read (spare + fuel) inFilter) := by
        intro first something
        cases first with
        | descendAll => exact continuing (.descendants none)
        | descendBracket => exact bracket.bindPassesOn descending
        | descendName =>
            apply passesOn_named ends (fun name => continuing (.descendants (some name))) narrower
            intro name start segments asksSize last read noSize atEnd
            exact endsName_of_continueWith read atEnd
        | every => exact continuing .wildcard
        | dottedBracket => exact bracket.bindPassesOn continuing
        | dottedName =>
            apply passesOn_named ends (fun name =>
              passesOn_followNamed ends narrower name (continuing (.child name))) narrower
            intro name start segments asksSize last read noSize atEnd
            rw [followNamed_eq (eatWord?_of_followNamed read noSize)] at read
            exact endsName_of_continueWith read atEnd
        | bracket => exact bracket.bindPassesOn continuing
        | nothing => exact absurd rfl something
      intro start segments asksSize last read noSize atEnd
      rw [readSegments_succ] at read
      rw [← Nat.add_assoc]
      by_cases isEnd : opening start.rest = .nothing
      · rw [isEnd] at read
        cases read
        refine ⟨Nat.zero_le _, ?_⟩
        intro position
        refine ⟨position, ?_⟩
        have nothing : start.rest = [] := atEnd
        rw [nothing, List.nil_append, List.length_nil, Nat.mul_zero, Nat.sub_zero, Nat.add_assoc]
        cases read : readSegments (spare + (fuel + 1)) inFilter ⟨position, more⟩ with
        | error problem => rfl
        | ok result => rfl
      · apply (passes _ isEnd).fromBehind (opening start.rest).length read noSize atEnd
        intro position
        apply readSegments_more
        intro peeks
        rw [← Cursor.rest_skipMany]
        exact Opening.rest_of_read read (fun isNothing => absurd isNothing isEnd) peeks

/-! ## Whole paths -/

/-- What has been read of a text that is a path. -/
theorem readSegments_of_parse {text : String} {path : Path} (parsed : parse text = .ok path) :
    ∃ chars asksSize last, text.toList = '$' :: chars ∧
      readSegments (enoughFuel (chars.length + 1)) false ⟨'$'.utf8Size, chars⟩ =
        .ok ((path.segments, asksSize), last) ∧ last.rest = [] := by
  rw [parse] at parsed
  cases read : readSegmentsOf text with
  | error problem =>
      rw [read] at parsed
      cases parsed
  | ok segments =>
      rw [read] at parsed
      cases parsed
      rw [readSegmentsOf] at read
      cases start : (Cursor.ofString text).eat? '$' with
      | none =>
          simp only [start] at read
          cases read
      | some behindRoot =>
          simp only [start] at read
          obtain ⟨⟨⟨segmentsToo, asksSize⟩, last⟩, isRead, ends⟩ := bind_eq_ok_iff.mp read
          have same : text.toList = '$' :: behindRoot.rest := rest_of_eat? start
          have root : behindRoot = ⟨'$'.utf8Size, behindRoot.rest⟩ := by
            have eaten := eat?_self '$' 0 behindRoot.rest
            rw [← same] at eaten
            rw [Cursor.ofString, eaten] at start
            exact (Option.some.inj start).symm
          refine ⟨behindRoot.rest, asksSize, last, same, ?_⟩
          rw [Cursor.ofString, same, List.length_cons, root] at isRead
          dsimp only at ends isRead ⊢
          cases next : last.peek? with
          | some c =>
              rw [next] at ends
              cases ends
          | none =>
              rw [next] at ends
              cases ends
              exact ⟨isRead, List.head?_eq_none_iff.mp next⟩

/-- What follows behind a path is read behind its segments, or refused as it is on its
own; the reason may name the place where that is. -/
theorem parse_append_outcome {front : String} {base : Path} (parsed : parse front = .ok base)
    (ends : EndsWord false more) {outcome : Nat → Except PathProblem (List Segment)}
    (read : ∀ fuel position, ∃ start behind,
      readSegments (fuel + 8 * more.length + 1) false ⟨position, more⟩ =
        (outcome start).map fun segments => ((segments, false), ⟨behind, []⟩)) :
    ∃ start, parse (String.ofList (front.toList ++ more)) =
      ((outcome start).map fun segments =>
        Path.mk (String.ofList (front.toList ++ more)) (base.segments ++ segments)).mapError
          (PathProblem.inPath (String.ofList (front.toList ++ more))) := by
  obtain ⟨chars, asksSize, last, same, isRead, atEnd⟩ := readSegments_of_parse parsed
  have fuels : enoughFuel (chars.length + 1) = enoughFuel chars.length + 7 + 1 := by
    rw [enoughFuel, enoughFuel]
    omega
  rw [fuels] at isRead
  obtain ⟨short, goesOn⟩ := passesOn_readSegments ends id (8 * more.length)
    (enoughFuel chars.length + 7) _ _ _ _ isRead (Bool.false_and asksSize) atEnd
  obtain ⟨middle, isReadMore⟩ := goesOn '$'.utf8Size
  have left : 8 * more.length + (enoughFuel chars.length + 7 + 1) - 2 * base.segments.length =
      enoughFuel chars.length + 7 - 2 * base.segments.length + 8 * more.length + 1 := by omega
  obtain ⟨start, behind, isReadBehind⟩ := read _ middle
  rw [left, isReadBehind] at isReadMore
  have whole : (String.ofList (front.toList ++ more)).toList = '$' :: (chars ++ more) := by
    rw [String.toList_ofList, same, List.cons_append]
  have enough : enoughFuel ((chars ++ more).length + 1) =
      8 * more.length + (enoughFuel chars.length + 7 + 1) := by
    rw [List.length_append, enoughFuel, enoughFuel]
    omega
  rw [← enough] at isReadMore
  refine ⟨start, ?_⟩
  cases answer : outcome start with
  | ok segments =>
      rw [answer] at isReadMore
      exact readSegmentsOf_root whole isReadMore
  | error problem =>
      rw [answer] at isReadMore
      exact parse_of_readSegments_error whole isReadMore

/-- More segments behind a path are read behind its own. -/
theorem parse_append {front : String} {base : Path} (parsed : parse front = .ok base)
    (ends : EndsWord false more) {segments : List Segment}
    (read : ∀ fuel position, ∃ behind,
      readSegments (fuel + 8 * more.length + 1) false ⟨position, more⟩ =
        .ok ((segments, false), ⟨behind, []⟩)) :
    parse (String.ofList (front.toList ++ more)) =
      .ok ⟨String.ofList (front.toList ++ more), base.segments ++ segments⟩ := by
  obtain ⟨_, isRead⟩ := @parse_append_outcome more front base parsed ends (fun _ => .ok segments)
    fun fuel position => ⟨position, read fuel position⟩
  exact isRead

end

end Path

end BodyContract
