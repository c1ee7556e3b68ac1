import BodyContract.Proofs.Matcher.Trailing
import BodyContract.Proofs.Matcher.Weakening
import BodyContract.Proofs.Text.Search

/-!
# Objects that are left empty

Where the paths of matchers are steps whose ends can be found, every object that
is left without members is removed, but for the root: behind it stands the path
of a matcher that has removed something, and pruning around that path comes past
the object.
-/

namespace BodyContract

namespace Json

variable {document value : Json} {places : Places}

/-! ## Behind names -/

theorem at?_eq_valueAt? (document : Json) (names : List String) :
    document.at? names = document.valueAt? (names.map Step.key) := by
  induction names generalizing document with
  | nil => rfl
  | cons name rest inductionHypothesis =>
      rw [at?_cons, List.map_cons, valueAt?, Option.bind_eq_bind]
      congr 1
      funext next
      exact inductionHypothesis next

/-- In a document without arrays, there are only names in front of a value. -/
theorem ArrayFree.exists_names (arrayFree : document.ArrayFree) {location : Location}
    (isThere : document.valueAt? location = some value) :
    ∃ names : List String, location = names.map Step.key := by
  induction location generalizing document with
  | nil => exact ⟨[], rfl⟩
  | cons step rest inductionHypothesis =>
      rw [valueAt?, Option.bind_eq_bind, Option.bind_eq_some_iff] at isThere
      obtain ⟨next, isNext, isInside⟩ := isThere
      cases arrayFree with
      | leaf scalar => cases document <;> cases step <;> first | cases isNext | cases scalar
      | @object members each =>
          cases step with
          | index position => cases isNext
          | key name =>
              obtain ⟨names, same⟩ := inductionHypothesis (each _ (mem_of_lookup isNext)) isInside
              exact ⟨name :: names, congrArg (Step.key name :: ·) same⟩

/-- What is left behind names has not gone. -/
theorem kept_of_at?_without {names : List String} (filled : names ≠ [])
    (isThere : (document.without places).at? names = some value) :
    places (names.map Step.key) = false := by
  induction names generalizing document places with
  | nil => exact absurd rfl filled
  | cons name rest inductionHypothesis =>
      rw [at?_cons, Option.bind_eq_some_iff] at isThere
      obtain ⟨next, isNext, isInside⟩ := isThere
      obtain ⟨kept, old, -, rfl⟩ := member?_without isNext
      cases rest with
      | nil => exact kept
      | cons other more => exact inductionHypothesis (List.cons_ne_nil other more) isInside

/-- An object that is empty when places have gone was empty before, or one of
its members has gone. -/
theorem emptied_of_without {names : List String}
    (isThere : (document.without places).at? names = some (.object [])) :
    document.at? names = some (.object []) ∨
      ∃ name, places ((names ++ [name]).map Step.key) = true := by
  obtain ⟨whole, isWhole, same⟩ := at?_without isThere
  cases whole with
  | object members =>
      cases members with
      | nil => exact Or.inl isWhole
      | cons member others =>
          obtain ⟨name, value⟩ := member
          refine Or.inr ⟨name, ?_⟩
          rw [List.map_append, List.map_singleton]
          by_contra kept
          rw [Bool.not_eq_true] at kept
          have stays : (fun rest => places (names.map Step.key ++ rest)) [.key name] = false := kept
          rw [without, withoutMembers_cons_kept stays] at same
          cases same
  | _ => cases same

end Json

/-! ## Deleting at traceable paths -/

/-- Whether a path is written as steps whose ends can be found. -/
structure IsTraceable (path : String) (paces : List Pace) : Prop where
  text : path = Pace.textOf paces
  readable : ∀ pace ∈ paces, pace.isReadable false = true
  plain : ∀ pace ∈ paces, pace.isPlain = true
  still : containsText path ".." = false

open Pace

theorem IsTraceable.front {path : String} {front back : List Pace}
    (trace : IsTraceable path (front ++ back)) : IsTraceable (textOf front) front := by
  refine ⟨rfl, fun pace isIn => trace.readable pace (List.mem_append_left back isIn),
    fun pace isIn => trace.plain pace (List.mem_append_left back isIn), ?_⟩
  by_contra moving
  rw [Bool.not_eq_false, containsText, toList_textOf] at moving
  have whole : hasInfix "..".toList ('$' :: charsOf front ++ charsOf back) = true :=
    hasInfix_iff.mpr ((hasInfix_iff.mp moving).trans (List.prefix_append _ _).isInfix)
  have still := trace.still
  rw [trace.text, containsText, toList_textOf, charsOf_append, ← List.cons_append, whole] at still
  cases still

section

variable {current smaller : Json} {path : String} {paces : List Pace} {count : Nat}
  {names : List String}

theorem eq_without_of_delete (distinct : current.HasDistinctNames) (trace : IsTraceable path paces)
    (deleted : current.delete path = .ok (count, smaller)) :
    smaller = current.without ((Path.mk (textOf paces) (segmentsOf paces)).removed current) ∧
      (count = 0 ↔ ∀ location,
        (Path.mk (textOf paces) (segmentsOf paces)).removed current location = false) := by
  obtain ⟨number, removed, counted⟩ := Json.delete_eq distinct (Path.parse_textOf trace.readable)
  rw [trace.text, removed] at deleted
  cases deleted
  exact ⟨rfl, counted⟩

/-- Deleting at a path of steps empties only the object in front of the last
one. -/
theorem emptied_of_delete (distinct : current.HasDistinctNames) (trace : IsTraceable path paces)
    (deleted : current.delete path = .ok (count, smaller))
    (empty : smaller.at? names = some (.object [])) :
    current.at? names = some (.object []) ∨
      count ≠ 0 ∧ ∃ name, locationOf paces = (names ++ [name]).map Step.key := by
  obtain ⟨rfl, counted⟩ := eq_without_of_delete distinct trace deleted
  rcases Json.emptied_of_without empty with before | ⟨name, gone⟩
  · exact Or.inl before
  · refine Or.inr ⟨?_, name, (removed_textOf_eq_true_iff.mp gone).1.symm⟩
    intro isNone
    rw [counted.mp isNone] at gone
    cases gone

/-- What a path of steps leads to, and what is inside, is deleted. -/
theorem gone_of_delete (distinct : current.HasDistinctNames) (trace : IsTraceable path paces)
    (deleted : current.delete path = .ok (count, smaller))
    (sameLocation : locationOf paces = names.map Step.key) (filled : names ≠ [])
    (more : List String) : smaller.at? (names ++ more) = none := by
  obtain ⟨rfl, -⟩ := eq_without_of_delete distinct trace deleted
  rw [Option.eq_none_iff_forall_ne_some]
  intro value isThere
  rw [Json.at?_eq_valueAt?, List.map_append, Json.valueAt?_append, ← Json.at?_eq_valueAt?,
    Option.bind_eq_some_iff] at isThere
  obtain ⟨next, isNext, -⟩ := isThere
  obtain ⟨whole, isWhole, -⟩ := Json.at?_without isNext
  have kept := Json.kept_of_at?_without filled isNext
  rw [Json.at?_eq_valueAt?] at isWhole
  have gone : (Path.mk (textOf paces) (segmentsOf paces)).removed current
      (names.map Step.key) = true := by
    apply removed_textOf_eq_true_iff.mpr
    refine ⟨sameLocation.symm, ?_, fun isRoot => filled (List.map_eq_nil_iff.mp isRoot)⟩
    rw [isWhole]
    rfl
  rw [kept] at gone
  cases gone

/-- A path of steps that deletes something names it. -/
theorem names_of_delete (distinct : current.HasDistinctNames) (arrayFree : current.ArrayFree)
    (trace : IsTraceable path paces) (deleted : current.delete path = .ok (count, smaller))
    (counts : count ≠ 0) : ∃ names, names ≠ [] ∧ locationOf paces = names.map Step.key := by
  obtain ⟨rfl, counted⟩ := eq_without_of_delete distinct trace deleted
  have someGone : ∃ location,
      (Path.mk (textOf paces) (segmentsOf paces)).removed current location = true := by
    by_contra noneGone
    rw [not_exists] at noneGone
    exact counts (counted.mpr fun location => Bool.eq_false_iff.mpr (noneGone location))
  obtain ⟨location, gone⟩ := someGone
  obtain ⟨rfl, isThere, notRoot⟩ := removed_textOf_eq_true_iff.mp gone
  obtain ⟨value, isValue⟩ := Option.isSome_iff_exists.mp isThere
  obtain ⟨names, same⟩ := arrayFree.exists_names isValue
  refine ⟨names, ?_, same⟩
  rintro rfl
  exact notRoot same

theorem isHollowAt_textOf_iff (readable : ∀ pace ∈ paces, pace.isReadable false = true) :
    IsHollowAt (textOf paces) current ↔
      ∃ value, current.valueAt? (locationOf paces) = some value ∧ value.isHollow = true := by
  apply exists_congr
  intro value
  rw [readElement_textOf_eq_ok_iff readable]

theorem not_isHollowAt_of_isUnreadable (unreadable : Path.IsUnreadable path) :
    ¬IsHollowAt path current := by
  intro hollow
  obtain ⟨value, read, -⟩ := hollow
  obtain ⟨problem, broken⟩ := unreadable
  obtain ⟨_, parsed, -⟩ := Json.of_readElement read
  rw [broken] at parsed
  cases parsed

end

/-! ## IsPending paths -/

section

variable {body current smaller : Json} {path : String} {paths rest : List String}

/-- Whether a path is one of steps to where nothing is left. -/
def IsGone (current : Json) (path : String) : Prop :=
  ∃ paces names, IsTraceable path paces ∧ locationOf paces = names.map Step.key ∧
    current.at? names = none

/-- Whether a path leads one step further than names do. -/
def Aims (path : String) (names : List String) : Prop :=
  ∀ paces, IsTraceable path paces → ∃ name, locationOf paces = (names ++ [name]).map Step.key

/-- What holds while hollow containers are removed around paths: behind every
object that has been emptied stands one of the paths, and nothing is left at the
paths themselves. -/
structure IsPending (body current : Json) (paths : List String) : Prop where
  cut : current.IsCutFrom body
  gone : ∀ path ∈ paths, IsGone current path
  aimed : ∀ names, names ≠ [] → current.HasEmptied body names → ∃ path ∈ paths, Aims path names

theorem IsGone.of_cut (gone : IsGone current path) (cut : smaller.IsCutFrom current) :
    IsGone smaller path := by
  obtain ⟨paces, names, trace, sameLocation, nothing⟩ := gone
  refine ⟨paces, names, trace, sameLocation, ?_⟩
  rw [Option.eq_none_iff_forall_ne_some]
  intro value isThere
  obtain ⟨whole, isWhole, -⟩ := cut.kept names value isThere
  rw [nothing] at isWhole
  cases isWhole

theorem IsPending.congr {others : List String} (pending : IsPending body current paths)
    (same : ∀ path, path ∈ others ↔ path ∈ paths) : IsPending body current others := by
  refine ⟨pending.cut, fun path isIn => pending.gone path ((same path).mp isIn), ?_⟩
  intro names filled emptied
  obtain ⟨path, isIn, aims⟩ := pending.aimed names filled emptied
  exact ⟨path, (same path).mpr isIn, aims⟩

theorem isCutFrom_of_delete {text : String} {count : Nat} (cut : current.IsCutFrom body)
    (deleted : current.delete text = .ok (count, smaller)) : smaller.IsCutFrom current :=
  (Json.isCutFrom_refl cut.distinct cut.arrayFree).delete deleted

/-- Removing a container in front of the last step passes the paths on. -/
theorem IsPending.removeContainer (pending : IsPending body current (path :: rest))
    {front back : List Pace} {names : List String} (trace : IsTraceable path (front ++ back))
    (sameLocation : locationOf (front ++ back) = names.map Step.key) (frontFilled : front ≠ [])
    (backFilled : back ≠ []) :
    ∃ smaller, removeContainer (textOf front) current = (smaller, some (textOf front)) ∧
      IsPending body smaller (textOf front :: rest) := by
  have distinct := pending.cut.distinct
  have traceFront := trace.front
  obtain ⟨count, deleted, -⟩ := Json.delete_eq distinct (Path.parse_textOf traceFront.readable)
  refine ⟨_, by rw [BodyContract.removeContainer, deleted], ?_⟩
  generalize current.without _ = smaller at deleted
  -- The names of the container are in front of those of the path.
  have bothParts := sameLocation
  rw [locationOf, List.map_append, eq_comm, List.map_eq_append_iff] at bothParts
  obtain ⟨frontNames, backNames, rfl, sameFront, sameBack⟩ := bothParts
  have namesFilled : frontNames ≠ [] := by
    rintro rfl
    exact frontFilled (List.map_eq_nil_iff.mp sameFront.symm)
  have nothingBehind : ∀ more, smaller.at? (frontNames ++ more) = none :=
    gone_of_delete distinct traceFront deleted sameFront.symm namesFilled
  have cut := isCutFrom_of_delete pending.cut deleted
  refine ⟨pending.cut.delete deleted, ?_, ?_⟩
  · intro other isIn
    rcases List.mem_cons.mp isIn with rfl | isLater
    · refine ⟨front, frontNames, traceFront, sameFront.symm, ?_⟩
      rw [← List.append_nil frontNames]
      exact nothingBehind []
    · exact (pending.gone other (List.mem_cons_of_mem path isLater)).of_cut cut
  · intro emptyNames filled emptied
    by_cases before : current.at? emptyNames = some (.object [])
    · obtain ⟨other, isIn, aims⟩ := pending.aimed emptyNames filled ⟨before, emptied.2⟩
      rcases List.mem_cons.mp isIn with rfl | isLater
      · -- The object in front of the last step has gone with the container.
        obtain ⟨name, sameAim⟩ := aims _ trace
        have sameNames : emptyNames ++ [name] = frontNames ++ backNames :=
          List.map_injective_iff.mpr (fun _ _ same => Step.key.inj same)
            (sameAim.symm.trans sameLocation)
        have backNamesFilled : backNames ≠ [] := by
          rintro rfl
          exact backFilled (List.map_eq_nil_iff.mp sameBack.symm)
        obtain ⟨more, last, rfl⟩ := (List.eq_nil_or_concat backNames).resolve_left backNamesFilled
        rw [List.concat_eq_append, ← List.append_assoc] at sameNames
        have inside : emptyNames = frontNames ++ more := (List.append_inj' sameNames rfl).1
        have nothing := nothingBehind more
        rw [← inside, emptied.1] at nothing
        cases nothing
      · exact ⟨other, List.mem_cons_of_mem _ isLater, aims⟩
    · refine ⟨textOf front, List.mem_cons_self, ?_⟩
      intro paces traceToo
      rcases emptied_of_delete distinct traceToo deleted emptied.1 with impossible | ⟨-, aims⟩
      · exact absurd impossible before
      · exact aims

/-- Nothing is left of an object without its members. -/
theorem delete_rootElements {members : List (String × Json)}
    (distinct : (Json.object members).HasDistinctNames) :
    ∃ count, (Json.object members).delete rootElements = .ok (count, .object []) := by
  obtain ⟨count, deleted, -⟩ := Json.delete_eq distinct Json.parse_rootElements
  refine ⟨count, ?_⟩
  rw [deleted, Json.without]
  have nothing : Json.withoutMembers
      ((Path.mk rootElements [.wildcard]).removed (.object members)) members = [] := by
    rw [List.eq_nil_iff_forall_not_mem]
    intro member isIn
    obtain ⟨value, isMember, kept, -⟩ := Json.mem_withoutMembers.mp isIn
    have gone : (Path.mk rootElements [.wildcard]).removed (.object members)
        [.key member.1] = true := by
      rw [Path.removed_eq_true_iff, Path.mem_locate_iff (by simp [Segment.isFilter]) distinct]
      refine ⟨⟨?_, by simp [areSelected, Segment.accepts]⟩, List.cons_ne_nil _ _⟩
      rw [Json.valueAt?_singleton]
      cases distinct with
      | leaf scalar => cases scalar
      | object namesDistinct _ =>
          have isThere := Json.lookup_of_mem namesDistinct isMember
          rw [Json.step?, Json.member?, isThere]
          rfl
    rw [kept] at gone
    cases gone
  rw [nothing]

theorem IsPending.empty (pending : IsPending body current (path :: rest)) {text : String} {count : Nat}
    (deleted : current.delete text = .ok (count, .object [])) : IsPending body (.object []) rest := by
  have cut := isCutFrom_of_delete pending.cut deleted
  refine ⟨pending.cut.delete deleted, ?_, ?_⟩
  · intro other isIn
    exact (pending.gone other (List.mem_cons_of_mem path isIn)).of_cut cut
  · intro names filled emptied
    cases names with
    | nil => exact absurd rfl filled
    | cons name more =>
        have nothing := emptied.1
        cases nothing

/-! ## Pruning around a path -/

/-- A container that is hollow in front of a path of steps stands in front of
one of the steps. -/
theorem front_of_hollow {paces : List Pace} (trace : IsTraceable path paces)
    (nothing : current.valueAt? (locationOf paces) = none)
    (hollow : IsHollowAt (withoutLastBrackets path) current) :
    ∃ front back, back ≠ [] ∧ paces = front ++ back ∧ withoutLastBrackets path = textOf front := by
  have same := trace.text
  rw [same] at hollow ⊢
  rcases withoutLastBrackets_textOf trace.readable trace.plain with
    ⟨cut, -⟩ | ⟨front, isDotted, step, back, rfl, -, cut⟩
  · rw [cut, isHollowAt_textOf_iff trace.readable] at hollow
    obtain ⟨value, isThere, -⟩ := hollow
    rw [nothing] at isThere
    cases isThere
  · refine ⟨front, .bracketed isDotted step :: back, List.cons_ne_nil _ _, rfl, ?_⟩
    cases isDotted with
    | true =>
        rw [cut] at hollow
        exact absurd hollow (not_isHollowAt_of_isUnreadable
          (Path.isUnreadable_of_dot trace.front.readable))
    | false =>
        rw [cut, dot, if_neg Bool.false_ne_true, List.append_nil]
        rfl

theorem textOf_ne_root {front : List Pace} (filled : front ≠ []) : textOf front ≠ "$" := by
  intro same
  have chars : '$' :: charsOf front = ['$'] := by
    rw [← toList_textOf, same]
    rfl
  cases front with
  | nil => exact filled rfl
  | cons pace others =>
      obtain ⟨c, more, begins, -⟩ := pace.chars_begins
      rw [charsOf_cons, begins] at chars
      cases chars

theorem length_textOf_lt {front back : List Pace} (filled : back ≠ []) :
    (textOf front).toList.length < (textOf (front ++ back)).toList.length := by
  cases back with
  | nil => exact absurd rfl filled
  | cons pace others =>
      obtain ⟨c, more, begins, -⟩ := pace.chars_begins
      rw [toList_textOf, toList_textOf, charsOf_append, charsOf_cons, begins]
      simp only [List.length_cons, List.length_append]
      omega

/-- Where nothing is hollow around a path, the object in front of its last step
has not been emptied. -/
theorem not_aims_of_solid {paces : List Pace} (trace : IsTraceable path paces)
    (solid : ¬(IsHollowAt (withoutLastBrackets path) current ∧ path ≠ rootElements))
    (kept : ∀ parent, withoutLastDot? path = some parent →
      parent = "$" ∨ ¬IsHollowAt parent current) {names : List String} (filled : names ≠ [])
    (empty : current.at? names = some (.object [])) : ¬Aims path names := by
  intro aims
  obtain ⟨name, sameLocation⟩ := aims paces trace
  rw [List.map_append, List.map_singleton, locationOf, List.map_eq_append_iff] at sameLocation
  obtain ⟨front, lasts, rfl, sameFront, sameLast⟩ := sameLocation
  obtain ⟨last, alone, -⟩ := List.map_eq_singleton_iff.mp sameLast
  rw [alone] at trace
  have isLast : last ∈ front ++ [last] := List.mem_append_right front (List.mem_singleton_self _)
  have frontFilled : front ≠ [] := by
    rintro rfl
    exact filled (List.map_eq_nil_iff.mp sameFront.symm)
  have hollow : IsHollowAt (textOf front) current := by
    rw [isHollowAt_textOf_iff trace.front.readable, locationOf, sameFront,
      ← Json.at?_eq_valueAt?]
    exact ⟨.object [], empty, rfl⟩
  have notElements : path ≠ rootElements := by
    intro isRoot
    have parsed := Path.parse_textOf trace.readable
    rw [← trace.text, isRoot, Json.parse_rootElements, Except.ok.injEq, Path.mk.injEq] at parsed
    have definite := isDefinite_segmentsOf (front ++ [last])
    rw [← parsed.2] at definite
    cases definite
  -- What stands in front of the last step is looked at, behind a dot or not.
  cases begins : last.beginsWithDot with
  | true =>
      have split : withoutLastDot? (textOf (front ++ [last])) = some (textOf front) :=
        withoutLastDot?_of_beginsWithDot begins (trace.readable last isLast)
          (trace.plain last isLast)
      rw [← trace.text] at split
      rcases kept _ split with isRoot | notHollow
      · exact textOf_ne_root frontFilled isRoot
      · exact notHollow hollow
  | false =>
      cases last with
      | bare name => cases begins
      | bracketed isDotted step =>
          have undotted : isDotted = false := begins
          rw [undotted] at trace
          have cut := withoutLastBrackets_of_bracketed trace.readable trace.plain
          rw [← trace.text] at cut
          apply solid
          rw [cut]
          exact ⟨hollow, notElements⟩

/-- What one step of pruning does around a pending path: it ends and has dealt
with the path, nothing is left, or it goes on at a shorter path. -/
theorem IsPending.pruneStep (pending : IsPending body current (path :: rest)) :
    ((pruneStep path current).2 = none ∧ IsPending body (pruneStep path current).1 rest) ∨
      (pruneStep path current = (.object [], some rootElements) ∧
        IsPending body (.object []) rest) ∨
      ∃ next, (pruneStep path current).2 = some next ∧
        next.toList.length < path.toList.length ∧
        IsPending body (pruneStep path current).1 (next :: rest) := by
  obtain ⟨paces, names, trace, sameLocation, nothing⟩ := pending.gone path List.mem_cons_self
  have nothingThere : current.valueAt? (locationOf paces) = none := by
    rw [sameLocation, ← Json.at?_eq_valueAt?]
    exact nothing
  -- A container in front of a step goes, and its path is shorter.
  have goesOn : ∀ {front back : List Pace}, front ≠ [] → back ≠ [] → paces = front ++ back →
      ∀ {result}, result = BodyContract.removeContainer (textOf front) current →
      ∃ next, result.2 = some next ∧ next.toList.length < path.toList.length ∧
        IsPending body result.1 (next :: rest) := by
    intro front back frontFilled backFilled same result isResult
    rw [same] at trace sameLocation
    obtain ⟨smaller, removed, passed⟩ :=
      pending.removeContainer trace sameLocation frontFilled backFilled
    rw [isResult, removed]
    refine ⟨textOf front, rfl, ?_, passed⟩
    rw [trace.text]
    exact length_textOf_lt backFilled
  have step := isStep_pruneStep path current
  generalize isResult : BodyContract.pruneStep path current = result at step ⊢
  cases step with
  | container hollow _ _ =>
      obtain ⟨front, back, backFilled, same, cut⟩ := front_of_hollow trace nothingThere hollow
      by_cases isRoot : front = []
      · rw [isRoot, textOf_nil] at cut
        rw [containerTarget, if_pos cut]
        rw [cut] at hollow
        obtain ⟨value, read, isHollow⟩ := hollow
        rw [readElement_root] at read
        cases read
        have distinct := pending.cut.distinct
        have arrayFree := pending.cut.arrayFree
        cases arrayFree with
        | leaf scalar => cases current <;> first | cases isHollow | cases scalar
        | object each =>
            obtain ⟨count, deleted⟩ := delete_rootElements distinct
            refine Or.inr (Or.inl ⟨?_, pending.empty deleted⟩)
            rw [BodyContract.removeContainer, deleted]
      · refine Or.inr (Or.inr (goesOn isRoot backFilled same ?_))
        rw [containerTarget, cut, if_neg (textOf_ne_root isRoot)]
  | descent hollow _ descends =>
      obtain ⟨front, back, -, same, cut⟩ := front_of_hollow trace nothingThere hollow
      rw [same] at trace
      rw [containerTarget, cut] at descends
      by_cases isRoot : textOf front = "$"
      · rw [if_pos isRoot] at descends
        exact absurd descends (by decide)
      · rw [if_neg isRoot, trace.front.still] at descends
        cases descends
  | parent _ split hollow notRoot =>
      rw [trace.text] at split
      rcases withoutLastDot?_textOf trace.readable trace.plain split with
        unreadable | ⟨front, last, back, same, rfl⟩
      · exact absurd hollow (not_isHollowAt_of_isUnreadable unreadable)
      · refine Or.inr (Or.inr (goesOn ?_ (List.cons_ne_nil last back) same rfl))
        rintro rfl
        exact notRoot rfl
  | nothing solid kept =>
      refine Or.inl ⟨rfl, pending.cut, ?_, ?_⟩
      · intro other isIn
        exact pending.gone other (List.mem_cons_of_mem path isIn)
      · intro emptyNames filled emptied
        obtain ⟨other, isIn, aims⟩ := pending.aimed emptyNames filled emptied
        rcases List.mem_cons.mp isIn with rfl | isLater
        · exact absurd aims (not_aims_of_solid trace solid kept filled emptied.1)
        · exact ⟨other, isLater, aims⟩

/-- Nothing more is removed from an empty object. -/
theorem pruneAux_empty (fuel : Nat) (path : String) :
    pruneAux fuel path (.object []) = .object [] := by
  let IsEmpty : Json → Prop := fun body => body = .object []
  have empty : IsEmpty (.object []) := rfl
  refine pruneAux_induction ?_ empty fuel path
  intro body smaller text count same deleted
  rw [same, Json.delete] at deleted
  obtain ⟨parsed, isParsed, -⟩ := bind_eq_ok_iff.mp deleted
  have distinct : (Json.object []).HasDistinctNames :=
    .object List.nodup_nil fun member isIn => absurd isIn List.not_mem_nil
  obtain ⟨_, removed, -⟩ := Json.delete_eq distinct isParsed
  rw [← Json.delete, removed] at deleted
  cases deleted
  rfl

/-- Pruning around a path deals with it. -/
theorem IsPending.pruneAux (pending : IsPending body current (path :: rest)) {fuel : Nat}
    (enough : path.toList.length < fuel) : IsPending body (pruneAux fuel path current) rest := by
  induction fuel generalizing current path with
  | zero => exact absurd enough (Nat.not_lt_zero _)
  | succ fuel inductionHypothesis =>
      have step := pending.pruneStep
      rw [BodyContract.pruneAux]
      generalize BodyContract.pruneStep path current = result at step ⊢
      obtain ⟨smaller, next⟩ := result
      rcases step with ⟨rfl, dealt⟩ | ⟨same, dealt⟩ | ⟨next, rfl, shorter, dealt⟩
      · exact dealt
      · cases same
        rw [Option.elim_some, pruneAux_empty]
        exact dealt
      · exact inductionHypothesis dealt (by omega)

theorem IsPending.foldl_prune (pending : IsPending body current paths) :
    IsPending body (paths.foldl prune current) [] := by
  induction paths generalizing current with
  | nil => exact pending
  | cons path others inductionHypothesis =>
      rw [List.foldl_cons]
      apply inductionHypothesis
      rw [prune]
      apply pending.pruneAux
      rw [String.length_toList]
      omega

/-! ## Stripping -/

/-- Deleting at the paths of matchers leaves those pending that have deleted
something. -/
theorem pending_removeEach {matchers : List Matcher} (cut : current.IsCutFrom body)
    (traceable : ∀ matcher ∈ matchers,
      Path.IsUnreadable matcher.path ∨ ∃ paces, IsTraceable matcher.path paces) :
    (∀ path ∈ (Matcher.removeEach matchers current).1,
        IsGone (Matcher.removeEach matchers current).2 path) ∧
      ∀ names, (Matcher.removeEach matchers current).2.at? names = some (.object []) →
        current.at? names = some (.object []) ∨
          ∃ path ∈ (Matcher.removeEach matchers current).1, Aims path names := by
  induction matchers generalizing current with
  | nil =>
      rw [Matcher.removeEach]
      exact ⟨fun path isIn => absurd isIn List.not_mem_nil, fun names isThere => Or.inl isThere⟩
  | cons matcher others inductionHypothesis =>
      have later := fun other isIn => traceable other (List.mem_cons_of_mem matcher isIn)
      rw [Matcher.removeEach]
      cases deleted : current.delete matcher.path with
      | error problem => exact inductionHypothesis cut later
      | ok result =>
          obtain ⟨count, smaller⟩ := result
          have trace : ∃ paces, IsTraceable matcher.path paces := by
            refine (traceable matcher List.mem_cons_self).resolve_left ?_
            rintro ⟨problem, broken⟩
            rw [Json.delete, broken] at deleted
            cases deleted
          obtain ⟨paces, trace⟩ := trace
          have cutSmaller := isCutFrom_of_delete cut deleted
          have inside := inductionHypothesis (cut.delete deleted) later
          have cutLast : (Matcher.removeEach others smaller).2.IsCutFrom smaller :=
            @removeEach_induction (fun left => left.IsCutFrom smaller)
              (fun cut deleted => cut.delete deleted) smaller
              (Json.isCutFrom_refl cutSmaller.distinct cutSmaller.arrayFree) others
          dsimp only
          generalize Matcher.removeEach others smaller = result at inside cutLast ⊢
          obtain ⟨paths, last⟩ := result
          dsimp only at inside cutLast ⊢
          by_cases counts : count = 0
          · rw [if_pos counts]
            refine ⟨inside.1, ?_⟩
            intro names isThere
            rcases inside.2 names isThere with before | aimed
            · rcases emptied_of_delete cut.distinct trace deleted before with same | ⟨filled, -⟩
              · exact Or.inl same
              · exact absurd counts filled
            · exact Or.inr aimed
          · rw [if_neg counts]
            constructor
            · intro path isIn
              rcases List.mem_cons.mp isIn with rfl | isLater
              · obtain ⟨names, filled, sameLocation⟩ :=
                  names_of_delete cut.distinct cut.arrayFree trace deleted counts
                have nothing :=
                  gone_of_delete cut.distinct trace deleted sameLocation filled []
                rw [List.append_nil] at nothing
                have gone : IsGone smaller matcher.path :=
                  ⟨paces, names, trace, sameLocation, nothing⟩
                exact gone.of_cut cutLast
              · exact inside.1 path isLater
            · intro names isThere
              rcases inside.2 names isThere with before | ⟨path, isIn, aims⟩
              · by_cases same : current.at? names = some (.object [])
                · exact Or.inl same
                · refine Or.inr ⟨matcher.path, List.mem_cons_self, ?_⟩
                  intro pacesToo traceToo
                  rcases emptied_of_delete cut.distinct traceToo deleted before with
                    impossible | ⟨-, aims⟩
                  · exact absurd impossible same
                  · exact aims
              · exact Or.inr ⟨path, List.mem_cons_of_mem _ isIn, aims⟩

/-- Where the paths of matchers can be traced back, no object but the root is
left emptied. -/
theorem eq_nil_of_hasEmptied {matchers : List Matcher} (distinct : body.HasDistinctNames)
    (arrayFree : body.ArrayFree)
    (traceable : ∀ matcher ∈ matchers,
      Path.IsUnreadable matcher.path ∨ ∃ paces, IsTraceable matcher.path paces)
    {names : List String} (emptied : (Matcher.strip matchers body).HasEmptied body names) :
    names = [] := by
  have cut := Json.isCutFrom_refl distinct arrayFree
  have removed := pending_removeEach cut traceable
  have cutLast := @removeEach_induction (fun left => left.IsCutFrom body)
    (fun cut deleted => cut.delete deleted) body cut matchers
  rw [Matcher.strip] at emptied
  generalize Matcher.removeEach matchers body = result at removed cutLast emptied
  obtain ⟨paths, left⟩ := result
  dsimp only at removed cutLast emptied
  have pending : IsPending body left paths := by
    refine ⟨cutLast, removed.1, ?_⟩
    intro names _ emptied
    rcases removed.2 names emptied.1 with before | aimed
    · exact absurd before emptied.2
    · exact aimed
  have sorted : IsPending body left (paths.mergeSort fun left right => right ≤ left) :=
    pending.congr fun path => List.mem_mergeSort
  by_contra filled
  obtain ⟨path, isIn, -⟩ := sorted.foldl_prune.aimed names filled emptied
  exact absurd isIn List.not_mem_nil

end

namespace Verifier

/-- A body without arrays satisfies the chains of what matchers leave of it if
they leave no markers, an empty body is not checked, and no object inside is
emptied, as is the case where the paths of the matchers can be traced back. -/
theorem verify_strip {verifier : Verifier} (bracketed : verifier.usesBrackets = true)
    {body : Json} (container : body.isContainer = true) (arrayFree : body.ArrayFree)
    (plain : body.Plain HasNoBackslash Number.IsWhole) {matchers : List Matcher}
    (unmarked : (Matcher.strip matchers body).isUnmarked = true)
    (rootFilled : verifier.checksEmptyBody = true →
      ¬(Matcher.strip matchers body).HasEmptied body [])
    (filled : (∀ names, names ≠ [] → ¬(Matcher.strip matchers body).HasEmptied body names) ∨
      ∀ matcher ∈ matchers,
        Path.IsUnreadable matcher.path ∨ ∃ paces, IsTraceable matcher.path paces) :
    ∃ chains, verifier.chains (Matcher.strip matchers body) = .ok chains ∧
      chains.verify body = .ok () := by
  apply verify_strip_of_filled bracketed container arrayFree plain unmarked
  intro names emptied
  have isRoot : names = [] := by
    rcases filled with insideFilled | traceable
    · by_contra inside
      exact insideFilled names inside emptied
    · exact eq_nil_of_hasEmptied plain.hasDistinctNames arrayFree traceable emptied
  subst isRoot
  refine ⟨rfl, ?_⟩
  by_contra checked
  rw [Bool.not_eq_false] at checked
  exact rootFilled checked emptied

/-- A member inside an object beside a number. -/
def nestedMember : Json := .object [("a", .object [("b", .int 1)]), ("c", .int 2)]

/-- A matcher for the member inside the object. -/
def matchesNested : Matcher := Matcher.byCommand (textOf [.bare "a", .bare "b"]) "check"

theorem nestedMember_plain : nestedMember.ArrayFree ∧
    nestedMember.Plain HasNoBackslash Number.IsWhole := by
  have number : ∀ value, Number.fits value = true →
      (Json.int value).Plain HasNoBackslash Number.IsWhole := fun _ fits => .number fits
  constructor
  · refine .object fun member isIn => ?_
    simp only [List.mem_cons, List.not_mem_nil, or_false] at isIn
    rcases isIn with rfl | rfl
    · refine .object fun inner isInner => ?_
      rw [List.mem_singleton.mp isInner]
      exact .leaf rfl
    · exact .leaf rfl
  · refine .object rfl (by decide) (fun member isIn => ?_) fun member isIn => ?_
    · simp only [List.mem_cons, List.not_mem_nil, or_false] at isIn
      rcases isIn with rfl | rfl
      · exact (by decide : '\\' ∉ "a".toList)
      · exact (by decide : '\\' ∉ "c".toList)
    · simp only [List.mem_cons, List.not_mem_nil, or_false] at isIn
      rcases isIn with rfl | rfl
      · refine .object rfl (by decide) (fun inner isInner => ?_) fun inner isInner => ?_
        · rw [List.mem_singleton.mp isInner]
          exact (by decide : '\\' ∉ "b".toList)
        · rw [List.mem_singleton.mp isInner]
          exact number 1 (by decide)
      · exact number 2 (by decide)

theorem matchesNested_isTraceable :
    IsTraceable matchesNested.path [.bare "a", .bare "b"] :=
  ⟨rfl, by decide, by decide, by decide⟩

theorem nestedMember_verify : ∃ chains,
    strict.chains (Matcher.strip [matchesNested] nestedMember) = .ok chains ∧
      chains.verify nestedMember = .ok () := by
  refine verify_strip rfl rfl nestedMember_plain.1 nestedMember_plain.2 (by decide +kernel) ?_ ?_
  · intro _ emptied
    have left : (Matcher.strip [matchesNested] nestedMember).isEmptyContainer = false := by
      decide +kernel
    rw [Option.some.inj emptied.1] at left
    cases left
  · refine Or.inr fun matcher isIn => ?_
    rw [List.mem_singleton.mp isIn]
    exact Or.inr ⟨_, matchesNested_isTraceable⟩

/-- The root stays when its only member has gone, and is checked to be empty. -/
theorem emptiedRoot_verify :
    strict.usesBrackets = true ∧
    (Json.object [("a", .int 1)]).ArrayFree ∧
    (Json.object [("a", .int 1)]).Plain HasNoBackslash Number.IsWhole ∧
    ∃ chains, strict.chains (Matcher.strip [Matcher.byCommand "$.a" "check"]
        (.object [("a", .int 1)])) = .ok chains ∧
      chains.verify (.object [("a", .int 1)]) ≠ .ok () := by
  refine ⟨rfl, ?_, ?_, ?_⟩
  · refine .object fun member isIn => ?_
    rw [List.mem_singleton.mp isIn]
    exact .leaf rfl
  · refine .object rfl (by decide) (fun member isIn => ?_) fun member isIn => ?_
    · rw [List.mem_singleton.mp isIn]
      exact (by decide : '\\' ∉ "a".toList)
    · rw [List.mem_singleton.mp isIn]
      exact .number (by decide : Number.fits 1 = true)
  · have isMade : (strict.chains (Matcher.strip [Matcher.byCommand "$.a" "check"]
        (.object [("a", .int 1)]))).isOk = true := by decide +kernel
    have fails : (strict.verify (.object [("a", .int 1)]) (.object [("a", .int 1)])
        [Matcher.byCommand "$.a" "check"]).isOk = false := by decide +kernel
    cases made : strict.chains (Matcher.strip [Matcher.byCommand "$.a" "check"]
        (.object [("a", .int 1)])) with
    | error _ =>
        rw [made] at isMade
        cases isMade
    | ok chains =>
        refine ⟨chains, rfl, ?_⟩
        intro passes
        rw [verify, made] at fails
        simp only [bind, Except.bind, passes] at fails
        cases fails

end Verifier

end BodyContract
