import BodyContract.Proofs.Chain.Aims
import BodyContract.Proofs.Chain.Scalars

/-!
# Unordered chains hold for a covered body

The stance that `Json.aims` computes is where the recorded chain stands, and
its place is where the value is.  A sure aim therefore finds the value in the
body, because the route leads to it or to the array around it.
-/

namespace BodyContract

/-- Whether hops go from a body to one of its values, with a wildcard for each
step to an element. -/
def IsAt : List Hop → Json → Json → Prop
  | [], body, value => body = value
  | .member name :: rest, body, value => ∃ members, body = .object members ∧
      ∃ next, members.lookup name = some next ∧ IsAt rest next value
  | .every :: rest, body, value => ∃ elements, body = .array elements ∧
      ∃ next ∈ elements, IsAt rest next value
  | .position _ :: _, _, _ => False

theorem isAt_append {front back : List Hop} {body value : Json} :
    IsAt (front ++ back) body value ↔ ∃ middle, IsAt front body middle ∧ IsAt back middle value := by
  induction front generalizing body with
  | nil => simp [IsAt]
  | cons hop rest inductionHypothesis =>
      rw [List.cons_append]
      cases hop with
      | member name =>
          simp only [IsAt, inductionHypothesis]
          constructor
          · rintro ⟨members, same, next, isThere, middle, before, behind⟩
            exact ⟨middle, ⟨members, same, next, isThere, before⟩, behind⟩
          · rintro ⟨middle, ⟨members, same, next, isThere, before⟩, behind⟩
            exact ⟨members, same, next, isThere, middle, before, behind⟩
      | every =>
          simp only [IsAt, inductionHypothesis]
          constructor
          · rintro ⟨elements, same, next, isThere, middle, before, behind⟩
            exact ⟨middle, ⟨elements, same, next, isThere, before⟩, behind⟩
          · rintro ⟨middle, ⟨elements, same, next, isThere, before⟩, behind⟩
            exact ⟨elements, same, next, isThere, middle, before, behind⟩
      | position index => simp [IsAt]

theorem isAt_member {hops : List Hop} {body : Json} {members : List (String × Json)}
    (here : IsAt hops body (.object members)) {name : String} {value : Json}
    (isThere : members.lookup name = some value) : IsAt (hops ++ [.member name]) body value :=
  isAt_append.mpr ⟨_, here, members, rfl, value, isThere, rfl⟩

theorem isAt_element {hops : List Hop} {body : Json} {elements : List Json}
    (here : IsAt hops body (.array elements)) {value : Json} (isThere : value ∈ elements) :
    IsAt (hops ++ [.every]) body value :=
  isAt_append.mpr ⟨_, here, elements, rfl, value, isThere, rfl⟩

/-- The hops to a value lead to it. -/
theorem mem_follow_of_isAt {hops : List Hop} {body value : Json} (here : IsAt hops body value) :
    value ∈ follow hops body := by
  induction hops generalizing body with
  | nil =>
      rw [IsAt] at here
      rw [follow_nil, here]
      exact List.mem_singleton_self value
  | cons hop rest inductionHypothesis =>
      rw [follow, List.mem_flatMap]
      cases hop with
      | member name =>
          obtain ⟨members, rfl, next, isThere, later⟩ := here
          refine ⟨next, ?_, inductionHypothesis later⟩
          rw [Hop.next, Json.member?, isThere]
          exact List.mem_singleton_self next
      | every =>
          obtain ⟨elements, rfl, next, isThere, later⟩ := here
          exact ⟨next, isThere, inductionHypothesis later⟩
      | position index => exact absurd here id

/-! ## Sure aims -/

/-- A sure aim finds a value that is no array, in any body where it has its place. -/
theorem findsSome_of_isSure {route place : List Hop} {name? : Option String}
    {expected shape value body : Json} {test : Json → Bool}
    (sure : (Aim.finds route place name? expected).isSure shape = true)
    (here : IsAt (place ++ name?.toList.map Hop.member) body value)
    (notArray : ∀ elements, value ≠ .array elements) (passes : test value = true) :
    FindsSome route (name?.toList.map Hop.member) test body := by
  have named : AreNames (name?.toList.map Hop.member) := by
    intro hop member
    obtain ⟨name, -, same⟩ := List.mem_map.mp member
    exact ⟨name, same.symm⟩
  rw [Aim.isSure, Bool.or_eq_true, decide_eq_true_eq, decide_eq_true_eq] at sure
  rcases sure with rfl | rfl
  · exact findsSome_of_mem named (mem_follow_of_isAt here) notArray passes
  · rw [List.append_assoc] at here
    obtain ⟨middle, before, behind⟩ := isAt_append.mp here
    obtain ⟨elements, rfl, element, isElement, later⟩ := behind
    -- the condition is tested on the element, which is what leads on to the value
    exact ⟨_, mem_follow_of_isAt before, element, isElement, value, mem_follow_of_isAt later, passes⟩

theorem finds_of_isSure {route place : List Hop} {name? : Option String} {value body : Json}
    (sure : (Aim.finds route place name? value).isSure body = true)
    (here : IsAt (place ++ name?.toList.map Hop.member) body value)
    (notArray : ∀ elements, value ≠ .array elements) {read : Json}
    (equal : value.equalsInFilter read = true) :
    Finds route (name?.toList.map Hop.member) read body :=
  findsSome_of_isSure sure here notArray equal

/-! ## Stances of recorded chains -/

namespace Recorder

/-- A chain that stands where a stance says. -/
structure Takes (key : Recorder) (stance : Stance) (pieces : List (List Hop)) : Prop where
  stands : key.Stands pieces
  condition : conditionHops key.delegate.focus pieces = (stance.route, stance.named)
  isIterating : key.delegate.isIterating = (stance.name?.isNone && !stance.route.isEmpty)
  isNameless : key.delegate.isIteratingNameless = stance.isNameless
  isEmpty : pieces = [] ↔ stance.hops = []

section

variable {key : Recorder} {stance : Stance} {pieces : List (List Hop)} {name : String}

theorem Takes.flatten_eq (takes : key.Takes stance pieces) : pieces.flatten = stance.hops := by
  obtain ⟨whole, -, -⟩ := takes.stands.condition takes.condition
  exact whole.symm

theorem Takes.isAtRoot (takes : key.Takes stance pieces) :
    key.isAtRoot = stance.hops.isEmpty := by
  rw [Recorder.isAtRoot, takes.stands.path_eq, takes.flatten_eq, Path.pathText, Bool.eq_iff_iff,
    beq_iff_eq, List.isEmpty_iff, ← textOf_eq_empty_iff]
  constructor
  · intro same
    apply String.toList_injective
    have chars := congrArg String.toList same
    rw [String.toList_append] at chars
    exact List.append_right_eq_self.mp chars
  · intro same
    rw [same]
    rfl

theorem Takes.withPlace (takes : key.Takes stance pieces) (place : List Hop) :
    key.Takes { stance with place := place } pieces :=
  ⟨takes.stands, takes.condition, takes.isIterating, takes.isNameless, takes.isEmpty⟩

theorem takes_root (document : Json) :
    (ofAsserter (Asserter.ofDocument document).lenient .bracketed).Takes .root [] where
  stands := stands_root document
  condition := rfl
  isIterating := rfl
  isNameless := rfl
  isEmpty := by simp [Stance.root, Stance.hops, Stance.named]

theorem Takes.traverseField (takes : key.Takes stance pieces) (readable : KeepsBackslashes name)
    (place : List Hop) : (key.traverseField name).Takes ⟨stance.hops, place, some name, false⟩
      (pieces ++ [[.member name]]) where
  stands := takes.stands.traverseField readable
  condition := by
    have focus : (key.traverseField name).delegate.focus = .field := rfl
    rw [focus, conditionHops_field, takes.flatten_eq]
    rfl
  isIterating := rfl
  isNameless := rfl
  isEmpty := by simp [Stance.hops, Stance.named]

/-- A step that adds hops and does not go to a member. -/
theorem Takes.advanced (takes : key.Takes stance pieces) {next : Recorder} {piece : List Hop}
    (stands : next.Stands (pieces ++ [piece])) (filled : piece ≠ [])
    (isIterating : next.delegate.isIterating = true) {isNameless : Bool}
    (nameless : next.delegate.isIteratingNameless = isNameless) (place : List Hop) :
    next.Takes ⟨stance.hops ++ piece, place, none, isNameless⟩ (pieces ++ [piece]) where
  stands := stands
  condition := by
    rw [conditionHops_other (focus_ne_field_of_isIterating isIterating), List.flatten_append,
      List.flatten_singleton, takes.flatten_eq]
    rfl
  isIterating := by
    rw [isIterating]
    simp [filled]
  isNameless := nameless
  isEmpty := by simp [Stance.hops, Stance.named, filled]

theorem Takes.widened (takes : key.Takes stance pieces) :
    key.anonymousArray.Takes stance.widened (pieces ++ [[.every]]) := by
  refine takes.advanced takes.stands.anonymousArray (List.cons_ne_nil _ _) rfl ?_ stance.there
  have length : (key.delegate.pieces.length == 1) = stance.hops.isEmpty := by
    rw [takes.stands.pieces_eq, Bool.eq_iff_iff, List.isEmpty_iff, ← takes.isEmpty]
    cases pieces with
    | nil => simp
    | cons first rest => simp
  have focus : key.anonymousArray.delegate.focus = .array (key.delegate.pieces.length == 1) := rfl
  rw [Asserter.isIteratingNameless, focus, length]
  cases stance.hops.isEmpty <;> rfl

/-- The step to the elements of an array. -/
theorem Takes.elements (takes : key.Takes stance pieces) (unnamed : stance.name? = none)
    (values : List Json) :
    ∃ others, (key.elements values).Takes (stance.elements values) others := by
  have widened : ∃ others, key.anonymousArray.Takes stance.widened others := ⟨_, takes.widened⟩
  have same : ∃ others, key.Takes stance others := ⟨_, takes⟩
  have noName : stance.hops = stance.route := by
    rw [Stance.hops, Stance.named, unnamed]
    exact List.append_nil _
  rw [Recorder.elements, Stance.elements, takes.isNameless, takes.isIterating, takes.isAtRoot,
    unnamed, noName]
  cases stance.isNameless with
  | true => exact widened
  | false =>
      cases stance.route.isEmpty with
      | true =>
          cases values.all Json.isArray with
          | true => exact same
          | false => exact widened
      | false =>
          cases values.all Json.isArray with
          | true =>
              cases values.all Json.isSimpleArray with
              | true => exact same
              | false => exact widened
          | false => exact same

/-- The step to an element. -/
theorem Takes.element (takes : key.Takes stance pieces) (value : Json) :
    ∃ others, (key.element value).Takes (stance.element value) others := by
  rw [Recorder.element, Stance.element]
  cases value.isSimpleArray with
  | true => exact ⟨_, takes.widened.withPlace _⟩
  | false => exact ⟨_, takes.withPlace _⟩

/-- The step to a member, unless its array is empty. -/
theorem Takes.entry (takes : key.Takes stance pieces) (readable : KeepsBackslashes name)
    {value : Json} (filled : value ≠ .array []) : ∃ entry others,
      key.entry name value = .ok entry ∧ entry.Takes (stance.entry name value) others := by
  cases value with
  | array elements =>
      cases elements with
      | nil => exact absurd rfl filled
      | cons first rest =>
          cases simple : Json.areSimple (first :: rest) with
          | true =>
              refine ⟨key.arrayFieldNamed name, pieces ++ [[.member name]],
                by simp [Recorder.entry, simple], ?_⟩
              rw [Stance.entry, simple]
              exact takes.advanced (takes.stands.arrayFieldNamed readable) (List.cons_ne_nil _ _)
                rfl rfl _
          | false =>
              refine ⟨key.array name, pieces ++ [[.member name, .every]],
                by simp [Recorder.entry, simple], ?_⟩
              rw [Stance.entry, simple]
              exact takes.advanced (takes.stands.array readable) (List.cons_ne_nil _ _) rfl rfl _
  | _ => exact ⟨_, _, rfl, takes.traverseField readable stance.there⟩

end

end Recorder

/-! ## The walk -/

namespace Chains

open Recorder

section

variable {key : Recorder} {stance : Stance} {pieces : List (List Hop)} {body : Json}
  {inText : TextWalk}

/-- The chains of a value that is no container hold if its aim is sure. -/
theorem yields_walk_scalar_sure (takes : key.Takes stance pieces) {value : Json}
    (plain : value.Plain KeepsBackslashes Number.ReadsBack) (scalar : value.isContainer = false)
    (here : IsAt stance.there body value)
    (sure : ∀ aim ∈ Json.aimsAt stance value, aim.isSure body = true) :
    Yields (fun chain => chain.Holds body) (walk inText false key value) := by
  have aim : Aim.finds stance.route stance.place stance.name? value ∈ Json.aimsAt stance value := by
    cases value <;> first | exact List.mem_singleton_self _ | cases scalar
  refine yields_walk_scalar takes.stands plain scalar ?_
  rw [takes.condition]
  intro read _ equal
  refine finds_of_isSure (sure _ aim) here ?_ equal
  rintro elements rfl
  cases scalar

/-- Going to a member. -/
theorem yields_member_sure (takes : key.Takes stance pieces) {name : String} {value : Json}
    (readable : KeepsBackslashes name) (here : IsAt (stance.there ++ [.member name]) body value)
    (sure : ∀ aim ∈ Json.aimsOfMember stance name value, aim.isSure body = true)
    (inductionHypothesis : ∀ {next : Recorder} {other : Stance} {others : List (List Hop)},
      next.Takes other others → IsAt other.there body value →
        (value.isArray = true → other.name? = none) →
          (∀ aim ∈ Json.aimsAt other value, aim.isSure body = true) →
            Yields (fun chain => chain.Holds body) (walk inText false next value)) :
    ∃ entry, key.entry name value = .ok entry ∧
      Yields (fun chain => chain.Holds body) (walk inText false entry value) := by
  by_cases empty : value = .array []
  · subst empty
    obtain ⟨chain, made, ends⟩ := isEmpty_ends (takes.stands.array readable).lenient
    refine ⟨chain, made, ?_⟩
    rw [walk]
    refine yields_singleton ((ends.isEmpty_holds_iff (takes.stands.array readable) body).mpr ?_)
    have empties := sure _ (List.mem_singleton_self _)
    rw [List.flatten_append, List.flatten_singleton, takes.flatten_eq]
    exact List.all_eq_true.mp empties
  · obtain ⟨entry, others, entered, moved⟩ := takes.entry readable empty
    rw [← Stance.entry_there stance name value] at here
    rw [Json.aimsOfMember_eq empty] at sure
    exact ⟨entry, entered, inductionHypothesis moved here Stance.entry_name? sure⟩

/-- The elements of an array of simple values. -/
theorem yields_simple_sure (takes : key.Takes stance pieces) {elements : List Json}
    (plain : ∀ element ∈ elements, element.Plain KeepsBackslashes Number.ReadsBack)
    (simple : elements.all Json.isSimple = true) (here : IsAt stance.there body (.array elements))
    (sure : ∀ element ∈ elements, (Aim.finds stance.hops (stance.there ++ [.every]) none
      element).isSure body = true) :
    Yields (fun chain => chain.Holds body) (walkSimple inText false key 0 elements) := by
  refine yields_walkSimple fun index value isThere => ?_
  have member := List.mem_of_getElem? isThere
  have scalar := (plain value member).isContainer_of_isSimple
    (List.all_eq_true.mp simple value member)
  rw [simpleElement, if_neg Bool.false_ne_true]
  refine yields_walk_checked takes.stands.arrayField (plain value member) scalar ?_
  have elementwise : key.arrayField.delegate.focus ≠ .field := Focus.noConfusion
  rw [conditionHops_other elementwise, takes.flatten_eq]
  intro read _ equal
  have there : IsAt (stance.there ++ [.every] ++ []) body value := by
    rw [List.append_nil]
    exact isAt_element here member
  refine finds_of_isSure (sure value member) there ?_ equal
  rintro elements rfl
  cases scalar

/-- Every chain that is recorded without an order holds if all aims are sure. -/
theorem yields_walk_unordered {value : Json}
    (plain : value.Plain KeepsBackslashes Number.ReadsBack) (takes : key.Takes stance pieces)
    (here : IsAt stance.there body value) (unnamed : value.isArray = true → stance.name? = none)
    (sure : ∀ aim ∈ Json.aimsAt stance value, aim.isSure body = true) :
    Yields (fun chain => chain.Holds body) (walk inText false key value) := by
  induction plain generalizing key stance pieces with
  | null => exact yields_walk_scalar_sure takes .null rfl here sure
  | bool flag => exact yields_walk_scalar_sure takes (.bool flag) rfl here sure
  | number allowed => exact yields_walk_scalar_sure takes (.number allowed) rfl here sure
  | string noObject => exact yields_walk_scalar_sure takes (.string noObject) rfl here sure
  | @array elements short plain inductionHypothesis =>
      have noName := unnamed rfl
      rw [Json.aimsAt] at sure
      rw [walk]
      by_cases empty : elements.isEmpty = true
      · rw [if_pos empty]
        exact yields_singleton (takes.stands.holds body)
      · rw [if_neg empty] at sure ⊢
        by_cases simple : Json.areSimple elements = true
        · rw [if_pos simple] at sure ⊢
          have all := simple
          rw [Json.areSimple, Bool.and_eq_true] at all
          have noSize : key.sizeCheck false elements.length = .ok [] := rfl
          rw [noSize]
          refine yields_nil.append (yields_simple_sure takes plain all.2 here ?_)
          intro element member
          exact sure _ (List.mem_map.mpr ⟨element, member, rfl⟩)
        · rw [if_neg simple] at sure ⊢
          rw [if_neg Bool.false_ne_true]
          obtain ⟨others, reached⟩ := takes.elements noName elements
          refine yields_walkElements fun value member => ?_
          obtain ⟨further, moved⟩ := reached.element value
          have stillNoName := Stance.elements_name? noName elements
          refine inductionHypothesis value member moved ?_ ?_ ?_
          · rw [Stance.element_there stillNoName, Stance.elements_there]
            exact isAt_element here member
          · exact fun _ => Stance.element_name? stillNoName value
          · exact fun aim isAim => sure aim (Json.mem_aimsOfElements.mpr ⟨value, member, isAim⟩)
  | @object members noMarker distinct allowed plain inductionHypothesis =>
      rw [Json.aimsAt] at sure
      rw [walk.eq_def]
      simp only [noMarker, if_neg Bool.false_ne_true]
      by_cases empty : members.isEmpty = true
      · rw [if_pos empty] at sure ⊢
        obtain ⟨chain, made, ends⟩ := isEmpty_ends takes.stands.lenient
        rw [made]
        refine yields_singleton ((ends.isEmpty_holds_iff takes.stands body).mpr ?_)
        rw [takes.flatten_eq]
        exact List.all_eq_true.mp (sure _ (List.mem_singleton_self _))
      · rw [if_neg empty] at sure ⊢
        refine yields_walkMembers fun member isIn => ?_
        refine yields_member_sure takes (allowed member isIn) ?_ ?_
          (inductionHypothesis member isIn)
        · exact isAt_member here (Json.lookup_of_mem distinct isIn)
        · exact fun aim isAim => sure aim (Json.mem_aimsOfMembers.mpr ⟨member, isIn, isAim⟩)

end

/-- A row of rows, with an empty object behind. -/
def matrixBody : Json :=
  .object [("rows", .array [.array [.int 1, .int 2], .array [.int 3]]), ("rest", .object [])]

theorem matrixBody_plain : matrixBody.Plain KeepsBackslashes Number.ReadsBack := by
  have whole : ∀ value, Number.fits value = true →
      (Json.int value).Plain KeepsBackslashes Number.ReadsBack := fun value fits =>
    .number (Number.readsBack_of_isWhole fits)
  have first : (Json.array [.int 1, .int 2]).Plain KeepsBackslashes Number.ReadsBack := by
    refine .array (by decide) fun element member => ?_
    simp only [List.mem_cons, List.not_mem_nil, or_false] at member
    rcases member with rfl | rfl
    · exact whole 1 (by decide)
    · exact whole 2 (by decide)
  have second : (Json.array [.int 3]).Plain KeepsBackslashes Number.ReadsBack := by
    refine .array (by decide) fun element member => ?_
    rw [List.mem_singleton.mp member]
    exact whole 3 (by decide)
  refine .object (by decide) (by decide) (fun member isIn => ?_) fun member isIn => ?_
  · simp only [List.mem_cons, List.not_mem_nil, or_false] at isIn
    rcases isIn with rfl | rfl
    · exact (by decide : Path.keepsBackslashes "rows".toList = true)
    · exact (by decide : Path.keepsBackslashes "rest".toList = true)
  · simp only [List.mem_cons, List.not_mem_nil, or_false] at isIn
    rcases isIn with rfl | rfl
    · refine .array (by decide) fun element member => ?_
      simp only [List.mem_cons, List.not_mem_nil, or_false] at member
      rcases member with rfl | rfl
      · exact first
      · exact second
    · exact .object (by decide) (by decide) (fun _ isIn => absurd isIn List.not_mem_nil)
        fun _ isIn => absurd isIn List.not_mem_nil

/-- A body for which one chain is recorded fails where that chain does. -/
theorem not_verify_singleton {chain : Recorder} {body : Json} (fails : ¬ chain.Holds body) :
    (ofList [chain]).verify body ≠ .ok () := by
  intro verified
  exact fails ((verifyAll_ok_iff body _).mp verified chain List.mem_cons_self)

/-- An array in an array in an array. -/
def deepOne : Json := .array [.array [.array [.int 1]]]

theorem deepOne_not_verify : ∃ chains, ofBody ⟨false, .bracketed, false⟩ deepOne = .ok chains ∧
    chains.verify deepOne ≠ .ok () := by
  have stands := (stands_root deepOne).anonymousArray.arrayField
  have scalar : (Json.int 1).isContainer = false := rfl
  have fits : Number.fits 1 = true := by decide
  obtain ⟨chain, made, ends⟩ := isEqualTo_ends stands.lenient scalar
  have recorded : ofBody ⟨false, .bracketed, false⟩ deepOne =
      ((ofAsserter (Asserter.ofDocument deepOne).lenient
        .bracketed).anonymousArray.arrayField.isEqualTo (.int 1)).bind fun checked =>
          .ok (ofList [checked]) := rfl
  rw [made] at recorded
  refine ⟨ofList [chain], recorded, not_verify_singleton ?_⟩
  -- the route has one wildcard only, so the condition is tested on the inner arrays
  rw [ends.equality_holds_iff stands rfl (Path.literalReads_int fits)]
  rintro ⟨value, isThere, item, isItem, found, isFound, equal⟩
  have outer : value = .array [.array [.int 1]] := List.mem_singleton.mp isThere
  subst outer
  have inner : item = .array [.int 1] := List.mem_singleton.mp isItem
  subst inner
  have same : found = .array [.int 1] := List.mem_singleton.mp isFound
  subst same
  cases equal

/-- A text that holds an empty object. -/
def objectInText : Json := .object [("a", .string "\x7b\x7d")]

theorem membersInText?_objectInText : Json.membersInText? "\x7b\x7d" = some [] := by
  have none : (Json.membersInText? "\x7b\x7d").map List.isEmpty = some true := by decide +kernel
  obtain ⟨members, read, empty⟩ := Option.map_eq_some_iff.mp none
  rw [read, List.isEmpty_iff.mp empty]

theorem objectInText_not_verify :
    ∃ chains, ofBody ⟨false, .bracketed, false⟩ objectInText = .ok chains ∧
      chains.verify objectInText ≠ .ok () := by
  have readable : KeepsBackslashes "a" := (by decide : Path.keepsBackslashes "a".toList = true)
  have stands := (stands_root objectInText).traverseField readable
  obtain ⟨chain, made, ends⟩ := isEmpty_ends stands.lenient
  have recorded : Chains.recorded ⟨false, .bracketed, false⟩ objectInText = .ok [chain] := by
    obtain ⟨depth, long⟩ : ∃ depth, objectInText.chars.length = depth + 1 := ⟨9, rfl⟩
    rw [Chains.recorded, long]
    have text : walk (walkText false (depth + 1)) false
        ((ofAsserter (Asserter.ofDocument objectInText).lenient .bracketed).traverseField "a")
          (.string "\x7b\x7d") = .ok [chain] := by
      have filled : "\x7b\x7d".isEmpty = false := rfl
      simp only [walk, filled, membersInText?_objectInText, walkText, List.isEmpty_nil, if_true]
      rw [made]
      rfl
    have entered : (ofAsserter (Asserter.ofDocument objectInText).lenient .bracketed).entry "a"
        (.string "\x7b\x7d") = .ok ((ofAsserter (Asserter.ofDocument objectInText).lenient
          .bracketed).traverseField "a") := rfl
    have members : walkMembers (walkText false (depth + 1)) false
        (ofAsserter (Asserter.ofDocument objectInText).lenient .bracketed)
        [("a", .string "\x7b\x7d")] = .ok [chain] := by
      rw [walkMembers, entered]
      simp only [bind, Except.bind, text, walkMembers]
      rfl
    exact members
  refine ⟨ofList [chain], ?_, not_verify_singleton ?_⟩
  · have filled : objectInText.isBlankBody = false := rfl
    rw [ofBody, documentOf, recorded, filled]
    · rfl
    · intro text impossible
      cases impossible
    · intro impossible
      cases impossible
  · intro holds
    have empty := (ends.isEmpty_holds_iff stands objectInText).mp holds (.string "\x7b\x7d")
      (List.mem_singleton_self _)
    cases empty

end Chains

end BodyContract
