import BodyContract.Proofs.Matcher.Conversion
import BodyContract.Proofs.Matcher.Trailing
import BodyContract.Proofs.Matcher.Weakening
import BodyContract.Proofs.Path.Brackets
import BodyContract.Proofs.Path.Wrapping
import BodyContract.Proofs.Text.Search

/-!
# Where pruning ends

Pruning goes on at a container that it has removed, and so on.  Every such step
makes the path shorter or the body smaller, unless it comes back to where it was
with nothing removed; so pruning ends exactly if it never comes to such a place.
It cannot come to one from a path on one line that has no wildcard behind a dot
in front of its first bracket.  Wherever it comes to, no scalar is lost.

The bound of the recursion is above the weight of every chain that ends.  So
`prune?` and `strip?` have a result exactly where pruning ends.
-/

namespace BodyContract

namespace Json

variable {document smaller value : Json} {elements : List Json} {members : List (String × Json)}

/-! ## Removing makes documents smaller -/

theorem valueCount_pos (value : Json) : 0 < value.valueCount := by
  cases value <;> simp [valueCount]

theorem valueCountOfMembers_eraseMember {name : String}
    (isThere : (members.lookup name).isSome = true) :
    valueCountOfMembers (eraseMember name members) < valueCountOfMembers members := by
  induction members with
  | nil => cases isThere
  | cons member rest inductionHypothesis =>
      obtain ⟨other, value⟩ := member
      have positive := value.valueCount_pos
      rw [eraseMember, valueCountOfMembers]
      by_cases same : other = name
      · rw [if_pos same]
        omega
      · have later : (rest.lookup name).isSome = true := by
          rwa [List.lookup_cons, beq_false_of_ne (Ne.symm same)] at isThere
        rw [if_neg same, valueCountOfMembers]
        have shorter := inductionHypothesis later
        omega

theorem valueCountOfElements_eraseIdx {position : Nat} (inside : position < elements.length) :
    valueCountOfElements (elements.eraseIdx position) < valueCountOfElements elements := by
  induction elements generalizing position with
  | nil => cases inside
  | cons element rest inductionHypothesis =>
      have positive := element.valueCount_pos
      cases position with
      | zero =>
          rw [List.eraseIdx_cons_zero, valueCountOfElements]
          omega
      | succ position =>
          have shorter := inductionHypothesis (Nat.lt_of_succ_lt_succ inside)
          rw [List.eraseIdx_cons_succ, valueCountOfElements, valueCountOfElements]
          omega

theorem valueCount_removeStep? {step : Step} (removed : document.removeStep? step = some smaller) :
    smaller.valueCount < document.valueCount := by
  rw [removeStep?.eq_def] at removed
  split at removed
  · split at removed
    · rename_i isThere
      cases removed
      rw [valueCount, valueCount]
      have shorter := valueCountOfMembers_eraseMember isThere
      omega
    · cases removed
  · split at removed
    · rename_i inside
      cases removed
      rw [valueCount, valueCount]
      have shorter := valueCountOfElements_eraseIdx inside
      omega
    · cases removed
  · cases removed

section

variable {change : Json → Option Json}
  (shrinks : ∀ value changed, change value = some changed → changed.valueCount < value.valueCount)

include shrinks

theorem valueCountOfMembers_modifyMember? {name : String} {others : List (String × Json)}
    (modified : modifyMember? name change members = some others) :
    valueCountOfMembers others < valueCountOfMembers members := by
  induction members generalizing others with
  | nil => cases modified
  | cons member rest inductionHypothesis =>
      obtain ⟨other, value⟩ := member
      rw [modifyMember?] at modified
      split at modified
      · obtain ⟨changed, isChanged, rfl⟩ := Option.map_eq_some_iff.mp modified
        have shorter := shrinks value changed isChanged
        rw [valueCountOfMembers, valueCountOfMembers]
        omega
      · obtain ⟨later, isLater, rfl⟩ := Option.map_eq_some_iff.mp modified
        have shorter := inductionHypothesis isLater
        rw [valueCountOfMembers, valueCountOfMembers]
        omega

theorem valueCountOfElements_modifyElement? {position : Nat} {others : List Json}
    (modified : modifyElement? change position elements = some others) :
    valueCountOfElements others < valueCountOfElements elements := by
  induction elements generalizing position others with
  | nil => cases position <;> cases modified
  | cons element rest inductionHypothesis =>
      cases position with
      | zero =>
          obtain ⟨changed, isChanged, rfl⟩ := Option.map_eq_some_iff.mp modified
          have shorter := shrinks element changed isChanged
          rw [valueCountOfElements, valueCountOfElements]
          omega
      | succ position =>
          obtain ⟨later, isLater, rfl⟩ := Option.map_eq_some_iff.mp modified
          have shorter := inductionHypothesis isLater
          rw [valueCountOfElements, valueCountOfElements]
          omega

end

theorem valueCount_removeAt? {location : Location} (removed : removeAt? location document = some smaller) :
    smaller.valueCount < document.valueCount := by
  induction location generalizing document smaller with
  | nil => cases removed
  | cons first rest inductionHypothesis =>
      have shrinks : ∀ value changed, removeAt? rest value = some changed →
          changed.valueCount < value.valueCount := fun _ _ => inductionHypothesis
      cases rest with
      | nil => exact valueCount_removeStep? removed
      | cons next rest =>
          rw [removeAt?.eq_def] at removed
          split at removed
          · cases removed
          · rename_i impossible
            cases impossible
          · rename_i name _ _ members same
            cases same
            obtain ⟨others, isChanged, rfl⟩ := Option.map_eq_some_iff.mp removed
            have shorter := valueCountOfMembers_modifyMember? shrinks isChanged
            rw [valueCount, valueCount]
            omega
          · rename_i position _ _ elements same
            cases same
            obtain ⟨others, isChanged, rfl⟩ := Option.map_eq_some_iff.mp removed
            have shorter := valueCountOfElements_modifyElement? shrinks isChanged
            rw [valueCount, valueCount]
            omega
          · cases removed

/-- Removing nothing changes nothing, and removing anything leaves less. -/
theorem valueCount_removeAll {locations : List Location} {count : Nat}
    (removed : removeAll locations document = (count, smaller)) :
    (count = 0 ∧ smaller = document) ∨
      (count ≠ 0 ∧ smaller.valueCount < document.valueCount) := by
  induction locations generalizing document count with
  | nil =>
      cases removed
      exact Or.inl ⟨rfl, rfl⟩
  | cons location rest inductionHypothesis =>
      rw [removeAll] at removed
      cases first : removeAt? location document with
      | none =>
          rw [first] at removed
          exact inductionHypothesis removed
      | some middle =>
          have shorter := valueCount_removeAt? first
          cases later : removeAll rest middle with
          | mk others last =>
              simp only [first, later] at removed
              cases removed
              refine Or.inr ⟨Nat.succ_ne_zero others, ?_⟩
              rcases inductionHypothesis later with ⟨-, rfl⟩ | ⟨-, shorterToo⟩
              · exact shorter
              · exact shorterToo.trans shorter

theorem valueCount_delete {text : String} {count : Nat}
    (deleted : document.delete text = .ok (count, smaller)) :
    (count = 0 ∧ smaller = document) ∨
      (count ≠ 0 ∧ smaller.valueCount < document.valueCount) := by
  rw [delete] at deleted
  obtain ⟨path, -, removed⟩ := bind_eq_ok_iff.mp deleted
  exact valueCount_removeAll (Except.ok.inj removed)

end Json

/-! ## The chain of steps -/

/-- What pruning around a path leaves of a body, if its steps come to an end. -/
inductive PrunesTo : String → Json → Json → Prop where
  | last {path : String} {body left : Json} (step : pruneStep path body = (left, none)) :
      PrunesTo path body left
  | goesOn {path next : String} {body smaller left : Json}
      (step : pruneStep path body = (smaller, some next)) (later : PrunesTo next smaller left) :
      PrunesTo path body left

/-- Whether pruning around a path comes to another path, with what is left of the body there. -/
inductive ComesTo : String → Json → String → Json → Prop where
  | here (path : String) (body : Json) : ComesTo path body path body
  | goesOn {path next last : String} {body smaller left : Json}
      (step : pruneStep path body = (smaller, some next))
      (later : ComesTo next smaller last left) : ComesTo path body last left

/-- Whether a step removes nothing and comes back to its own path. -/
def IsStuck (path : String) (body : Json) : Prop := pruneStep path body = (body, some path)

variable {path next : String} {body smaller left : Json}

theorem of_removeContainer {target : String}
    (step : removeContainer target body = (smaller, some next)) :
    next = target ∧ ∃ count, body.delete target = .ok (count, smaller) := by
  rw [removeContainer] at step
  cases deleted : body.delete target with
  | error _ =>
      rw [deleted] at step
      cases step
  | ok result =>
      rw [deleted] at step
      cases step
      exact ⟨rfl, _, rfl⟩

/-- Pruning goes on at a container that it has removed: that in front of the last dot,
or a hollow one without the last brackets. -/
theorem of_pruneStep_some (step : pruneStep path body = (smaller, some next)) :
    (∃ count, body.delete next = .ok (count, smaller)) ∧
      (withoutLastDot? path = some next ∨
        IsHollowAt (withoutLastBrackets path) body ∧ path ≠ rootElements ∧
          next = containerTarget path ∧ containsText next ".." = false) := by
  have cases_ := isStep_pruneStep path body
  rw [step] at cases_
  generalize same : (smaller, some next) = result at cases_
  cases cases_ with
  | container hollow inside plain =>
      obtain ⟨rfl, isDeleted⟩ := of_removeContainer same.symm
      exact ⟨isDeleted, Or.inr ⟨hollow, inside, rfl, plain⟩⟩
  | descent _ _ _ => cases same
  | parent _ split _ _ =>
      obtain ⟨rfl, isDeleted⟩ := of_removeContainer same.symm
      exact ⟨isDeleted, Or.inl split⟩
  | nothing _ _ => cases same

/-! ### Every step is a step forward -/

theorem withoutLastBrackets_isPrefix (path : String) :
    (withoutLastBrackets path).toList <+: path.toList := by
  rw [withoutLastBrackets]
  cases lastBrackets? path.toList.length path.toList with
  | none => exact List.prefix_refl _
  | some count =>
      dsimp only
      rw [String.toList_ofList]
      exact List.take_prefix _ _

theorem of_withoutLastDot? {parent : String} (split : withoutLastDot? path = some parent) :
    ∃ others, path.toList = parent.toList ++ '.' :: others := by
  obtain ⟨⟨front, back⟩, atDot, same⟩ := Option.map_eq_some_iff.mp split
  cases same
  exact ⟨_, by rw [String.toList_ofList]; exact Matcher.of_splitAtLast?_dot atDot⟩

/-- How far a path is from the end of pruning, not counting the body. -/
def pruneWeight (path : String) : Nat := if path = rootElements then 0 else path.length + 1

theorem pruneWeight_lt_of_shorter (shorter : next.toList.length < path.toList.length)
    (inside : path ≠ rootElements) : pruneWeight next < pruneWeight path := by
  rw [pruneWeight, pruneWeight, if_neg inside]
  rw [String.length_toList, String.length_toList] at shorter
  split <;> omega

/-- A step that does not come back to where it was makes the path shorter or the body
smaller, but for the one from the root to its elements. -/
theorem isStuck_or_less (step : pruneStep path body = (smaller, some next)) :
    IsStuck path body ∨
      pruneWeight next + smaller.valueCount < pruneWeight path + body.valueCount := by
  obtain ⟨⟨count, isDeleted⟩, isNext⟩ := of_pruneStep_some step
  have removed := Json.valueCount_delete isDeleted
  have atMost : smaller.valueCount ≤ body.valueCount := by
    rcases removed with ⟨-, rfl⟩ | ⟨-, less⟩
    · exact Nat.le_refl _
    · exact Nat.le_of_lt less
  rcases isNext with split | ⟨-, inside, isTarget, -⟩
  · obtain ⟨others, same⟩ := of_withoutLastDot? split
    have inside : path ≠ rootElements := by
      rintro rfl
      have noDot : withoutLastDot? rootElements = none := by decide
      rw [noDot] at split
      cases split
    have shorter : next.toList.length < path.toList.length := by
      rw [same, List.length_append, List.length_cons]
      omega
    have lighter := pruneWeight_lt_of_shorter shorter inside
    right
    omega
  · rw [containerTarget] at isTarget
    by_cases isRoot : withoutLastBrackets path = "$"
    · rw [if_pos isRoot] at isTarget
      have light : pruneWeight next = 0 := by rw [isTarget, pruneWeight, if_pos rfl]
      have heavy : pruneWeight path = path.length + 1 := by rw [pruneWeight, if_neg inside]
      right
      omega
    · rw [if_neg isRoot] at isTarget
      have isPrefix := withoutLastBrackets_isPrefix path
      rw [← isTarget] at isPrefix
      rcases Nat.lt_or_eq_of_le isPrefix.length_le with shorter | long
      · have lighter := pruneWeight_lt_of_shorter shorter inside
        right
        omega
      · have samePath : next = path := String.toList_injective (isPrefix.eq_of_length long)
        rcases removed with ⟨-, rfl⟩ | ⟨-, less⟩
        · left
          rw [IsStuck, step, samePath]
        · right
          rw [samePath]
          omega

/-! ### Where the steps come to an end -/

theorem exists_prunesTo (free : ∀ last left, ComesTo path body last left → ¬IsStuck last left) :
    ∃ left, PrunesTo path body left := by
  generalize size : pruneWeight path + body.valueCount = weight
  induction weight using Nat.strong_induction_on generalizing path body with
  | _ weight inductionHypothesis =>
      cases step : pruneStep path body with
      | mk smaller next =>
          cases next with
          | none => exact ⟨smaller, .last step⟩
          | some next =>
              have less := (isStuck_or_less step).resolve_left (free path body (.here path body))
              obtain ⟨left, later⟩ := inductionHypothesis _ (by omega)
                (fun last left comes => free last left (.goesOn step comes)) rfl
              exact ⟨left, .goesOn step later⟩

theorem PrunesTo.not_isStuck (prunes : PrunesTo path body left) {last : String} {rest : Json}
    (comes : ComesTo path body last rest) : ¬IsStuck last rest := by
  induction prunes with
  | last step =>
      cases comes with
      | here _ _ =>
          intro stuck
          rw [IsStuck, step] at stuck
          cases stuck
      | goesOn stepToo _ =>
          rw [step] at stepToo
          cases stepToo
  | goesOn step later inductionHypothesis =>
      cases comes with
      | here _ _ =>
          -- A stuck step comes back, so the rest of the chain begins at the same place.
          intro stuck
          rw [IsStuck, step] at stuck
          cases stuck
          exact inductionHypothesis (.here _ _) step
      | goesOn stepToo comes =>
          rw [step] at stepToo
          cases stepToo
          exact inductionHypothesis comes

/-- A bounded run that comes to an end has made the steps of the chain. -/
theorem of_pruneAux? {fuel : Nat} (ends : pruneAux? fuel path body = some left) :
    PrunesTo path body left ∧ pruneAux fuel path body = left := by
  induction fuel generalizing path body with
  | zero => cases ends
  | succ fuel inductionHypothesis =>
      rw [pruneAux?] at ends
      rw [pruneAux]
      cases step : pruneStep path body with
      | mk smaller next =>
          simp only [step] at ends ⊢
          cases next with
          | none =>
              cases ends
              exact ⟨.last step, rfl⟩
          | some next =>
              obtain ⟨later, same⟩ := inductionHypothesis ends
              exact ⟨.goesOn step later, same⟩

theorem PrunesTo.pruneAux? (prunes : PrunesTo path body left) {fuel : Nat}
    (enough : pruneWeight path + body.valueCount < fuel) :
    pruneAux? fuel path body = some left := by
  induction prunes generalizing fuel with
  | last step =>
      cases fuel with
      | zero => cases enough
      | succ fuel =>
          rw [BodyContract.pruneAux?]
          simp only [step, Option.elim_none]
  | goesOn step later inductionHypothesis =>
      have free := (PrunesTo.goesOn step later).not_isStuck (.here _ _)
      have less := (isStuck_or_less step).resolve_left free
      cases fuel with
      | zero => cases enough
      | succ fuel =>
          rw [BodyContract.pruneAux?]
          simp only [step, Option.elim_some]
          exact inductionHypothesis (by omega)

/-- The bound is high enough for every chain that ends. -/
theorem prune?_eq_some_iff : prune? body path = some left ↔ PrunesTo path body left := by
  constructor
  · intro ends
    exact (of_pruneAux? ends).1
  · intro prunes
    apply prunes.pruneAux?
    rw [pruneWeight]
    split <;> omega

/-- Where the steps come to an end, they are all made. -/
theorem PrunesTo.prune (prunes : PrunesTo path body left) : prune body path = left :=
  (of_pruneAux? (prune?_eq_some_iff.mpr prunes)).2

/-! ## Paths from which pruning ends -/

/-- A step is stuck exactly at the path of a hollow container that is not the root, where
there are no brackets to leave out and nothing to delete. -/
theorem isStuck_iff : IsStuck path body ↔
    withoutLastBrackets path = path ∧ path ≠ "$" ∧ IsHollowAt path body ∧
      containsText path ".." = false ∧ ∃ count, body.delete path = .ok (count, body) := by
  constructor
  · intro stuck
    obtain ⟨isDeleted, isNext⟩ := of_pruneStep_some stuck
    rcases isNext with split | ⟨hollow, inside, isTarget, plain⟩
    · obtain ⟨others, same⟩ := of_withoutLastDot? split
      have long := congrArg List.length same
      rw [List.length_append, List.length_cons] at long
      omega
    · rw [containerTarget] at isTarget
      by_cases isRoot : withoutLastBrackets path = "$"
      · rw [if_pos isRoot] at isTarget
        exact absurd isTarget inside
      · rw [if_neg isRoot] at isTarget
        rw [← isTarget] at isRoot hollow
        exact ⟨isTarget.symm, isRoot, hollow, plain, isDeleted⟩
  · rintro ⟨uncut, notRoot, hollow, plain, count, isDeleted⟩
    have inside : path ≠ rootElements := by
      rintro rfl
      have cut : withoutLastBrackets rootElements = "$" := by decide
      rw [cut] at uncut
      exact notRoot uncut.symm
    have isTarget : containerTarget path = path := by
      rw [containerTarget, uncut, if_neg notRoot]
    have hollowThere : IsHollowAt (withoutLastBrackets path) body := by
      rw [uncut]
      exact hollow
    rw [IsStuck, pruneStep_of_hollow hollowThere inside, isTarget, if_neg (by rw [plain]; decide),
      removeContainer, isDeleted]

/-- Whether a path stands on one line and has no wildcard behind a dot in front of its
first bracket. -/
def IsTame (path : String) : Prop :=
  '\n' ∉ path.toList ∧ ¬ ['.', '*'] <:+: path.toList.takeWhile (· != '[')

instance (path : String) : Decidable (IsTame path) := inferInstanceAs (Decidable (_ ∧ _))

theorem isTame_rootElements : IsTame rootElements := by decide

theorem IsTame.of_prefix (tame : IsTame path) (isPrefix : next.toList <+: path.toList) :
    IsTame next := by
  obtain ⟨back, same⟩ := isPrefix
  obtain ⟨oneLine, noWildcard⟩ := tame
  rw [← same] at oneLine noWildcard
  refine ⟨fun isIn => oneLine (List.mem_append_left back isIn), fun isInfix => noWildcard ?_⟩
  refine isInfix.trans (List.IsPrefix.isInfix ?_)
  rw [List.takeWhile_append]
  split
  · rename_i whole
    rw [(List.takeWhile_prefix _).eq_of_length whole]
    exact List.prefix_append _ _
  · exact List.prefix_refl _

/-- Pruning goes on along tame paths. -/
theorem IsTame.step (tame : IsTame path) (step : pruneStep path body = (smaller, some next)) :
    IsTame next := by
  obtain ⟨-, split | ⟨-, -, isTarget, -⟩⟩ := of_pruneStep_some step
  · obtain ⟨others, same⟩ := of_withoutLastDot? split
    exact tame.of_prefix ⟨_, same.symm⟩
  · rw [isTarget, containerTarget]
    split
    · exact isTame_rootElements
    · exact tame.of_prefix (withoutLastBrackets_isPrefix path)

theorem skipBrackets?_ne_none {text : List Char} (closed : ']' ∈ text) (oneLine : '\n' ∉ text) :
    skipBrackets? text ≠ none := by
  induction text with
  | nil => exact absurd closed List.not_mem_nil
  | cons c rest inductionHypothesis =>
      rw [List.mem_cons, not_or] at oneLine
      rw [skipBrackets?]
      by_cases isClosing : c = ']'
      · rw [if_pos isClosing]
        exact Option.some_ne_none rest
      · rw [if_neg isClosing, if_neg (Ne.symm oneLine.1)]
        exact inductionHypothesis ((List.mem_cons.mp closed).resolve_left (Ne.symm isClosing))
          oneLine.2

/-- On one line, a path whose brackets are closed is shorter without the last ones. -/
theorem withoutLastBrackets_ne (oneLine : '\n' ∉ path.toList) {front inside : List Char}
    (same : path.toList = front ++ '[' :: inside) (free : '[' ∉ front) (closed : ']' ∈ inside) :
    withoutLastBrackets path ≠ path := by
  have positive : ∀ fuel text count, lastBrackets? fuel text = some count → 0 < count := by
    intro fuel
    induction fuel with
    | zero =>
        intro text count found
        cases found
    | succ fuel inductionHypothesis =>
        intro text count found
        cases text with
        | nil => cases found
        | cons c rest =>
            rw [lastBrackets?] at found
            split at found
            · exact inductionHypothesis rest count found
            · rename_i behind _
              cases found
              cases later : lastBrackets? fuel behind with
              | none => exact Nat.succ_pos _
              | some count => exact inductionHypothesis behind count later
  have closes : skipBrackets? inside ≠ none := by
    apply skipBrackets?_ne_none closed
    intro isIn
    apply oneLine
    rw [same]
    exact List.mem_append_right _ (List.mem_cons_of_mem _ isIn)
  have found : ∃ count, lastBrackets? path.toList.length path.toList = some count := by
    have long : path.toList.length = inside.length + 1 + front.length := by
      rw [same, List.length_append, List.length_cons]
      omega
    rw [long, same, lastBrackets?_skip free, lastBrackets?, if_pos rfl]
    cases skipped : skipBrackets? inside with
    | none => exact absurd skipped closes
    | some behind => exact ⟨_, rfl⟩
  obtain ⟨count, isCount⟩ := found
  have taken := positive _ _ _ isCount
  have cut : withoutLastBrackets path =
      String.ofList (path.toList.take (path.toList.length - count)) := by
    rw [withoutLastBrackets]
    simp only [isCount]
  intro uncut
  have shorter := congrArg (fun text => text.toList.length) (cut.symm.trans uncut)
  simp only [String.toList_ofList, List.length_take] at shorter
  have long : path.toList.length ≠ 0 := by
    rw [same, List.length_append, List.length_cons]
    omega
  omega

theorem Path.isFilter_of_isDefinite {read : Path} (definite : read.isDefinite = true)
    {segment : Segment} (isIn : segment ∈ read.segments) : segment.isFilter = false := by
  have isDefinite := List.all_eq_true.mp definite segment isIn
  cases segment <;> first | rfl | cases isDefinite

/-- Only the root itself is behind no segments. -/
theorem Path.eq_root_of_segments_nil {read : Path} (parsed : Path.parse path = .ok read)
    (nothing : read.segments = []) : path = "$" := by
  obtain ⟨chars, asksSize, last, same, isRead, atEnd⟩ := Path.readSegments_of_parse parsed
  rw [nothing] at isRead
  rw [Path.eq_of_readSegments_nil isRead] at atEnd
  apply String.toList_injective
  rw [same]
  exact congrArg ('$' :: ·) atEnd

/-- A path that leads to a value other than the root deletes it. -/
theorem not_delete_self (distinct : body.HasDistinctNames) {read : Path} {value : Json}
    (parsed : Path.parse path = .ok read) (definite : read.isDefinite = true) (notRoot : path ≠ "$")
    (isThere : body.readElement path = .ok value) (count : Nat) :
    body.delete path ≠ .ok (count, body) := by
  intro isDeleted
  have selected : ∃ location, location ∈ read.locate body := by
    rcases Json.readElement_of_isDefinite parsed definite body with ⟨-, missing⟩ |
      ⟨node, single, -⟩
    · rw [missing] at isThere
      cases isThere
    · exact ⟨node.location, by rw [Path.locate, single]; exact List.mem_cons_self⟩
  obtain ⟨location, isLocated⟩ := selected
  have inside : location ≠ [] := by
    rintro rfl
    have open_ : ∀ segment ∈ read.segments, segment.isFilter = false :=
      fun _ => Path.isFilter_of_isDefinite definite
    have isSelected := ((Path.mem_locate_iff open_ distinct).mp isLocated).2
    rw [areSelected.eq_def] at isSelected
    exact notRoot (Path.eq_root_of_segments_nil parsed (List.isEmpty_iff.mp isSelected))
  have isNone : count = 0 := by
    rcases Json.valueCount_delete isDeleted with ⟨isNone, -⟩ | ⟨-, less⟩
    · exact isNone
    · exact absurd less (Nat.lt_irrefl _)
  obtain ⟨counted, removed, none_iff⟩ := Json.delete_eq distinct parsed
  rw [removed] at isDeleted
  have sameCount : counted = count := (Prod.mk.inj (Except.ok.inj isDeleted)).1
  have isKept := none_iff.mp (sameCount.trans isNone) location
  rw [Path.removed_eq_true_iff.mpr ⟨isLocated, inside⟩] at isKept
  cases isKept

/-- No step along a tame path is stuck. -/
theorem IsTame.not_isStuck (tame : IsTame path) (distinct : body.HasDistinctNames) :
    ¬IsStuck path body := by
  intro stuck
  obtain ⟨uncut, notRoot, ⟨value, isThere, -⟩, plain, count, isDeleted⟩ := isStuck_iff.mp stuck
  obtain ⟨oneLine, noWildcard⟩ := tame
  obtain ⟨read, isRead, -⟩ := Json.of_readElement isThere
  have free : '[' ∉ path.toList := by
    intro opens
    obtain ⟨front, inside, same, free, closed⟩ := Path.closes_of_parse isRead opens
    exact withoutLastBrackets_ne oneLine same free closed uncut
  have whole : path.toList.takeWhile (· != '[') = path.toList := by
    rw [List.takeWhile_eq_self_iff]
    intro c isIn
    rw [bne_iff_ne]
    rintro rfl
    exact free isIn
  rw [whole] at noWildcard
  rcases Path.isShown_of_parse isRead free with definite | wildcard | descent
  · exact not_delete_self distinct isRead definite notRoot isThere count isDeleted
  · exact noWildcard wildcard
  · have dots : "..".toList = ['.', '.'] := rfl
    rw [containsText, dots, hasInfix_iff.mpr descent] at plain
    cases plain

theorem Json.HasDistinctNames.delete {document smaller : Json} (distinct : document.HasDistinctNames)
    {text : String} {count : Nat} (deleted : document.delete text = .ok (count, smaller)) :
    smaller.HasDistinctNames := by
  rw [Json.delete] at deleted
  obtain ⟨path, parsed, -⟩ := bind_eq_ok_iff.mp deleted
  obtain ⟨_, removed, -⟩ := Json.delete_eq distinct parsed
  rw [← Json.delete, removed] at deleted
  cases deleted
  exact distinct.without _

/-- From a tame path, pruning never gets stuck. -/
theorem IsTame.not_comesTo_isStuck (tame : IsTame path) (distinct : body.HasDistinctNames)
    {last : String} {rest : Json} (comes : ComesTo path body last rest) : ¬IsStuck last rest := by
  induction comes with
  | here path body => exact tame.not_isStuck distinct
  | goesOn step _ inductionHypothesis =>
      obtain ⟨⟨count, isDeleted⟩, -⟩ := of_pruneStep_some step
      exact inductionHypothesis (tame.step step) (distinct.delete isDeleted)

theorem IsTame.prunesTo (tame : IsTame path) (distinct : body.HasDistinctNames) :
    PrunesTo path body (prune body path) := by
  obtain ⟨left, prunes⟩ := exists_prunesTo fun _ _ comes => tame.not_comesTo_isStuck distinct comes
  rw [prunes.prune]
  exact prunes

/-! ## What pruning keeps -/

theorem keepsScalars_of_pruneStep {next : Option String}
    (step : pruneStep path body = (smaller, next)) (distinct : body.HasDistinctNames) :
    smaller.KeepsScalars body := by
  have kept := keepsScalars_pruneStep distinct path
  rwa [step] at kept

theorem PrunesTo.keepsScalars (prunes : PrunesTo path body left)
    (distinct : body.HasDistinctNames) : left.KeepsScalars body := by
  induction prunes with
  | last step => exact keepsScalars_of_pruneStep step distinct
  | goesOn step _ inductionHypothesis =>
      have kept := keepsScalars_of_pruneStep step distinct
      exact (inductionHypothesis kept.1).trans kept

theorem ComesTo.keepsScalars {last : String} (comes : ComesTo path body last left)
    (distinct : body.HasDistinctNames) : left.KeepsScalars body := by
  induction comes with
  | here path body => exact ⟨distinct, rfl⟩
  | goesOn step _ inductionHypothesis =>
      have kept := keepsScalars_of_pruneStep step distinct
      exact (inductionHypothesis kept.1).trans kept

/-- Pruning around any path removes no value but containers: where it ends, and wherever it
comes to before, the scalars are those of the body, in their order and behind the same
names. -/
theorem pruning_keeps_scalars (body : Json) (distinct : body.HasDistinctNames) (path : String) :
    (∀ left, PrunesTo path body left →
        prune body path = left ∧ left.namedScalars = body.namedScalars) ∧
      ∀ last left, ComesTo path body last left → left.namedScalars = body.namedScalars :=
  ⟨fun _ prunes => ⟨prunes.prune, (prunes.keepsScalars distinct).2⟩,
    fun _ _ comes => (comes.keepsScalars distinct).2⟩

/-- A member with a dot in its name, in which there is nothing left, beside a list. -/
def dottedMember : Json :=
  .object [("a", .object [("x.y", .array [])]), ("b", .array [.int 1, .array [.bool true]])]

theorem dottedMember_distinct : dottedMember.HasDistinctNames := by
  have empty : (Json.array []).HasDistinctNames := .array (by simp)
  have flag : (Json.array [.bool true]).HasDistinctNames := .array (by simpa using .leaf rfl)
  have number : (Json.int 1).HasDistinctNames := .leaf rfl
  have inner : (Json.object [("x.y", .array [])]).HasDistinctNames :=
    .object (by simp) (by simpa using empty)
  have list : (Json.array [.int 1, .array [.bool true]]).HasDistinctNames :=
    .array (by simp [number, flag])
  exact .object (by decide) (by simp [inner, list])

/-- The steps cut the path inside the quoted name, too. -/
theorem dottedMember_pruning_keeps : dottedMember.HasDistinctNames ∧
    PrunesTo "$.a['x.y'][0]" dottedMember (prune dottedMember "$.a['x.y'][0]") ∧
    (prune dottedMember "$.a['x.y'][0]").namedScalars =
      [(["b"], .int 1), (["b"], .bool true)] := by
  have tame : IsTame "$.a['x.y'][0]" := by decide
  have prunes := tame.prunesTo dottedMember_distinct
  refine ⟨dottedMember_distinct, prunes, ?_⟩
  exact ((pruning_keeps_scalars dottedMember dottedMember_distinct _).1 _ prunes).2

/-! ## Whole lists of matchers -/

/-- What pruning around some paths, one after another, leaves of a body. -/
inductive PrunesAllTo : List String → Json → Json → Prop where
  | nil (body : Json) : PrunesAllTo [] body body
  | cons {path : String} {rest : List String} {body middle left : Json}
      (first : PrunesTo path body middle) (later : PrunesAllTo rest middle left) :
      PrunesAllTo (path :: rest) body left

theorem foldlM_prune?_eq_some_iff {paths : List String} :
    paths.foldlM prune? body = some left ↔ PrunesAllTo paths body left := by
  induction paths generalizing body with
  | nil =>
      rw [List.foldlM_nil]
      constructor
      · intro ends
        cases ends
        exact .nil _
      · rintro ⟨⟩
        rfl
  | cons path rest inductionHypothesis =>
      rw [List.foldlM_cons]
      constructor
      · intro ends
        obtain ⟨middle, first, later⟩ := Option.bind_eq_some_iff.mp ends
        exact .cons (prune?_eq_some_iff.mp first) (inductionHypothesis.mp later)
      · intro prunes
        cases prunes with
        | cons first later =>
            exact Option.bind_eq_some_iff.mpr
              ⟨_, prune?_eq_some_iff.mpr first, inductionHypothesis.mpr later⟩

theorem PrunesAllTo.foldl {paths : List String} (prunes : PrunesAllTo paths body left) :
    paths.foldl prune body = left := by
  induction prunes with
  | nil body => rfl
  | cons first _ inductionHypothesis => rw [List.foldl_cons, first.prune, inductionHypothesis]

namespace Matcher

variable {matchers : List Matcher}

/-- What matchers leave of a body, if pruning around all their paths comes to an end. -/
def StripsTo (matchers : List Matcher) (body left : Json) : Prop :=
  PrunesAllTo ((removeEach matchers body).1.mergeSort fun left right => right ≤ left)
    (removeEach matchers body).2 left

/-- Removal gives what is left exactly if pruning around all the paths ends. -/
theorem strip?_eq_some_iff : strip? matchers body = some left ↔ StripsTo matchers body left :=
  foldlM_prune?_eq_some_iff

instance (matchers : List Matcher) (body : Json) : Decidable (∃ left, StripsTo matchers body left) :=
  decidable_of_iff ((strip? matchers body).isSome = true) (by
    simp only [Option.isSome_iff_exists, strip?_eq_some_iff])

/-- Where pruning ends, the bounded removal is the whole removal. -/
theorem strip_of_strip? (ends : strip? matchers body = some left) : strip matchers body = left :=
  (strip?_eq_some_iff.mp ends).foldl

theorem exists_of_mem_removeEach (isIn : path ∈ (removeEach matchers body).1) :
    ∃ matcher ∈ matchers, matcher.path = path := by
  induction matchers generalizing body with
  | nil => exact absurd isIn List.not_mem_nil
  | cons matcher rest inductionHypothesis =>
      have later : ∀ {smaller : Json}, path ∈ (removeEach rest smaller).1 →
          ∃ other ∈ matcher :: rest, other.path = path := by
        intro smaller isLater
        obtain ⟨other, isOther, same⟩ := inductionHypothesis isLater
        exact ⟨other, List.mem_cons_of_mem _ isOther, same⟩
      rw [removeEach] at isIn
      cases deleted : body.delete matcher.path with
      | error _ =>
          rw [deleted] at isIn
          exact later isIn
      | ok result =>
          simp only [deleted] at isIn
          split at isIn
          · exact later isIn
          · rcases List.mem_cons.mp isIn with same | isLater
            · exact ⟨matcher, List.mem_cons_self, same.symm⟩
            · exact later isLater

theorem prunesAllTo_foldl {paths : List String} (tame : ∀ path ∈ paths, IsTame path)
    (distinct : body.HasDistinctNames) : PrunesAllTo paths body (paths.foldl prune body) := by
  induction paths generalizing body with
  | nil => exact .nil body
  | cons path rest inductionHypothesis =>
      have first := (tame path List.mem_cons_self).prunesTo distinct
      have stillDistinct : (prune body path).HasDistinctNames :=
        (keepsScalars_prune distinct [path]).1
      exact .cons first (inductionHypothesis
        (fun other isIn => tame other (List.mem_cons_of_mem path isIn)) stillDistinct)

/-- Pruning around a path ends exactly if it never comes to a step that removes nothing and
comes back to its own path, and all its steps are made then.  It ends from every path on
one line without a wildcard behind a dot in front of its first bracket; so what such
matchers leave of a body is always found. -/
theorem pruning_ends (body : Json) (distinct : body.HasDistinctNames) :
    (∀ path, (∃ left, PrunesTo path body left) ↔
        ∀ last rest, ComesTo path body last rest → ¬IsStuck last rest) ∧
      (∀ path left, PrunesTo path body left → prune body path = left) ∧
      (∀ path, IsTame path → PrunesTo path body (prune body path)) ∧
      ∀ matchers : List Matcher, (∀ matcher ∈ matchers, IsTame matcher.path) →
        StripsTo matchers body (strip matchers body) := by
  refine ⟨fun path => ⟨?_, exists_prunesTo⟩, fun path left prunes => prunes.prune,
    fun path tame => tame.prunesTo distinct, ?_⟩
  · rintro ⟨left, prunes⟩ last rest comes
    exact prunes.not_isStuck comes
  · intro matchers tame
    have stillDistinct : (removeEach matchers body).2.HasDistinctNames :=
      removeEach_induction (fun distinct deleted => Json.HasDistinctNames.delete distinct deleted)
        distinct matchers
    apply prunesAllTo_foldl ?_ stillDistinct
    intro path isIn
    rw [List.mem_mergeSort] at isIn
    obtain ⟨matcher, isMatcher, rfl⟩ := exists_of_mem_removeEach isIn
    exact tame matcher isMatcher

/-- A number in an object in an object. -/
def wrappedNumber : Json := .object [("a", .object [("b", .int 1)])]

theorem wrappedNumber_distinct : wrappedNumber.HasDistinctNames := by
  refine .object (by simp) ?_
  intro member isIn
  rw [List.mem_singleton.mp isIn]
  refine .object (by simp) ?_
  intro inner isInner
  rw [List.mem_singleton.mp isInner]
  exact .leaf rfl

theorem wrappedNumber_pruning_ends : wrappedNumber.HasDistinctNames ∧ IsTame "$.a.b" ∧
    StripsTo [byNull "$.a.b"] wrappedNumber (strip [byNull "$.a.b"] wrappedNumber) := by
  have tame : IsTame "$.a.b" := by decide
  refine ⟨wrappedNumber_distinct, tame, (pruning_ends _ wrappedNumber_distinct).2.2.2 _ ?_⟩
  intro matcher isMatcher
  rw [List.mem_singleton.mp isMatcher]
  exact tame

/-! ### A wildcard behind a dot -/

theorem parse_dottedWildcard : Path.parse "$.*" = .ok ⟨"$.*", [.wildcard]⟩ := rfl

/-- Once everything is gone, what a wildcard selects is hollow for ever. -/
theorem dottedWildcard_isStuck : IsStuck "$.*" (.object []) := by
  have nowhere : Location.descending [] = [] := by
    rw [Location.descending, List.mergeSort_nil]
    rfl
  refine isStuck_iff.mpr ⟨by decide, by decide, ⟨.array [], ?_, rfl⟩, by decide, 0, ?_⟩
  · rw [Json.readElement, parse_dottedWildcard]
    rfl
  · rw [Json.delete, parse_dottedWildcard]
    exact congrArg (fun locations => Except.ok (Json.removeAll locations (.object []))) nowhere

/-- A matcher for everything behind the root removes it, and pruning around its path does not
end then. -/
theorem dottedWildcard_never_ends : ¬∃ left,
    StripsTo [byNull "$.*"] (.object [("a", .int 1)]) left := by
  rintro ⟨left, strips⟩
  have alone : Location.descending [[.key "a"]] = [[.key "a"]] := by
    rw [Location.descending, List.mergeSort_singleton]
    rfl
  have deleted : (Json.object [("a", .int 1)]).delete "$.*" = .ok (1, .object []) := by
    rw [Json.delete, parse_dottedWildcard]
    exact congrArg (fun locations =>
      Except.ok (Json.removeAll locations (.object [("a", .int 1)]))) alone
  have emptied : removeEach [byNull "$.*"] (.object [("a", .int 1)]) =
      (["$.*"], .object []) := by
    have path : (byNull "$.*").path = "$.*" := rfl
    rw [removeEach, path, deleted]
    rfl
  rw [StripsTo, emptied, List.mergeSort_singleton] at strips
  cases strips with
  | cons first later => exact first.not_isStuck (.here _ _) dottedWildcard_isStuck

end Matcher

end BodyContract
