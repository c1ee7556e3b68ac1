import Mathlib.Data.List.Forall2
import Mathlib.Data.List.Nodup
import BodyContract.Proofs.Chain.Scalars
import BodyContract.Proofs.Recording.Methods
import BodyContract.Verification

/-!
# Bodies without arrays

The chains of nested objects are the checks of their leaves: each goes to a
leaf by its names and compares what is there.  No two leaves have the same
names, so no two chains have the same text and none is left out.  An actual
body without arrays then satisfies the chains exactly if it has an equal value
behind the names of every leaf.
-/

namespace BodyContract

namespace Json

/-- Values without arrays. -/
inductive ArrayFree : Json → Prop where
  | leaf {value : Json} (scalar : value.isContainer = false) : ArrayFree value
  | object {members : List (String × Json)} (arrayFree : ∀ member ∈ members, ArrayFree member.2) :
      ArrayFree (.object members)

/-- Values without arrays and without empty objects. -/
inductive Branched : Json → Prop where
  | leaf {value : Json} (scalar : value.isContainer = false) : Branched value
  | object {members : List (String × Json)} (filled : members ≠ [])
      (branched : ∀ member ∈ members, Branched member.2) : Branched (.object members)

mutual

/-- The values that are no objects, each with the names that lead to it. -/
def leaves : Json → List (List String × Json)
  | .object members => leavesOfMembers members
  | value => [([], value)]

/-- The leaves of members, each behind the name of its member. -/
def leavesOfMembers : List (String × Json) → List (List String × Json)
  | [] => []
  | (name, value) :: rest =>
      (leaves value).map (fun leaf => (name :: leaf.1, leaf.2)) ++ leavesOfMembers rest

end

/-- The value behind a sequence of names. -/
def at? : List String → Json → Option Json
  | [], value => some value
  | name :: rest, value => (value.member? name).bind (at? rest)

theorem leaves_of_not_container {value : Json} (scalar : value.isContainer = false) :
    value.leaves = [([], value)] := by
  cases value <;> first | rfl | cases scalar

theorem mem_leavesOfMembers {members : List (String × Json)} {leaf : List String × Json} :
    leaf ∈ leavesOfMembers members ↔
      ∃ member ∈ members, ∃ inner ∈ member.2.leaves, leaf = (member.1 :: inner.1, inner.2) := by
  induction members with
  | nil => simp [leavesOfMembers]
  | cons first rest inductionHypothesis =>
      obtain ⟨name, value⟩ := first
      rw [leavesOfMembers, List.mem_append, inductionHypothesis, List.mem_map]
      simp only [List.mem_cons, exists_eq_or_imp]
      constructor
      · rintro (⟨inner, isInner, same⟩ | later)
        · exact Or.inl ⟨inner, isInner, same.symm⟩
        · exact Or.inr later
      · rintro (⟨inner, isInner, same⟩ | later)
        · exact Or.inl ⟨inner, isInner, same.symm⟩
        · exact Or.inr later

theorem nodup_leavesOfMembers {members : List (String × Json)}
    (distinct : (members.map (·.1)).Nodup)
    (each : ∀ member ∈ members, (member.2.leaves.map (·.1)).Nodup) :
    ((leavesOfMembers members).map (·.1)).Nodup := by
  induction members with
  | nil => exact List.nodup_nil
  | cons first rest inductionHypothesis =>
      obtain ⟨name, value⟩ := first
      rw [List.map_cons, List.nodup_cons] at distinct
      rw [leavesOfMembers, List.map_append, List.map_map, List.nodup_append]
      refine ⟨?_, ?_, ?_⟩
      · have prefixed : ((fun leaf : List String × Json => leaf.1) ∘
            fun leaf : List String × Json => (name :: leaf.1, leaf.2)) =
              List.cons name ∘ fun leaf : List String × Json => leaf.1 := rfl
        rw [prefixed, ← List.map_map]
        exact (each (name, value) List.mem_cons_self).map List.cons_injective
      · exact inductionHypothesis distinct.2 fun member isIn =>
          each member (List.mem_cons_of_mem _ isIn)
      · intro left isLeft right isRight
        obtain ⟨leftLeaf, -, rfl⟩ := List.mem_map.mp isLeft
        obtain ⟨rightLeaf, isRightLeaf, rfl⟩ := List.mem_map.mp isRight
        obtain ⟨member, isMember, inner, -, rfl⟩ := mem_leavesOfMembers.mp isRightLeaf
        intro same
        injection same with sameName
        exact distinct.1 (List.mem_map.mpr ⟨member, isMember, sameName.symm⟩)

section

variable {names : String → Prop} {numbers : Number → Prop} {value : Json}

/-- What holds for the names of a plain value holds for those of its leaves,
and its leaves are plain. -/
theorem Plain.of_mem_leaves (plain : value.Plain names numbers) (branched : value.Branched)
    {leaf : List String × Json} (member : leaf ∈ value.leaves) :
    (∀ name ∈ leaf.1, names name) ∧ leaf.2.Plain names numbers ∧ leaf.2.isContainer = false := by
  induction branched generalizing leaf with
  | leaf scalar =>
      rw [leaves_of_not_container scalar, List.mem_singleton] at member
      rw [member]
      exact ⟨fun _ impossible => absurd impossible List.not_mem_nil, plain, scalar⟩
  | object filled branched inductionHypothesis =>
      cases plain with
      | object _ _ allowed plain =>
          rw [leaves, mem_leavesOfMembers] at member
          obtain ⟨entry, isEntry, inner, isInner, rfl⟩ := member
          obtain ⟨innerNames, innerPlain, scalar⟩ :=
            inductionHypothesis entry isEntry (plain entry isEntry) isInner
          refine ⟨?_, innerPlain, scalar⟩
          intro name isName
          rcases List.mem_cons.mp isName with rfl | later
          · exact allowed entry isEntry
          · exact innerNames name later

/-- No two leaves of a plain value have the same names. -/
theorem Plain.nodup_leaves (plain : value.Plain names numbers) (branched : value.Branched) :
    (value.leaves.map (·.1)).Nodup := by
  induction branched with
  | leaf scalar =>
      rw [leaves_of_not_container scalar]
      exact List.nodup_singleton _
  | object filled branched inductionHypothesis =>
      cases plain with
      | object _ distinct _ plain =>
          exact nodup_leavesOfMembers distinct fun member isIn =>
            inductionHypothesis member isIn (plain member isIn)

end

end Json

/-! ## The chains of leaves -/

namespace Recorder

/-- Goes from member to member. -/
def traverse (key : Recorder) (names : List String) : Recorder := names.foldl traverseField key

theorem Stands.traverse {key : Recorder} {pieces : List (List Hop)} (stands : key.Stands pieces)
    {names : List String} (plain : ∀ name ∈ names, HasNoBackslash name) :
    (key.traverse names).Stands (pieces ++ names.map fun name => [.member name]) := by
  induction names generalizing key pieces with
  | nil =>
      rw [List.map_nil, List.append_nil]
      exact stands
  | cons name rest inductionHypothesis =>
      have readable := keepsBackslashes_of_hasNoBackslash (plain name List.mem_cons_self)
      have later := inductionHypothesis (stands.traverseField readable) fun other member =>
        plain other (List.mem_cons_of_mem _ member)
      rw [List.append_assoc, List.singleton_append] at later
      exact later

theorem methods_traverse {key : Recorder} (bracketed : key.style = .bracketed)
    (names : List String) :
    (key.traverse names).methods = key.methods ++ names.map fieldText := by
  induction names generalizing key with
  | nil => exact (List.append_nil _).symm
  | cons name rest inductionHypothesis =>
      have written : (key.traverseField name).methods = key.methods ++ [fieldText name] := by
        rw [fieldText, ← bracketed]
        rfl
      have same : (key.traverseField name).style = .bracketed := bracketed
      have later := inductionHypothesis same
      rw [written, List.append_assoc] at later
      exact later

theorem focus_traverse_concat (key : Recorder) (front : List String) (last : String) :
    (key.traverse (front ++ [last])).delegate.focus = .field := by
  rw [traverse, List.foldl_append]
  rfl

/-- Whether a chain checks a leaf behind its names. -/
def Records (key : Recorder) (leaf : List String × Json) (chain : Recorder) : Prop :=
  (key.traverse leaf.1).isEqualTo leaf.2 = .ok chain

end Recorder

namespace Chains

open Recorder

section

variable {names : String → Prop} {numbers : Number → Prop} {inText : TextWalk} {isOrdered : Bool}

/-- Away from the elements of an array, a value that is no container is only
checked. -/
theorem walk_scalar {key : Recorder} {value : Json} (plain : value.Plain names numbers)
    (scalar : value.isContainer = false) (notIterating : key.delegate.isIterating = false) :
    walk inText isOrdered key value = (key.checking value).bind fun checked => .ok [checked] := by
  have leaf : key.leaf value = (key.checking value).bind fun checked => .ok [checked] := by
    rw [Recorder.leaf]
    cases value <;> simp [notIterating, bind]
  cases value with
  | null => simpa only [walk] using leaf
  | bool flag => simpa only [walk] using leaf
  | number number => simpa only [walk] using leaf
  | string text =>
      rw [walk]
      split
      · exact leaf
      · cases plain with
        | string noObject =>
            rw [noObject]
            rfl
  | array elements => cases scalar
  | object members => cases scalar

theorem walkMembers_records {key : Recorder} {members : List (String × Json)}
    (each : ∀ member ∈ members, key.entry member.1 member.2 = .ok (key.traverseField member.1) ∧
      ∃ chains, walk inText isOrdered (key.traverseField member.1) member.2 = .ok chains ∧
        List.Forall₂ (key.traverseField member.1).Records member.2.leaves chains) :
    ∃ chains, walkMembers inText isOrdered key members = .ok chains ∧
      List.Forall₂ key.Records (Json.leavesOfMembers members) chains := by
  induction members with
  | nil => exact ⟨[], by rw [walkMembers], .nil⟩
  | cons first rest inductionHypothesis =>
      obtain ⟨name, value⟩ := first
      obtain ⟨entered, front, walked, records⟩ := each (name, value) List.mem_cons_self
      obtain ⟨back, others, later⟩ := inductionHypothesis fun member isIn =>
        each member (List.mem_cons_of_mem _ isIn)
      refine ⟨front ++ back, ?_, ?_⟩
      · rw [walkMembers, entered]
        simp only [bind, Except.bind, walked, others]
      · have behind : List.Forall₂ key.Records
            (value.leaves.map fun leaf => (name :: leaf.1, leaf.2)) front :=
          List.forall₂_map_left_iff.mpr records
        rw [Json.leavesOfMembers]
        exact List.rel_append behind later

/-- The chains of a value without arrays are the checks of its leaves. -/
theorem walk_records {value : Json} (branched : value.Branched) {key : Recorder}
    {pieces : List (List Hop)} (stands : key.Stands pieces)
    (notIterating : key.delegate.isIterating = false) (plain : value.Plain HasNoBackslash numbers) :
    ∃ chains, walk inText isOrdered key value = .ok chains ∧
      List.Forall₂ key.Records value.leaves chains := by
  induction branched generalizing key pieces with
  | @leaf value scalar =>
      obtain ⟨chain, made, -⟩ := isEqualTo_ends stands.lenient scalar
      have checked : key.checking value = .ok chain := by
        rw [Recorder.checking, stands.isFinished, plain.markedPattern?_eq_none]
        exact made
      refine ⟨[chain], ?_, ?_⟩
      · rw [walk_scalar plain scalar notIterating, checked]
        rfl
      · rw [Json.leaves_of_not_container scalar]
        exact .cons made .nil
  | @object members filled branched inductionHypothesis =>
      cases plain with
      | object noMarker _ allowed plain =>
          have notEmpty : members.isEmpty = false := by
            rw [List.isEmpty_eq_false_iff]
            exact filled
          rw [walk.eq_def]
          simp only [noMarker, notEmpty, if_neg Bool.false_ne_true]
          refine walkMembers_records fun member isIn => ?_
          have readable := keepsBackslashes_of_hasNoBackslash (allowed member isIn)
          refine ⟨?_, inductionHypothesis member isIn (stands.traverseField readable) rfl
            (plain member isIn)⟩
          have notArray : ∀ elements, member.2 ≠ .array elements := by
            intro elements same
            have inner := branched member isIn
            rw [same] at inner
            cases inner with
            | leaf scalar => cases scalar
          rw [entry]
          · exact notArray []
          · exact notArray

theorem toList_foldl_add {recorded : List Recorder} {chains : Chains}
    (distinct : ((chains.toList ++ recorded).map method).Nodup) :
    (recorded.foldl add chains).toList = chains.toList ++ recorded := by
  induction recorded generalizing chains with
  | nil => exact (List.append_nil _).symm
  | cons chain rest inductionHypothesis =>
      have new : chain.method ∉ chains.toList.map method := by
        intro old
        rw [List.map_append, List.nodup_append] at distinct
        exact distinct.2.2 chain.method old chain.method
          (List.mem_map.mpr ⟨chain, List.mem_cons_self, rfl⟩) rfl
      have added : (chains.add chain).toList = chains.toList ++ [chain] := by
        rw [add, dif_neg new]
      rw [List.foldl_cons, inductionHypothesis, added, List.append_assoc, List.singleton_append]
      rw [added, List.append_assoc, List.singleton_append]
      exact distinct

/-- Chains with distinct texts are all kept. -/
theorem toList_ofList {recorded : List Recorder} (distinct : (recorded.map method).Nodup) :
    (ofList recorded).toList = recorded :=
  toList_foldl_add distinct

/-- The text of a recorded leaf begins with its names. -/
theorem toList_method_of_records {key chain : Recorder} (bracketed : key.style = .bracketed)
    (elsewhere : key.delegate.focus ≠ .arrayValue) (unwritten : key.methods = [])
    {leaf : List String × Json} (scalar : leaf.2.isContainer = false)
    (records : key.Records leaf chain) :
    ∃ more, chain.method.toList =
      (leaf.1.map fieldText).flatMap String.toList ++ '.' :: 'i' :: more := by
  have notElements : (key.traverse leaf.1).delegate.focus ≠ .arrayValue := by
    rcases List.eq_nil_or_concat' leaf.1 with empty | ⟨front, last, split⟩
    · rw [empty]
      exact elsewhere
    · rw [split, focus_traverse_concat]
      exact Focus.noConfusion
  obtain ⟨check, more, written, begins⟩ := methods_isEqualTo notElements scalar records
  refine ⟨more, ?_⟩
  rw [methods_traverse bracketed, unwritten, List.nil_append] at written
  rw [method, written, String.toList_join, List.flatMap_append, List.flatMap_singleton, begins]

theorem exists_of_mem_right {α β : Type} {related : α → β → Prop} {left : List α} {right : List β}
    (all : List.Forall₂ related left right) {b : β} (member : b ∈ right) :
    ∃ a ∈ left, related a b := by
  induction all with
  | nil => exact absurd member List.not_mem_nil
  | cons first _ inductionHypothesis =>
      rcases List.mem_cons.mp member with rfl | later
      · exact ⟨_, List.mem_cons_self, first⟩
      · obtain ⟨a, isThere, other⟩ := inductionHypothesis later
        exact ⟨a, List.mem_cons_of_mem _ isThere, other⟩

theorem forall_mem_iff_of_forall₂ {α β : Type} {related : α → β → Prop} {first : α → Prop}
    {second : β → Prop} {left : List α} {right : List β} (all : List.Forall₂ related left right)
    (each : ∀ a ∈ left, ∀ b, related a b → (second b ↔ first a)) :
    (∀ b ∈ right, second b) ↔ ∀ a ∈ left, first a := by
  induction all with
  | nil => simp
  | cons pair _ inductionHypothesis =>
      rw [List.forall_mem_cons, List.forall_mem_cons, each _ List.mem_cons_self _ pair,
        inductionHypothesis fun a member => each a (List.mem_cons_of_mem _ member)]

/-- Chains of leaves with distinct names have distinct texts. -/
theorem nodup_methods {key : Recorder} (bracketed : key.style = .bracketed)
    (elsewhere : key.delegate.focus ≠ .arrayValue) (unwritten : key.methods = [])
    {leaves : List (List String × Json)} {chains : List Recorder}
    (records : List.Forall₂ key.Records leaves chains) (distinct : (leaves.map (·.1)).Nodup)
    (scalar : ∀ leaf ∈ leaves, leaf.2.isContainer = false) :
    (chains.map method).Nodup := by
  induction records with
  | nil => exact List.nodup_nil
  | @cons leaf chain others rest first later inductionHypothesis =>
      rw [List.map_cons, List.nodup_cons] at distinct ⊢
      refine ⟨?_, inductionHypothesis distinct.2
        fun other member => scalar other (List.mem_cons_of_mem _ member)⟩
      intro repeated
      obtain ⟨twin, isThere, same⟩ := List.mem_map.mp repeated
      obtain ⟨twinLeaf, isLeaf, twinRecords⟩ := exists_of_mem_right later isThere
      obtain ⟨before, text⟩ := toList_method_of_records bracketed elsewhere unwritten
        (scalar leaf List.mem_cons_self) first
      obtain ⟨behind, twinText⟩ := toList_method_of_records bracketed elsewhere unwritten
        (scalar twinLeaf (List.mem_cons_of_mem _ isLeaf)) twinRecords
      rw [same, text] at twinText
      have names := names_inj twinText
      exact distinct.1 (List.mem_map.mpr ⟨twinLeaf, isLeaf, names.symm⟩)

end

/-! ## An actual body -/

theorem flatten_members (names : List String) :
    (names.map fun name => [Hop.member name]).flatten = names.map Hop.member := by
  induction names with
  | nil => rfl
  | cons name rest inductionHypothesis =>
      rw [List.map_cons, List.flatten_cons, inductionHypothesis, List.map_cons]
      rfl

theorem follow_members (names : List String) (value : Json) :
    follow (names.map Hop.member) value = (value.at? names).toList := by
  induction names generalizing value with
  | nil => rfl
  | cons name rest inductionHypothesis =>
      rw [List.map_cons, follow, Hop.next, Json.at?]
      cases value.member? name with
      | none => rfl
      | some next =>
          rw [Option.toList_some, List.flatMap_singleton, inductionHypothesis]
          rfl

theorem at?_append (front back : List String) (value : Json) :
    value.at? (front ++ back) = (value.at? front).bind (Json.at? back) := by
  induction front generalizing value with
  | nil => rfl
  | cons name rest inductionHypothesis =>
      rw [List.cons_append, Json.at?, Json.at?]
      cases value.member? name with
      | none => rfl
      | some next => exact inductionHypothesis next

theorem arrayFree_at? {names : List String} {value found : Json} (arrayFree : value.ArrayFree)
    (isThere : value.at? names = some found) : found.ArrayFree := by
  induction names generalizing value with
  | nil =>
      cases isThere
      exact arrayFree
  | cons name rest inductionHypothesis =>
      rw [Json.at?, Option.bind_eq_some_iff] at isThere
      obtain ⟨next, isMember, later⟩ := isThere
      cases arrayFree with
      | leaf scalar =>
          cases value <;> first | cases isMember | cases scalar
      | object arrayFree =>
          obtain ⟨before, behind, split, -⟩ := List.lookup_eq_some_iff.mp isMember
          refine inductionHypothesis (arrayFree (name, next) ?_) later
          rw [split]
          exact List.mem_append_right before List.mem_cons_self

theorem items_of_arrayFree {value : Json} (arrayFree : value.ArrayFree) : value.items = [value] := by
  refine Json.items_of_not_array ?_
  rintro elements rfl
  cases arrayFree with
  | leaf scalar => cases scalar

/-- Behind names, a condition on the last one finds what all names lead to. -/
theorem finds_members_iff {actual : Json} (arrayFree : actual.ArrayFree) (front : List String)
    (last : String) (read : Json) :
    Finds (front.map Hop.member) [.member last] read actual ↔
      ∃ found, actual.at? (front ++ [last]) = some found ∧ found.equalsInFilter read = true := by
  have atLast : ∀ value : Json, value.at? [last] = value.member? last := by
    intro value
    rw [Json.at?]
    cases value.member? last <;> rfl
  rw [Finds, at?_append, follow_members]
  cases reached : actual.at? front with
  | none => simp
  | some middle =>
      have one := items_of_arrayFree (arrayFree_at? arrayFree reached)
      simp only [Option.toList_some, List.mem_singleton, exists_eq_left, one, follow_singleton,
        Hop.next, Option.mem_toList, Option.bind_some, atLast]

theorem literalReads_self {value : Json} {names : String → Prop}
    (plain : value.Plain names Number.IsWhole) (scalar : value.isContainer = false) :
    Path.LiteralReads value value := by
  cases plain with
  | null => exact .null
  | bool flag => exact .bool flag
  | string noObject => exact .string _
  | @number number whole =>
      cases number with
      | int value => exact Path.literalReads_int whole
      | float value => exact absurd whole id
  | array _ _ => cases scalar
  | object _ _ _ _ => cases scalar

/-- The chain of a leaf holds where an equal value stands behind its names. -/
theorem holds_of_records_iff {key chain : Recorder} (stands : key.Stands [])
    {leaf : List String × Json} (filled : leaf.1 ≠ [])
    (named : ∀ name ∈ leaf.1, HasNoBackslash name)
    {names : String → Prop} (plain : leaf.2.Plain names Number.IsWhole)
    (scalar : leaf.2.isContainer = false) (records : key.Records leaf chain) {actual : Json}
    (arrayFree : actual.ArrayFree) :
    chain.Holds actual ↔
      ∃ found, actual.at? leaf.1 = some found ∧ found.equalsInFilter leaf.2 = true := by
  obtain ⟨leafNames, value⟩ := leaf
  rcases List.eq_nil_or_concat' leafNames with empty | ⟨front, last, rfl⟩
  · exact absurd empty filled
  · have stands := stands.traverse named
    obtain ⟨other, made, ends⟩ := isEqualTo_ends stands.lenient scalar
    have same := made.symm.trans records
    cases same
    have hops : conditionHops (key.traverse (front ++ [last])).delegate.focus
        ([] ++ (front ++ [last]).map fun name => [Hop.member name]) =
          (front.map Hop.member, [.member last]) := by
      rw [focus_traverse_concat, List.nil_append, List.map_append, List.map_singleton,
        conditionHops_field, flatten_members]
    rw [ends.equality_holds_iff stands hops (literalReads_self plain scalar)]
    exact finds_members_iff arrayFree front last value

theorem ne_nil_of_mem_leaves {value : Json} (container : value.isContainer = true)
    (branched : value.Branched) {leaf : List String × Json} (member : leaf ∈ value.leaves) :
    leaf.1 ≠ [] := by
  cases branched with
  | leaf scalar =>
      rw [container] at scalar
      cases scalar
  | object filled branched =>
      rw [Json.leaves, Json.mem_leavesOfMembers] at member
      obtain ⟨entry, -, inner, -, rfl⟩ := member
      exact List.cons_ne_nil _ _

theorem isBlankBody_of_branched {body : Json} (container : body.isContainer = true)
    (branched : body.Branched) : body.isBlankBody = false := by
  cases branched with
  | leaf scalar =>
      rw [container] at scalar
      cases scalar
  | object filled branched =>
      rw [Json.isBlankBody, Json.isEmptyContainer, List.isEmpty_eq_false_iff]
      · exact filled
      · intro impossible
        cases impossible
      · intro text impossible
        cases impossible

/-- An actual body satisfies the chains of nested objects if it has an equal
value behind the names of every leaf. -/
theorem verify_branched_iff {options : ChainOptions} (bracketed : options.style = .bracketed)
    {expected actual : Json} (container : expected.isContainer = true)
    (plain : expected.Plain HasNoBackslash Number.IsWhole) (branched : expected.Branched)
    (arrayFree : actual.ArrayFree) :
    ∃ chains, ofBody options expected = .ok chains ∧
      (chains.verify actual = .ok () ↔ ∀ leaf ∈ expected.leaves, ∃ found,
        actual.at? leaf.1 = some found ∧ found.equalsInFilter leaf.2 = true) := by
  have stands := stands_root expected
  have walked : ∃ recorded, Chains.recorded options expected = .ok recorded ∧
      List.Forall₂ (ofAsserter (Asserter.ofDocument expected).lenient .bracketed).Records
        expected.leaves recorded := by
    rw [Chains.recorded, bracketed]
    exact walk_records branched stands rfl plain
  obtain ⟨recorded, made, records⟩ := walked
  have ofLeaf := fun leaf (member : leaf ∈ expected.leaves) => plain.of_mem_leaves branched member
  have distinct : (recorded.map method).Nodup :=
    nodup_methods rfl Focus.noConfusion rfl records (plain.nodup_leaves branched)
      fun leaf member => (ofLeaf leaf member).2.2
  refine ⟨ofList recorded, ?_, ?_⟩
  · have notBlank := isBlankBody_of_branched container branched
    rw [ofBody.eq_def]
    split
    · cases container
    · simp only [documentOf_of_isContainer container, notBlank, Bool.not_false, if_true, made]
      rfl
  · rw [verify, toList_ofList distinct, verifyAll_ok_iff]
    refine forall_mem_iff_of_forall₂ records fun leaf member chain isRecorded => ?_
    obtain ⟨named, leafPlain, scalar⟩ := ofLeaf leaf member
    exact holds_of_records_iff stands (ne_nil_of_mem_leaves container branched member) named
      leafPlain scalar isRecorded arrayFree

end Chains

namespace Verifier

/-- Verifying without matchers compares the leaves of the expected body. -/
theorem verify_ok_iff_leaves {expected actual : Json} (container : expected.isContainer = true)
    (plain : expected.Plain HasNoBackslash Number.IsWhole) (branched : expected.Branched)
    (arrayFree : actual.ArrayFree) (assertsSize checksEmptyBody : Bool)
    (framework : TestFramework) :
    Verifier.verify ⟨assertsSize, true, checksEmptyBody, framework⟩ expected actual [] = .ok () ↔
      ∀ leaf ∈ expected.leaves, ∃ found, actual.at? leaf.1 = some found ∧
        found.equalsInFilter leaf.2 = true := by
  have strip : Matcher.strip [] expected = expected := by
    rw [Matcher.strip, Matcher.removeEach]
    simp
  obtain ⟨chains, made, verified⟩ := Chains.verify_branched_iff
    (rfl : (chainOptions ⟨assertsSize, true, checksEmptyBody, framework⟩).style = .bracketed)
    container plain branched arrayFree
  rw [Verifier.verify, strip, Verifier.chains, made, ← verified]
  cases verdict : chains.verify actual with
  | error failure => simp [bind, Except.bind, verdict]
  | ok _ => simp [bind, Except.bind, verdict, checkMatchers]

/-- An object in an object, with a quote in a name. -/
def nestedNames : Json := .object [("a", .object [("it's", .int 1), ("b.c", .null)])]

/-- The same leaves in another order, and more. -/
def widerNames : Json :=
  .object [("x", .bool true), ("a", .object [("b.c", .null), ("it's", .int 1)])]

theorem nestedNames_plain : nestedNames.Plain HasNoBackslash Number.IsWhole := by
  have inner : (Json.object [("it's", .int 1), ("b.c", .null)]).Plain HasNoBackslash
      Number.IsWhole := by
    refine .object (by decide) (by decide) (fun member isIn => ?_) fun member isIn => ?_
    · simp only [List.mem_cons, List.not_mem_nil, or_false] at isIn
      rcases isIn with rfl | rfl
      · exact (by decide : '\\' ∉ "it's".toList)
      · exact (by decide : '\\' ∉ "b.c".toList)
    · simp only [List.mem_cons, List.not_mem_nil, or_false] at isIn
      rcases isIn with rfl | rfl
      · exact .number (by decide : Number.fits 1 = true)
      · exact .null
  refine .object (by decide) (by decide) (fun member isIn => ?_) fun member isIn => ?_
  · rw [List.mem_singleton.mp isIn]
    exact (by decide : '\\' ∉ "a".toList)
  · rw [List.mem_singleton.mp isIn]
    exact inner

theorem nestedNames_branched : nestedNames.Branched := by
  refine .object (List.cons_ne_nil _ _) fun member isIn => ?_
  rw [List.mem_singleton.mp isIn]
  refine .object (List.cons_ne_nil _ _) fun member isIn => ?_
  simp only [List.mem_cons, List.not_mem_nil, or_false] at isIn
  rcases isIn with rfl | rfl
  · exact .leaf rfl
  · exact .leaf rfl

theorem widerNames_arrayFree : widerNames.ArrayFree := by
  refine .object fun member isIn => ?_
  simp only [List.mem_cons, List.not_mem_nil, or_false] at isIn
  rcases isIn with rfl | rfl
  · exact .leaf rfl
  · refine .object fun member isIn => ?_
    simp only [List.mem_cons, List.not_mem_nil, or_false] at isIn
    rcases isIn with rfl | rfl
    · exact .leaf rfl
    · exact .leaf rfl

theorem nestedNames_verify_widerNames : nestedNames.isContainer = true ∧
    nestedNames.Plain HasNoBackslash Number.IsWhole ∧ nestedNames.Branched ∧
      widerNames.ArrayFree ∧
        Verifier.verify ⟨true, true, false, .java⟩ nestedNames widerNames [] = .ok () := by
  refine ⟨rfl, nestedNames_plain, nestedNames_branched, widerNames_arrayFree, ?_⟩
  refine (verify_ok_iff_leaves rfl nestedNames_plain nestedNames_branched widerNames_arrayFree
    true false .java).mpr fun leaf member => ?_
  have leaves : leaf ∈ [(["a", "it's"], Json.int 1), (["a", "b.c"], Json.null)] := member
  simp only [List.mem_cons, List.not_mem_nil, or_false] at leaves
  rcases leaves with rfl | rfl
  · exact ⟨.int 1, rfl, by decide⟩
  · exact ⟨.null, rfl, rfl⟩

end Verifier

end BodyContract
