import BodyContract.Proofs.Chain.Scalars

/-!
# Ordered chains hold for their own body

In order, the hops of a chain lead to exactly one value of the body it has been
recorded from: every step to a member adds its name and every step to an
element its position, in the place of the wildcard that runs over the array.
-/

namespace BodyContract

namespace Recorder

theorem withoutWildcard_concat_every (front : List (List Hop)) :
    withoutWildcard (front ++ [[.every]]) = front := by
  simp [withoutWildcard]

theorem withoutWildcard_concat_member_every (front : List (List Hop)) (name : String) :
    withoutWildcard (front ++ [[.member name, .every]]) = front ++ [[.member name]] := by
  simp [withoutWildcard]

theorem withoutWildcard_concat_single {hop : Hop} (single : hop ≠ .every)
    (front : List (List Hop)) : withoutWildcard (front ++ [[hop]]) = front ++ [[hop]] := by
  simp [withoutWildcard, single]

theorem flatten_withoutWildcard (pieces : List (List Hop)) :
    pieces.flatten = (withoutWildcard pieces).flatten ∨
      pieces.flatten = (withoutWildcard pieces).flatten ++ [.every] := by
  rcases List.eq_nil_or_concat' pieces with rfl | ⟨others, last, rfl⟩
  · exact Or.inl rfl
  · rw [withoutWildcard, List.getLast?_concat]
    by_cases ends : last.getLast? = some .every
    · obtain ⟨init, rfl⟩ := List.getLast?_eq_some_iff.mp ends
      simp only [ends, if_true, List.dropLast_concat]
      refine Or.inr ?_
      by_cases alone : init = []
      · simp [alone]
      · simp [alone]
    · simp [ends]

end Recorder

namespace Chains

open Recorder

/-- Whether hops lead to a value alone; to an array, without a wildcard at the
end. -/
def LeadsTo (pieces : List (List Hop)) (body value : Json) : Prop :=
  follow (if value.isArray then withoutWildcard pieces else pieces).flatten body = [value]

section

variable {key : Recorder} {pieces : List (List Hop)} {body : Json}

theorem leadsTo_array_iff {elements : List Json} : LeadsTo pieces body (.array elements) ↔
    follow (withoutWildcard pieces).flatten body = [.array elements] := Iff.rfl

theorem leadsTo_iff {value : Json} (notArray : value.isArray = false) :
    LeadsTo pieces body value ↔ follow pieces.flatten body = [value] := by
  rw [LeadsTo, notArray, if_neg Bool.false_ne_true]

theorem findsLiteral_of_mem (stands : key.Stands pieces) {value : Json}
    (isThere : value ∈ follow pieces.flatten body) (scalar : value.isContainer = false) :
    FindsLiteral (conditionHops key.delegate.focus pieces) value body := by
  intro read _ equal
  obtain ⟨whole, named, -⟩ := stands.condition rfl
  rw [← whole] at isThere
  refine finds_of_mem named isThere ?_ equal
  rintro elements rfl
  cases scalar

/-- An element that a chain goes to by its position. -/
theorem leadsTo_element {elements : List Json}
    (here : follow (withoutWildcard pieces).flatten body = [.array elements]) {index : Nat}
    {value : Json} (isThere : elements[index]? = some value) :
    follow (withoutWildcard pieces ++ [[Hop.position index]]).flatten body = [value] := by
  rw [List.flatten_append, List.flatten_singleton]
  exact follow_position here isThere

theorem countOf_elements {elements : List Json} (simple : elements.all Json.isSimple = true) :
    Asserter.countOf elements = elements.length := by
  rw [Asserter.countOf.eq_def]
  split
  · rename_i inner
    exact absurd simple (by simp [Json.isSimple, Json.isMarker, Placeholder.markedPattern?])
  · rfl

/-- The check of a size, where it is made, holds. -/
theorem yields_sizeCheck (stands : key.Stands pieces) {elements : List Json}
    (here : follow (withoutWildcard pieces).flatten body = [.array elements])
    (simple : elements.all Json.isSimple = true) :
    Yields (fun chain => chain.Holds body) (key.sizeCheck true elements.length) := by
  obtain ⟨sized, made, ends⟩ := hasSize_ends stands.lenient elements.length
  have counted : Asserter.countOf (follow pieces.flatten body) = elements.length := by
    rcases flatten_withoutWildcard pieces with same | longer
    · rw [same, here]
      rfl
    · rw [longer, follow_every here]
      exact countOf_elements simple
  rw [sizeCheck, made]
  split
  · exact yields_singleton ((ends.hasSize_holds_iff stands body).mpr counted)
  · exact yields_nil

/-- Going to a member, with the hops that lead to it. -/
theorem yields_member (stands : key.Stands pieces) {inText : TextWalk} {name : String}
    {value : Json} (readable : KeepsBackslashes name)
    (here : follow (pieces ++ [[Hop.member name]]).flatten body = [value])
    (inductionHypothesis : ∀ {entry : Recorder} {others : List (List Hop)}, entry.Stands others →
      LeadsTo others body value →
        Yields (fun chain => chain.Holds body) (walk inText true entry value)) :
    ∃ entry, key.entry name value = .ok entry ∧
      Yields (fun chain => chain.Holds body) (walk inText true entry value) := by
  have stepped : ∀ {piece : List Hop}, withoutWildcard (pieces ++ [piece]) =
      pieces ++ [[Hop.member name]] →
        follow (withoutWildcard (pieces ++ [piece])).flatten body = [value] := by
    intro piece same
    rw [same]
    exact here
  refine yields_entry ?_ ?_ ?_ ?_
  · rintro rfl
    obtain ⟨chain, made, ends⟩ := isEmpty_ends (stands.array readable).lenient
    refine ⟨chain, made, (ends.isEmpty_holds_iff (stands.array readable) body).mpr ?_⟩
    have none := follow_every here
    rw [List.flatten_append, List.flatten_singleton, List.append_assoc] at none
    rw [List.flatten_append, List.flatten_singleton]
    intro value member
    rw [← List.singleton_append, none] at member
    exact absurd member List.not_mem_nil
  · rintro elements rfl -
    exact inductionHypothesis (stands.arrayFieldNamed readable)
      (leadsTo_array_iff.mpr (stepped (withoutWildcard_concat_single Hop.noConfusion pieces)))
  · rintro elements rfl - -
    exact inductionHypothesis (stands.array readable)
      (leadsTo_array_iff.mpr (stepped (withoutWildcard_concat_member_every pieces name)))
  · intro notArray
    exact inductionHypothesis (stands.traverseField readable) ((leadsTo_iff notArray).mpr here)

/-- The chains of a value that is no container hold where it is. -/
theorem yields_walk_scalar_here (stands : key.Stands pieces) {inText : TextWalk}
    {isOrdered : Bool} {value : Json}
    (plain : value.Plain KeepsBackslashes Number.ReadsBack) (scalar : value.isContainer = false)
    (isThere : value ∈ follow pieces.flatten body) :
    Yields (fun chain => chain.Holds body) (walk inText isOrdered key value) :=
  yields_walk_scalar stands plain scalar (findsLiteral_of_mem stands isThere scalar)

/-- Going to an element by its position, and on to its own elements if they are
simple. -/
theorem yields_positioned (stands : key.Stands pieces) {inText : TextWalk} {index : Nat}
    {value : Json} (small : index < twoTo 63)
    (here : follow (withoutWildcard pieces ++ [[Hop.position index]]).flatten body = [value])
    (inductionHypothesis : ∀ {next : Recorder} {others : List (List Hop)}, next.Stands others →
      LeadsTo others body value →
        Yields (fun chain => chain.Holds body) (walk inText true next value)) :
    Yields (fun chain => chain.Holds body)
      (walk inText true ((key.elementWithIndex index).element value) value) := by
  have moved := stands.elementWithIndex small
  have single : withoutWildcard (withoutWildcard pieces ++ [[Hop.position index]]) =
      withoutWildcard pieces ++ [[Hop.position index]] :=
    withoutWildcard_concat_single Hop.noConfusion _
  cases kind : value.isArray with
  | false =>
      have notSimple : value.isSimpleArray = false := by
        cases value <;> first | rfl | cases kind
      rw [element, notSimple, if_neg Bool.false_ne_true]
      exact inductionHypothesis moved ((leadsTo_iff kind).mpr here)
  | true =>
      cases value with
      | array elements =>
          rw [element]
          split
          · refine inductionHypothesis moved.anonymousArray (leadsTo_array_iff.mpr ?_)
            rw [withoutWildcard_concat_every]
            exact here
          · refine inductionHypothesis moved (leadsTo_array_iff.mpr ?_)
            rw [single]
            exact here
      | null => cases kind
      | bool flag => cases kind
      | number number => cases kind
      | string text => cases kind
      | object members => cases kind

/-- Every chain that is recorded in order at a place of the body holds. -/
theorem yields_walk_ordered {inText : TextWalk} {value : Json}
    (plain : value.Plain KeepsBackslashes Number.ReadsBack) (stands : key.Stands pieces)
    (leads : LeadsTo pieces body value) :
    Yields (fun chain => chain.Holds body) (walk inText true key value) := by
  have mem_of_eq : ∀ {values : List Json} {value : Json}, values = [value] → value ∈ values := by
    rintro values value rfl
    exact List.mem_singleton_self value
  induction plain generalizing key pieces with
  | null => exact yields_walk_scalar_here stands .null rfl (mem_of_eq leads)
  | bool flag => exact yields_walk_scalar_here stands (.bool flag) rfl (mem_of_eq leads)
  | number allowed => exact yields_walk_scalar_here stands (.number allowed) rfl (mem_of_eq leads)
  | string noObject => exact yields_walk_scalar_here stands (.string noObject) rfl (mem_of_eq leads)
  | @array elements short plain inductionHypothesis =>
      have here := leadsTo_array_iff.mp leads
      have inRange : ∀ {index : Nat} {value : Json}, elements[index]? = some value →
          index < twoTo 63 := by
        intro index value isThere
        exact Nat.lt_trans (List.getElem?_eq_some_iff.mp isThere).1 short
      rw [walk]
      split
      · exact yields_singleton (stands.holds body)
      · split
        · rename_i filled simple
          rw [Json.areSimple, Bool.and_eq_true] at simple
          refine (yields_sizeCheck stands here simple.2).append (yields_walkSimple ?_)
          intro index value isThere
          have member := List.mem_of_getElem? isThere
          have scalar := (plain value member).isContainer_of_isSimple
            (List.all_eq_true.mp simple.2 value member)
          rw [Nat.zero_add, simpleElement, if_pos rfl]
          have moved := stands.elementWithIndex (inRange isThere)
          exact yields_walk_checked moved (plain value member) scalar
            (findsLiteral_of_mem moved (mem_of_eq (leadsTo_element here isThere)) scalar)
        · rw [if_pos rfl]
          refine yields_walkPositions fun index value isThere => ?_
          have member := List.mem_of_getElem? isThere
          rw [Nat.zero_add]
          exact yields_positioned stands (inRange isThere) (leadsTo_element here isThere)
            (inductionHypothesis value member)
  | @object members noMarker distinct allowed plain inductionHypothesis =>
      have here := (leadsTo_iff rfl).mp leads
      rw [walk.eq_def]
      simp only [noMarker, if_neg Bool.false_ne_true]
      split
      · rename_i empty
        obtain ⟨chain, made, ends⟩ := isEmpty_ends stands.lenient
        rw [made]
        refine yields_singleton ((ends.isEmpty_holds_iff stands body).mpr ?_)
        intro value member
        rw [here, List.mem_singleton] at member
        rw [member]
        exact empty
      · refine yields_walkMembers fun member isIn => ?_
        refine yields_member stands (allowed member isIn) ?_ (inductionHypothesis member isIn)
        rw [List.flatten_append, List.flatten_singleton]
        exact follow_member here (Json.lookup_of_mem distinct isIn)

end

/-- In order, a body of plain names and whole numbers satisfies its own chains,
however its objects and arrays are nested. -/
theorem verify_ordered_self {body : Json} (container : body.isContainer = true)
    (plain : body.Plain HasNoBackslash Number.IsWhole) (checksEmptyBody : Bool) :
    ∃ chains, ofBody ⟨true, .bracketed, checksEmptyBody⟩ body = .ok chains ∧
      chains.verify body = .ok () := by
  have readable := plain.mono (fun _ => keepsBackslashes_of_hasNoBackslash)
    (fun _ => Number.readsBack_of_isWhole)
  refine verify_self_of_yields rfl container ?_
  refine yields_walk_ordered readable (stands_root body) ?_
  cases body <;> rfl

/-- A mixed array with an array, an object and an empty array inside. -/
def mixedRows : Json :=
  .object [("rows", .array [.int 7, .array [.bool true, .string "x"], .object [("note", .null)],
    .array []])]

theorem mixedRows_plain : mixedRows.Plain HasNoBackslash Number.IsWhole := by
  have inner : (Json.array [.bool true, .string "x"]).Plain HasNoBackslash Number.IsWhole := by
    refine .array (by decide) fun element member => ?_
    simp only [List.mem_cons, List.not_mem_nil, or_false] at member
    rcases member with rfl | rfl
    · exact .bool true
    · exact .string (by decide +kernel)
  have note : (Json.object [("note", .null)]).Plain HasNoBackslash Number.IsWhole := by
    refine .object (by decide) (by decide) (fun member isIn => ?_) fun member isIn => ?_
    · rw [List.mem_singleton.mp isIn]
      exact (by decide : '\\' ∉ "note".toList)
    · rw [List.mem_singleton.mp isIn]
      exact .null
  refine .object (by decide) (by decide) (fun member isIn => ?_) fun member isIn => ?_
  · rw [List.mem_singleton.mp isIn]
    exact (by decide : '\\' ∉ "rows".toList)
  · rw [List.mem_singleton.mp isIn]
    refine .array (by decide) fun element member => ?_
    simp only [List.mem_cons, List.not_mem_nil, or_false] at member
    rcases member with rfl | rfl | rfl | rfl
    · exact .number (by decide : Number.fits 7 = true)
    · exact inner
    · exact note
    · exact .array (by decide) fun element member => absurd member List.not_mem_nil

theorem mixedRows_verify_ordered : mixedRows.isContainer = true ∧
    mixedRows.Plain HasNoBackslash Number.IsWhole ∧
      ∃ chains, ofBody ⟨true, .bracketed, false⟩ mixedRows = .ok chains ∧
        chains.verify mixedRows = .ok () :=
  ⟨rfl, mixedRows_plain, verify_ordered_self rfl mixedRows_plain false⟩

end Chains

end BodyContract
