import BodyContract.Json.Reader
import BodyContract.Proofs.Number.Canonical

/-!
# Documents as the reader gives them back

The names in an object are distinct, and every floating-point number is written
in its own form.
-/

namespace BodyContract

namespace Json

/-- Whether all numbers of a document are written in their own forms. -/
inductive HasCanonicalNumbers : Json → Prop where
  | null : HasCanonicalNumbers .null
  | bool (flag : Bool) : HasCanonicalNumbers (.bool flag)
  | number {number : Number} (canonical : number.IsCanonical) : HasCanonicalNumbers (.number number)
  | string (text : String) : HasCanonicalNumbers (.string text)
  | array {elements : List Json} (each : ∀ element ∈ elements, HasCanonicalNumbers element) :
      HasCanonicalNumbers (.array elements)
  | object {members : List (String × Json)}
      (each : ∀ member ∈ members, HasCanonicalNumbers member.2) :
      HasCanonicalNumbers (.object members)

/-- Documents with distinct names and canonical numbers. -/
inductive IsCanonical : Json → Prop where
  | null : IsCanonical .null
  | bool (flag : Bool) : IsCanonical (.bool flag)
  | number {number : Number} (canonical : number.IsCanonical) : IsCanonical (.number number)
  | string (text : String) : IsCanonical (.string text)
  | array {elements : List Json} (each : ∀ element ∈ elements, IsCanonical element) :
      IsCanonical (.array elements)
  | object {members : List (String × Json)} (distinct : (members.map (·.1)).Nodup)
      (each : ∀ member ∈ members, IsCanonical member.2) : IsCanonical (.object members)

/-! ## Distinct names -/

def AreCanonical (members : List (String × Json)) : Prop :=
  (members.map (·.1)).Nodup ∧ ∀ member ∈ members, member.2.IsCanonical

theorem mem_put {name : String} {value : Json} {members : List (String × Json)}
    {member : String × Json} (isIn : member ∈ put name value members) :
    member = (name, value) ∨ member ∈ members := by
  induction members with
  | nil => exact Or.inl (List.mem_singleton.mp isIn)
  | cons first rest inductionHypothesis =>
      obtain ⟨other, old⟩ := first
      rw [put] at isIn
      split at isIn
      · rcases List.mem_cons.mp isIn with new | later
        · exact Or.inl new
        · exact Or.inr (List.mem_cons_of_mem _ later)
      · rcases List.mem_cons.mp isIn with same | later
        · exact Or.inr (List.mem_cons.mpr (Or.inl same))
        · exact (inductionHypothesis later).imp_right (List.mem_cons_of_mem _)

theorem nodup_put {name : String} {value : Json} {members : List (String × Json)}
    (distinct : (members.map (·.1)).Nodup) : ((put name value members).map (·.1)).Nodup := by
  induction members with
  | nil => exact List.nodup_singleton name
  | cons first rest inductionHypothesis =>
      obtain ⟨other, old⟩ := first
      rw [List.map_cons, List.nodup_cons] at distinct
      rw [put]
      split
      · rename_i same
        rw [List.map_cons, List.nodup_cons, ← same]
        exact distinct
      · rename_i apart
        rw [List.map_cons, List.nodup_cons]
        refine ⟨fun repeated => ?_, inductionHypothesis distinct.2⟩
        obtain ⟨member, isIn, isOther⟩ := List.mem_map.mp repeated
        rcases mem_put isIn with rfl | isOld
        · exact apart isOther.symm
        · exact distinct.1 (List.mem_map.mpr ⟨member, isOld, isOther⟩)

theorem AreCanonical.put {name : String} {value : Json} {members : List (String × Json)}
    (canonical : AreCanonical members) (isCanonical : value.IsCanonical) :
    AreCanonical (put name value members) := by
  refine ⟨nodup_put canonical.1, fun member isIn => ?_⟩
  rcases mem_put isIn with rfl | isOld
  · exact isCanonical
  · exact canonical.2 member isOld

theorem areCanonical_mergeMembers {members found : List (String × Json)}
    (canonical : AreCanonical found) (each : ∀ member ∈ members, member.2.merge.IsCanonical) :
    AreCanonical (mergeMembers found members) := by
  induction members generalizing found with
  | nil =>
      rw [mergeMembers]
      exact canonical
  | cons first rest inductionHypothesis =>
      rw [mergeMembers]
      exact inductionHypothesis (canonical.put (each first List.mem_cons_self)) fun member isIn =>
        each member (List.mem_cons_of_mem first isIn)

theorem mem_mergeElements {elements : List Json} {value : Json}
    (isIn : value ∈ mergeElements elements) : ∃ element ∈ elements, value = element.merge := by
  induction elements with
  | nil => cases isIn
  | cons first rest inductionHypothesis =>
      rw [mergeElements] at isIn
      rcases List.mem_cons.mp isIn with same | later
      · exact ⟨first, List.mem_cons_self, same⟩
      · obtain ⟨element, isElement, same⟩ := inductionHypothesis later
        exact ⟨element, List.mem_cons_of_mem first isElement, same⟩

/-- Merging members makes the names in every object distinct. -/
theorem isCanonical_merge {value : Json} (numbers : value.HasCanonicalNumbers) :
    value.merge.IsCanonical := by
  induction numbers with
  | null => exact .null
  | bool flag => exact .bool flag
  | number canonical => exact .number canonical
  | string text => exact .string text
  | @array elements _ inductionHypothesis =>
      rw [merge]
      refine .array fun value isIn => ?_
      obtain ⟨element, isElement, rfl⟩ := mem_mergeElements isIn
      exact inductionHypothesis element isElement
  | @object members _ inductionHypothesis =>
      rw [merge]
      have none : AreCanonical [] :=
        ⟨List.nodup_nil, fun _ member => absurd member List.not_mem_nil⟩
      have merged := areCanonical_mergeMembers none inductionHypothesis
      exact .object merged.1 merged.2

/-! ## Reading -/

theorem hasCanonicalNumbers_of_readNumber? {text rest : List Char} {value : Json}
    (read : readNumber? text = some (value, rest)) : value.HasCanonicalNumbers := by
  have ofNumeral : ∀ {isNegative : Bool} {digits : List Char},
      ((readNumeral? isNegative digits).bind fun parts =>
        parts.1.toNumber?.bind fun number => some (Json.number number, parts.2)) =
          some (value, rest) → value.HasCanonicalNumbers := by
    intro isNegative digits read
    obtain ⟨parts, -, read⟩ := Option.bind_eq_some_iff.mp read
    obtain ⟨number, isNumber, same⟩ := Option.bind_eq_some_iff.mp read
    cases same
    exact .number (Numeral.isCanonical_of_toNumber? isNumber)
  rw [readNumber?.eq_def] at read
  simp only at read
  split at read
  · exact ofNumeral read
  · exact ofNumeral read

/-- What is read with some fuel, and what stands in it, has canonical numbers. -/
structure ReadsCanonical (fuel : Nat) : Prop where
  value : ∀ {depth : Nat} {text rest : List Char} {value : Json},
    readValue? fuel depth text = some (value, rest) → value.HasCanonicalNumbers
  elements : ∀ {depth : Nat} {text rest : List Char} {elements : List Json},
    readElements? fuel depth text = some (elements, rest) →
      ∀ element ∈ elements, element.HasCanonicalNumbers
  moreElements : ∀ {depth : Nat} {text rest : List Char} {elements : List Json},
    readMoreElements? fuel depth text = some (elements, rest) →
      ∀ element ∈ elements, element.HasCanonicalNumbers
  members : ∀ {depth : Nat} {text rest : List Char} {members : List (String × Json)},
    readMembers? fuel depth text = some (members, rest) →
      ∀ member ∈ members, member.2.HasCanonicalNumbers
  moreMembers : ∀ {depth : Nat} {text rest : List Char} {members : List (String × Json)},
    readMoreMembers? fuel depth text = some (members, rest) →
      ∀ member ∈ members, member.2.HasCanonicalNumbers

theorem readsCanonical_zero : ReadsCanonical 0 := by
  constructor
  · intro _ _ _ _ read
    rw [readValue?] at read
    cases read
  · intro _ _ _ _ read
    rw [readElements?] at read
    cases read
  · intro _ _ _ _ read
    rw [readMoreElements?] at read
    cases read
  · intro _ _ _ _ read
    rw [readMembers?] at read
    cases read
  · intro _ _ _ _ read
    rw [readMoreMembers?] at read
    cases read

section Step

variable {fuel depth : Nat} {text rest : List Char}

theorem hasCanonicalNumbers_of_readValue? (reads : ReadsCanonical fuel) {value : Json}
    (read : readValue? (fuel + 1) depth text = some (value, rest)) :
    value.HasCanonicalNumbers := by
  have ofWord : ∀ {known : Json} {word behind : List Char}, known.HasCanonicalNumbers →
      (dropWord? word behind).map (known, ·) = some (value, rest) → value.HasCanonicalNumbers := by
    intro known word behind canonical read
    obtain ⟨others, -, same⟩ := Option.map_eq_some_iff.mp read
    cases same
    exact canonical
  rw [readValue?] at read
  split at read
  · cases read
  · exact ofWord .null read
  · exact ofWord (.bool true) read
  · exact ofWord (.bool false) read
  · obtain ⟨⟨content, others⟩, -, same⟩ := Option.map_eq_some_iff.mp read
    cases same
    exact .string content
  · split at read
    · cases read
    · obtain ⟨⟨elements, others⟩, isRead, same⟩ := Option.map_eq_some_iff.mp read
      cases same
      exact .array (reads.elements isRead)
  · split at read
    · cases read
    · obtain ⟨⟨members, others⟩, isRead, same⟩ := Option.map_eq_some_iff.mp read
      cases same
      exact .object (reads.members isRead)
  · exact hasCanonicalNumbers_of_readNumber? read

theorem hasCanonicalNumbers_of_readElements? (reads : ReadsCanonical fuel) {elements : List Json}
    (read : readElements? (fuel + 1) depth text = some (elements, rest)) :
    ∀ element ∈ elements, element.HasCanonicalNumbers := by
  rw [readElements?] at read
  split at read
  · cases read
    exact fun _ member => absurd member List.not_mem_nil
  · exact reads.moreElements read

theorem hasCanonicalNumbers_of_readMoreElements? (reads : ReadsCanonical fuel)
    {elements : List Json}
    (read : readMoreElements? (fuel + 1) depth text = some (elements, rest)) :
    ∀ element ∈ elements, element.HasCanonicalNumbers := by
  rw [readMoreElements?] at read
  simp only [Option.bind_eq_bind, Option.bind_eq_some_iff] at read
  obtain ⟨⟨first, behind⟩, isFirst, later⟩ := read
  have canonical := reads.value isFirst
  split at later
  · cases later
    intro element member
    rw [List.mem_singleton.mp member]
    exact canonical
  · obtain ⟨⟨others, end_⟩, areOthers, same⟩ := Option.bind_eq_some_iff.mp later
    cases same
    intro element member
    rcases List.mem_cons.mp member with rfl | isOther
    · exact canonical
    · exact reads.moreElements areOthers element isOther
  · cases later

theorem hasCanonicalNumbers_of_readMembers? (reads : ReadsCanonical fuel)
    {members : List (String × Json)}
    (read : readMembers? (fuel + 1) depth text = some (members, rest)) :
    ∀ member ∈ members, member.2.HasCanonicalNumbers := by
  rw [readMembers?] at read
  split at read
  · cases read
    exact fun _ member => absurd member List.not_mem_nil
  · exact reads.moreMembers read

theorem hasCanonicalNumbers_of_readMoreMembers? (reads : ReadsCanonical fuel)
    {members : List (String × Json)}
    (read : readMoreMembers? (fuel + 1) depth text = some (members, rest)) :
    ∀ member ∈ members, member.2.HasCanonicalNumbers := by
  rw [readMoreMembers?] at read
  split at read
  · simp only [Option.bind_eq_bind, Option.bind_eq_some_iff] at read
    obtain ⟨⟨name, behindName⟩, -, later⟩ := read
    split at later
    · obtain ⟨⟨value, behind⟩, isValue, later⟩ := Option.bind_eq_some_iff.mp later
      have canonical := reads.value isValue
      split at later
      · cases later
        intro member isIn
        rw [List.mem_singleton.mp isIn]
        exact canonical
      · obtain ⟨⟨others, end_⟩, areOthers, same⟩ := Option.bind_eq_some_iff.mp later
        cases same
        intro member isIn
        rcases List.mem_cons.mp isIn with rfl | isOther
        · exact canonical
        · exact reads.moreMembers areOthers member isOther
      · cases later
    · cases later
  · cases read

end Step

theorem readsCanonical (fuel : Nat) : ReadsCanonical fuel := by
  induction fuel with
  | zero => exact readsCanonical_zero
  | succ fuel inductionHypothesis =>
      exact ⟨hasCanonicalNumbers_of_readValue? inductionHypothesis,
        hasCanonicalNumbers_of_readElements? inductionHypothesis,
        hasCanonicalNumbers_of_readMoreElements? inductionHypothesis,
        hasCanonicalNumbers_of_readMembers? inductionHypothesis,
        hasCanonicalNumbers_of_readMoreMembers? inductionHypothesis⟩

theorem isCanonical_of_parse? {text : String} {document : Json}
    (read : parse? text = some document) : document.IsCanonical := by
  rw [parse?] at read
  obtain ⟨written, isRead, rfl⟩ := Option.map_eq_some_iff.mp read
  apply isCanonical_merge
  rw [read?, readNested?] at isRead
  split at isRead
  · cases isRead
  · rename_i value rest isValue
    split at isRead
    · cases isRead
      exact (readsCanonical _).value isValue
    · cases isRead

end Json

end BodyContract
