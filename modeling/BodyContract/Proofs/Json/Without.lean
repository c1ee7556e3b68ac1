import BodyContract.Proofs.Chain.Plain

/-!
# Documents without some of their parts

`Json.without` leaves out the parts of a document at given places, at once and
by the structure of the document.  Removing many locations from the last to the
first does the same.  A document can also be left without further places
afterwards, if what has gone before does not move them.
-/

namespace BodyContract

/-- A set of places in a document. -/
abbrev Places := Location → Bool

namespace Places

/-- The places inside of what a step leads to. -/
def behind (places : Places) (step : Step) : Places := fun rest => places (step :: rest)

/-- The places in one set or in another one. -/
def union (places others : Places) : Places := fun location => places location || others location

/-- The only place at a location. -/
def only (location : Location) : Places := fun place => decide (place = location)

/-- Whether a location lies at one of the places or inside of one. -/
def cover (places : Places) : Location → Bool
  | [] => false
  | step :: rest => places [step] || cover (places.behind step) rest

/-- Whether a location is where it was when the places have gone: neither is it
covered, nor does it lie behind a gap in an array. -/
def Spare (places : Places) : Location → Prop
  | [] => True
  | .key name :: rest => places [.key name] = false ∧ Spare (places.behind (.key name)) rest
  | .index position :: rest =>
      (∀ gap ≤ position, places [.index gap] = false) ∧ Spare (places.behind (.index position)) rest

/-- Whether other places are found where they were when some have gone: behind a
gap, an element is one of the others wherever it has moved up to. -/
def Undisturbed (places others : Places) : Prop :=
  ∀ (front : Location) (gap before after : Nat) (rest : Location), gap ≤ before → before < after →
    places (front ++ [.index gap]) = true →
      others (front ++ .index before :: rest) = others (front ++ .index after :: rest)

variable {places others : Places}

theorem Undisturbed.behind (undisturbed : places.Undisturbed others) (step : Step) :
    (places.behind step).Undisturbed (others.behind step) :=
  fun front => undisturbed (step :: front)

theorem behind_only_self (step : Step) (rest : Location) :
    (only (step :: rest)).behind step = only rest := by
  funext place
  simp [only, behind]

theorem behind_only_other {step other : Step} (different : other ≠ step) (rest : Location) :
    (only (step :: rest)).behind other = fun _ => false := by
  funext place
  simp [only, behind, different]

end Places

namespace Json

/-- Documents with distinct names in each object. -/
inductive HasDistinctNames : Json → Prop where
  | leaf {value : Json} (scalar : value.isContainer = false) : HasDistinctNames value
  | array {elements : List Json} (each : ∀ element ∈ elements, HasDistinctNames element) :
      HasDistinctNames (.array elements)
  | object {members : List (String × Json)} (distinct : (members.map (·.1)).Nodup)
      (each : ∀ member ∈ members, HasDistinctNames member.2) :
      HasDistinctNames (.object members)

mutual

/-- A document without its parts at some places.  The root stays. -/
def without (places : Places) : Json → Json
  | .array elements => .array (withoutElements places 0 elements)
  | .object members => .object (withoutMembers places members)
  | value => value

/-- Elements without their parts at some places, from a position on. -/
def withoutElements (places : Places) (position : Nat) : List Json → List Json
  | [] => []
  | element :: rest =>
      if places [.index position] then
        withoutElements places (position + 1) rest
      else
        without (places.behind (.index position)) element ::
          withoutElements places (position + 1) rest

/-- Members without their parts at some places. -/
def withoutMembers (places : Places) : List (String × Json) → List (String × Json)
  | [] => []
  | (name, value) :: rest =>
      if places [.key name] then
        withoutMembers places rest
      else
        (name, without (places.behind (.key name)) value) :: withoutMembers places rest

end

variable {document : Json} {elements : List Json} {members : List (String × Json)}
  {places others : Places}

theorem without_of_not_container (scalar : document.isContainer = false) :
    document.without places = document := by
  cases document <;> first | rfl | cases scalar

theorem withoutElements_cons_gone {position : Nat} (gone : places [.index position] = true)
    (element : Json) (rest : List Json) :
    withoutElements places position (element :: rest) =
      withoutElements places (position + 1) rest := by
  rw [withoutElements, if_pos gone]

theorem withoutElements_cons_kept {position : Nat} (kept : places [.index position] = false)
    (element : Json) (rest : List Json) :
    withoutElements places position (element :: rest) =
      element.without (places.behind (.index position)) ::
        withoutElements places (position + 1) rest := by
  rw [withoutElements, kept, if_neg Bool.false_ne_true]

theorem withoutMembers_cons_gone {name : String} (gone : places [.key name] = true)
    (value : Json) (rest : List (String × Json)) :
    withoutMembers places ((name, value) :: rest) = withoutMembers places rest := by
  rw [withoutMembers, if_pos gone]

theorem withoutMembers_cons_kept {name : String} (kept : places [.key name] = false)
    (value : Json) (rest : List (String × Json)) :
    withoutMembers places ((name, value) :: rest) =
      (name, value.without (places.behind (.key name))) :: withoutMembers places rest := by
  rw [withoutMembers, kept, if_neg Bool.false_ne_true]

theorem mem_withoutMembers {member : String × Json} : member ∈ withoutMembers places members ↔
    ∃ value, (member.1, value) ∈ members ∧ places [.key member.1] = false ∧
      member.2 = value.without (places.behind (.key member.1)) := by
  induction members with
  | nil => simp [withoutMembers]
  | cons first rest inductionHypothesis =>
      obtain ⟨name, value⟩ := first
      cases gone : places [.key name] with
      | true =>
          rw [withoutMembers_cons_gone gone, inductionHypothesis]
          constructor
          · rintro ⟨old, isIn, kept, same⟩
            exact ⟨old, List.mem_cons_of_mem _ isIn, kept, same⟩
          · rintro ⟨old, isIn, kept, same⟩
            rcases List.mem_cons.mp isIn with isFirst | later
            · rw [(Prod.mk.inj isFirst).1, gone] at kept
              cases kept
            · exact ⟨old, later, kept, same⟩
      | false =>
          rw [withoutMembers_cons_kept gone, List.mem_cons, inductionHypothesis]
          constructor
          · rintro (rfl | ⟨old, isIn, kept, same⟩)
            · exact ⟨value, List.mem_cons_self, gone, rfl⟩
            · exact ⟨old, List.mem_cons_of_mem _ isIn, kept, same⟩
          · rintro ⟨old, isIn, kept, same⟩
            rcases List.mem_cons.mp isIn with isFirst | later
            · obtain ⟨sameName, rfl⟩ := Prod.mk.inj isFirst
              subst sameName
              exact Or.inl (Prod.ext rfl same)
            · exact Or.inr ⟨old, later, kept, same⟩

theorem mem_withoutElements {position : Nat} {value : Json}
    (isIn : value ∈ withoutElements places position elements) :
    ∃ element ∈ elements, ∃ index, value = element.without (places.behind (.index index)) := by
  induction elements generalizing position with
  | nil => exact absurd isIn List.not_mem_nil
  | cons first rest inductionHypothesis =>
      cases gone : places [.index position] with
      | true =>
          rw [withoutElements_cons_gone gone] at isIn
          obtain ⟨element, later, index, same⟩ := inductionHypothesis isIn
          exact ⟨element, List.mem_cons_of_mem _ later, index, same⟩
      | false =>
          rw [withoutElements_cons_kept gone] at isIn
          rcases List.mem_cons.mp isIn with rfl | isLater
          · exact ⟨first, List.mem_cons_self, position, rfl⟩
          · obtain ⟨element, later, index, same⟩ := inductionHypothesis isLater
            exact ⟨element, List.mem_cons_of_mem _ later, index, same⟩

theorem map_fst_withoutMembers :
    (withoutMembers places members).map (·.1) =
      (members.map (·.1)).filter fun name => !places [.key name] := by
  induction members with
  | nil => rfl
  | cons first rest inductionHypothesis =>
      obtain ⟨name, value⟩ := first
      cases gone : places [.key name] with
      | true => rw [withoutMembers_cons_gone gone, inductionHypothesis]; simp [gone]
      | false => rw [withoutMembers_cons_kept gone]; simp [gone, inductionHypothesis]

theorem HasDistinctNames.without (distinct : document.HasDistinctNames) (places : Places) :
    (document.without places).HasDistinctNames := by
  induction distinct generalizing places with
  | leaf scalar =>
      rw [without_of_not_container scalar]
      exact .leaf scalar
  | array _ inductionHypothesis =>
      rw [Json.without]
      apply HasDistinctNames.array
      intro value isIn
      obtain ⟨element, member, index, rfl⟩ := mem_withoutElements isIn
      exact inductionHypothesis element member _
  | object distinct _ inductionHypothesis =>
      rw [Json.without]
      apply HasDistinctNames.object
      · rw [map_fst_withoutMembers]
        exact distinct.filter _
      · intro member isIn
        obtain ⟨value, isThere, -, same⟩ := mem_withoutMembers.mp isIn
        rw [same]
        exact inductionHypothesis _ isThere _

/-! ## Nothing to leave out -/

theorem withoutElements_eq_self {position : Nat}
    (kept : ∀ (index : Nat) (element : Json), elements[index]? = some element →
      places [.index (position + index)] = false ∧
        element.without (places.behind (.index (position + index))) = element) :
    withoutElements places position elements = elements := by
  induction elements generalizing position with
  | nil => rfl
  | cons element rest inductionHypothesis =>
      obtain ⟨stays, same⟩ := kept 0 element rfl
      rw [Nat.add_zero] at stays same
      rw [withoutElements_cons_kept stays, same, inductionHypothesis]
      intro index other isThere
      rw [Nat.add_right_comm]
      exact kept (index + 1) other isThere

theorem withoutMembers_eq_self
    (kept : ∀ member ∈ members, places [.key member.1] = false ∧
      member.2.without (places.behind (.key member.1)) = member.2) :
    withoutMembers places members = members := by
  induction members with
  | nil => rfl
  | cons member rest inductionHypothesis =>
      obtain ⟨stays, same⟩ := kept member List.mem_cons_self
      rw [withoutMembers_cons_kept stays, same, inductionHypothesis]
      intro other isIn
      exact kept other (List.mem_cons_of_mem _ isIn)

theorem without_none (distinct : document.HasDistinctNames) :
    document.without (fun _ => false) = document := by
  induction distinct with
  | leaf scalar => exact without_of_not_container scalar
  | array _ inductionHypothesis =>
      rw [without, withoutElements_eq_self]
      intro index element isThere
      exact ⟨rfl, inductionHypothesis element (List.mem_of_getElem? isThere)⟩
  | object _ _ inductionHypothesis =>
      rw [without, withoutMembers_eq_self]
      intro member isIn
      exact ⟨rfl, inductionHypothesis member isIn⟩

/-! ## The same places -/

/-- Only the places that are in the document matter, and the root does not. -/
theorem without_congr (distinct : document.HasDistinctNames)
    (same : ∀ location, location ≠ [] → (document.valueAt? location).isSome →
      places location = others location) :
    document.without places = document.without others := by
  induction distinct generalizing places others with
  | leaf scalar => rw [without_of_not_container scalar, without_of_not_container scalar]
  | @array elements _ inductionHypothesis =>
      have fromPosition : ∀ (rest : List Json) (position : Nat),
          (∀ index, rest[index]? = elements[position + index]?) →
            withoutElements places position rest = withoutElements others position rest := by
        intro rest
        induction rest with
        | nil =>
            intro position _
            rfl
        | cons element rest restHypothesis =>
            intro position isBehind
            have here : elements[position]? = some element := (isBehind 0).symm
            have valid : ∀ location, ((Json.array elements).valueAt? (.index position :: location)) =
                element.valueAt? location := by
              intro location
              simp [valueAt?, step?, element?, here]
            have sameHere : places [.index position] = others [.index position] := by
              apply same _ (List.cons_ne_nil _ _)
              rw [valid]
              rfl
            have inside : element.without (places.behind (.index position)) =
                element.without (others.behind (.index position)) := by
              apply inductionHypothesis element (List.mem_of_getElem? here)
              intro location _ isThere
              apply same _ (List.cons_ne_nil _ _)
              rw [valid]
              exact isThere
            have later := restHypothesis (position + 1) fun index => by
              rw [Nat.add_right_comm, Nat.add_assoc, ← isBehind (index + 1)]
              rfl
            rw [withoutElements, withoutElements, sameHere, inside, later]
      rw [without, without, fromPosition elements 0 fun index => by rw [Nat.zero_add]]
  | @object members distinctNames _ inductionHypothesis =>
      have each : ∀ rest, (∀ member ∈ rest, member ∈ members) →
          withoutMembers places rest = withoutMembers others rest := by
        intro rest
        induction rest with
        | nil =>
            intro _
            rfl
        | cons member rest restHypothesis =>
            intro among
            obtain ⟨name, value⟩ := member
            have isIn := among _ List.mem_cons_self
            have here : members.lookup name = some value := lookup_of_mem distinctNames isIn
            have valid : ∀ location, ((Json.object members).valueAt? (.key name :: location)) =
                value.valueAt? location := by
              intro location
              simp [valueAt?, step?, member?, here]
            have sameHere : places [.key name] = others [.key name] := by
              apply same _ (List.cons_ne_nil _ _)
              rw [valid]
              rfl
            have inside : value.without (places.behind (.key name)) =
                value.without (others.behind (.key name)) := by
              apply inductionHypothesis _ isIn
              intro location _ isThere
              apply same _ (List.cons_ne_nil _ _)
              rw [valid]
              exact isThere
            have later := restHypothesis fun other isLater => among other (List.mem_cons_of_mem _ isLater)
            rw [withoutMembers, withoutMembers, sameHere, inside, later]
      rw [without, without, each members fun _ => id]

/-! ## One after the other -/

theorem withoutElements_withoutElements {position before : Nat}
    (each : ∀ element ∈ elements, ∀ places others : Places, places.Undisturbed others →
      (element.without places).without others = element.without (places.union others))
    (undisturbed : places.Undisturbed others)
    (moved : before = position ∨
      before < position ∧ ∃ gap, gap ≤ before ∧ places [.index gap] = true) :
    withoutElements others before (withoutElements places position elements) =
      withoutElements (places.union others) position elements := by
  induction elements generalizing position before with
  | nil => rfl
  | cons element rest inductionHypothesis =>
      have later := fun other isIn => each other (List.mem_cons_of_mem element isIn)
      cases gone : places [.index position] with
      | true =>
          have both : (places.union others) [.index position] = true := by
            rw [Places.union, gone, Bool.true_or]
          rw [withoutElements_cons_gone gone, withoutElements_cons_gone both]
          apply inductionHypothesis later
          rcases moved with rfl | ⟨before_, gap, isGap⟩
          · exact Or.inr ⟨Nat.lt_succ_self _, before, Nat.le_refl _, gone⟩
          · exact Or.inr ⟨Nat.lt_succ_of_lt before_, gap, isGap⟩
      | false =>
          have sameOthers : ∀ location, others (.index before :: location) =
              others (.index position :: location) := by
            intro location
            rcases moved with rfl | ⟨before_, gap, inFront, isGap⟩
            · rfl
            · exact undisturbed [] gap before position location inFront before_ isGap
          have behind : others.behind (.index before) = others.behind (.index position) :=
            funext sameOthers
          have union : (places.union others) [.index position] = others [.index position] := by
            rw [Places.union, gone, Bool.false_or]
          have step : before + 1 = position + 1 ∨
              before + 1 < position + 1 ∧ ∃ gap, gap ≤ before + 1 ∧ places [.index gap] = true := by
            rcases moved with rfl | ⟨before_, gap, inFront, isGap⟩
            · exact Or.inl rfl
            · exact Or.inr ⟨Nat.succ_lt_succ before_, gap, Nat.le_succ_of_le inFront, isGap⟩
          have inside := each element List.mem_cons_self _ _
            (undisturbed.behind (.index position))
          rw [withoutElements_cons_kept gone, withoutElements, withoutElements, sameOthers, union,
            behind, inside, inductionHypothesis later step]
          rfl

theorem withoutMembers_withoutMembers
    (each : ∀ member ∈ members, ∀ places others : Places, places.Undisturbed others →
      (member.2.without places).without others = member.2.without (places.union others))
    (undisturbed : places.Undisturbed others) :
    withoutMembers others (withoutMembers places members) =
      withoutMembers (places.union others) members := by
  induction members with
  | nil => rfl
  | cons member rest inductionHypothesis =>
      obtain ⟨name, value⟩ := member
      have later := inductionHypothesis fun other isIn => each other (List.mem_cons_of_mem _ isIn)
      cases gone : places [.key name] with
      | true =>
          have both : (places.union others) [.key name] = true := by
            rw [Places.union, gone, Bool.true_or]
          rw [withoutMembers_cons_gone gone, withoutMembers_cons_gone both, later]
      | false =>
          have union : (places.union others) [.key name] = others [.key name] := by
            rw [Places.union, gone, Bool.false_or]
          have inside := each _ List.mem_cons_self _ _ (undisturbed.behind (.key name))
          rw [withoutMembers_cons_kept gone, withoutMembers, withoutMembers, union, inside, later]
          rfl

/-- Leaving out some places and then others that are undisturbed leaves out all
of them. -/
theorem without_without (distinct : document.HasDistinctNames)
    (undisturbed : places.Undisturbed others) :
    (document.without places).without others = document.without (places.union others) := by
  induction distinct generalizing places others with
  | leaf scalar =>
      rw [without_of_not_container scalar, without_of_not_container scalar,
        without_of_not_container scalar]
  | array _ inductionHypothesis =>
      rw [without, without, without, withoutElements_withoutElements
        (fun element isIn _ _ => inductionHypothesis element isIn) undisturbed (Or.inl rfl)]
  | object _ _ inductionHypothesis =>
      rw [without, without, without, withoutMembers_withoutMembers
        (fun member isIn _ _ => inductionHypothesis member isIn) undisturbed]

/-! ## What stays in its place -/

theorem getElem?_withoutElements {position index : Nat}
    (kept : ∀ gap ≤ index, places [.index (position + gap)] = false) :
    (withoutElements places position elements)[index]? =
      elements[index]?.map (without (places.behind (.index (position + index)))) := by
  induction elements generalizing position index with
  | nil => rfl
  | cons element rest inductionHypothesis =>
      have here : places [.index position] = false := kept 0 (Nat.zero_le index)
      rw [withoutElements_cons_kept here]
      cases index with
      | zero => rfl
      | succ index =>
          rw [List.getElem?_cons_succ, List.getElem?_cons_succ, inductionHypothesis,
            Nat.add_right_comm, Nat.add_assoc]
          intro gap inFront
          rw [Nat.add_right_comm]
          exact kept (gap + 1) (Nat.succ_le_succ inFront)

theorem lookup_withoutMembers {name : String} (kept : places [.key name] = false) :
    (withoutMembers places members).lookup name =
      (members.lookup name).map (without (places.behind (.key name))) := by
  induction members with
  | nil => rfl
  | cons member rest inductionHypothesis =>
      obtain ⟨other, value⟩ := member
      by_cases same : name = other
      · subst same
        rw [withoutMembers_cons_kept kept, List.lookup_cons_self, List.lookup_cons_self]
        rfl
      · have different : (name == other) = false := beq_eq_false_iff_ne.mpr same
        rw [List.lookup_cons, different, ← inductionHypothesis]
        cases gone : places [.key other] with
        | true => rw [withoutMembers_cons_gone gone]
        | false => rw [withoutMembers_cons_kept gone, List.lookup_cons, different]

/-- What stands at a spare location stays there. -/
theorem valueAt?_without {location : Location} (spare : places.Spare location) :
    (document.without places).valueAt? location =
      (document.valueAt? location).map (without fun rest => places (location ++ rest)) := by
  induction location generalizing document places with
  | nil => rfl
  | cons step rest inductionHypothesis =>
      cases step with
      | key name =>
          obtain ⟨kept, inside⟩ := spare
          have here : (document.without places).step? (.key name) =
              (document.step? (.key name)).map (without (places.behind (.key name))) := by
            cases document with
            | object members => exact lookup_withoutMembers kept
            | _ => rfl
          rw [valueAt?, valueAt?, here]
          cases document.step? (.key name) with
          | none => rfl
          | some value => exact inductionHypothesis inside
      | index position =>
          obtain ⟨kept, inside⟩ := spare
          have here : (document.without places).step? (.index position) =
              (document.step? (.index position)).map (without (places.behind (.index position))) := by
            cases document with
            | array elements =>
                have found : (withoutElements places 0 elements)[position]? =
                    elements[position]?.map
                      (without (places.behind (.index (0 + position)))) := by
                  apply getElem?_withoutElements
                  intro gap inFront
                  rw [Nat.zero_add]
                  exact kept gap inFront
                rw [Nat.zero_add] at found
                exact found
            | _ => rfl
          rw [valueAt?, valueAt?, here]
          cases document.step? (.index position) with
          | none => rfl
          | some value => exact inductionHypothesis inside

end Json

end BodyContract
