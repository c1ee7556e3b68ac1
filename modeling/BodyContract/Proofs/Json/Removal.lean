import Mathlib.Data.String.Basic
import BodyContract.Proofs.Json.Extension
import BodyContract.Proofs.Json.Without

/-!
# Removing locations

Locations are removed from the last to the first, so that none of them is moved
by those that have been removed before.  What is left is the document without
the places at these locations.
-/

namespace BodyContract

/-! ## The order of locations -/

namespace Step

theorem before_irrefl (step : Step) : step.before step = false := by
  cases step <;> simp [before]

theorem before_trans {first second third : Step} (left : first.before second = true)
    (right : second.before third = true) : first.before third = true := by
  cases first <;> cases second <;> cases third <;>
    simp only [before, decide_eq_true_eq, Bool.false_eq_true] at left right ⊢
  · exact String.lt_trans left right
  · exact Nat.lt_trans left right

theorem before_or_eq_or_before (left right : Step) :
    left.before right = true ∨ left = right ∨ right.before left = true := by
  cases left with
  | key left =>
      cases right with
      | key right =>
          simp only [before, decide_eq_true_eq, key.injEq]
          exact lt_trichotomy left right
      | index right => exact Or.inl rfl
  | index left =>
      cases right with
      | key right => exact Or.inr (Or.inr rfl)
      | index right =>
          simp only [before, decide_eq_true_eq, index.injEq]
          exact Nat.lt_trichotomy left right

theorem before_asymm {left right : Step} (isBefore : left.before right = true) :
    right.before left = false := by
  cases other : right.before left with
  | false => rfl
  | true =>
      have cyclic := before_trans isBefore other
      rw [before_irrefl] at cyclic
      cases cyclic

end Step

namespace Location

theorem notAfter_cons_iff {left right : Step} {lefts rights : Location} :
    notAfter (left :: lefts) (right :: rights) = true ↔
      left.before right = true ∨ left = right ∧ notAfter lefts rights = true := by
  rw [notAfter, Bool.or_eq_true, Bool.and_eq_true, beq_iff_eq]

theorem notAfter_refl (location : Location) : notAfter location location = true := by
  induction location with
  | nil => rfl
  | cons step rest inductionHypothesis =>
      exact notAfter_cons_iff.mpr (Or.inr ⟨rfl, inductionHypothesis⟩)

theorem notAfter_total (left right : Location) :
    notAfter left right = true ∨ notAfter right left = true := by
  induction left generalizing right with
  | nil => exact Or.inl rfl
  | cons step rest inductionHypothesis =>
      cases right with
      | nil => exact Or.inr rfl
      | cons other more =>
          rw [notAfter_cons_iff, notAfter_cons_iff]
          rcases step.before_or_eq_or_before other with isBefore | rfl | isAfter
          · exact Or.inl (Or.inl isBefore)
          · rcases inductionHypothesis more with later | later
            · exact Or.inl (Or.inr ⟨rfl, later⟩)
            · exact Or.inr (Or.inr ⟨rfl, later⟩)
          · exact Or.inr (Or.inl isAfter)

theorem notAfter_trans {first second third : Location} (left : notAfter first second = true)
    (right : notAfter second third = true) : notAfter first third = true := by
  induction first generalizing second third with
  | nil => rfl
  | cons step rest inductionHypothesis =>
      cases second with
      | nil => cases left
      | cons other more =>
          cases third with
          | nil => cases right
          | cons last others =>
              rw [notAfter_cons_iff] at left right ⊢
              rcases left with isBefore | ⟨rfl, inside⟩
              · rcases right with later | ⟨rfl, -⟩
                · exact Or.inl (Step.before_trans isBefore later)
                · exact Or.inl isBefore
              · rcases right with later | ⟨rfl, insideToo⟩
                · exact Or.inl later
                · exact Or.inr ⟨rfl, inductionHypothesis inside insideToo⟩

theorem notAfter_antisymm {left right : Location} (isNotAfter : notAfter left right = true)
    (isNotBefore : notAfter right left = true) : left = right := by
  induction left generalizing right with
  | nil =>
      cases right with
      | nil => rfl
      | cons other more => cases isNotBefore
  | cons step rest inductionHypothesis =>
      cases right with
      | nil => cases isNotAfter
      | cons other more =>
          rw [notAfter_cons_iff] at isNotAfter isNotBefore
          rcases isNotAfter with isBefore | ⟨rfl, inside⟩
          · rcases isNotBefore with isAfter | ⟨rfl, -⟩
            · rw [Step.before_asymm isBefore] at isAfter
              cases isAfter
            · rw [Step.before_irrefl] at isBefore
              cases isBefore
          · rcases isNotBefore with isBefore | ⟨-, insideToo⟩
            · rw [Step.before_irrefl] at isBefore
              cases isBefore
            · rw [inductionHypothesis inside insideToo]

theorem mem_dropRepeats {locations : List Location} {location : Location} :
    location ∈ dropRepeats locations ↔ location ∈ locations := by
  induction locations using dropRepeats.induct with
  | case1 => rfl
  | case2 only => rfl
  | case3 first rest inductionHypothesis =>
      rw [dropRepeats, if_pos rfl, inductionHypothesis]
      simp
  | case4 first next rest different inductionHypothesis =>
      rw [dropRepeats, if_neg different, List.mem_cons, inductionHypothesis, ← List.mem_cons]

/-- Whether a location lies behind another one. -/
def IsAfter (location other : Location) : Prop := notAfter location other = false

theorem pairwise_dropRepeats {locations : List Location}
    (ascending : locations.Pairwise fun left right => notAfter left right = true) :
    (dropRepeats locations).Pairwise fun left right => IsAfter right left := by
  induction locations using dropRepeats.induct with
  | case1 => exact .nil
  | case2 only => exact List.pairwise_singleton _ _
  | case3 first rest inductionHypothesis =>
      rw [dropRepeats, if_pos rfl]
      exact inductionHypothesis (List.pairwise_cons.mp ascending).2
  | case4 first next rest different inductionHypothesis =>
      obtain ⟨least, later⟩ := List.pairwise_cons.mp ascending
      rw [dropRepeats, if_neg different, List.pairwise_cons]
      refine ⟨?_, inductionHypothesis later⟩
      intro other isThere
      have isIn := mem_dropRepeats.mp isThere
      have front := least next List.mem_cons_self
      -- The next location is another one, and no later one comes before it.
      have notBefore : notAfter next other = true := by
        rcases List.mem_cons.mp isIn with rfl | isLater
        · exact notAfter_refl _
        · exact (List.pairwise_cons.mp later).1 other isLater
      cases comparison : notAfter other first with
      | false => exact comparison
      | true =>
          have back := notAfter_trans notBefore comparison
          exact absurd (notAfter_antisymm front back) different

theorem mem_descending {locations : List Location} {location : Location} :
    location ∈ descending locations ↔ location ∈ locations := by
  rw [descending, List.mem_reverse, mem_dropRepeats, List.mem_mergeSort]

theorem pairwise_descending (locations : List Location) :
    (descending locations).Pairwise IsAfter := by
  rw [descending, List.pairwise_reverse]
  apply pairwise_dropRepeats
  apply List.pairwise_mergeSort
  · intro first second third
    exact notAfter_trans
  · intro left right
    rw [Bool.or_eq_true]
    exact notAfter_total left right

end Location

/-! ## Places behind others -/

namespace Places

variable {places : Places}

/-- Whether all places lie behind a location. -/
def AreAfter (places : Places) (location : Location) : Prop :=
  ∀ place, places place = true → place.IsAfter location

theorem AreAfter.behind {step : Step} {rest : Location} (after : places.AreAfter (step :: rest)) :
    (places.behind step).AreAfter rest := by
  intro place isThere
  have isAfter := after (step :: place) isThere
  rw [Location.IsAfter, Bool.eq_false_iff, ne_eq, Location.notAfter_cons_iff] at isAfter
  cases comparison : Location.notAfter place rest with
  | false => exact comparison
  | true => exact absurd (Or.inr ⟨rfl, comparison⟩) isAfter

/-- No place that lies behind a location covers it or is in front of it. -/
theorem AreAfter.spare {location : Location} (after : places.AreAfter location) :
    places.Spare location := by
  induction location generalizing places with
  | nil => trivial
  | cons step rest inductionHypothesis =>
      have inside := inductionHypothesis after.behind
      have notThere : ∀ other : Step, (other.before step = true ∨ other = step) →
          places [other] = false := by
        intro other isBefore
        cases isThere : places [other] with
        | false => rfl
        | true =>
            have isAfter := after [other] isThere
            have notAfter : Location.notAfter [other] (step :: rest) = true := by
              rw [Location.notAfter_cons_iff]
              rcases isBefore with less | same
              · exact Or.inl less
              · exact Or.inr ⟨same, rfl⟩
            rw [Location.IsAfter, notAfter] at isAfter
            cases isAfter
      cases step with
      | key name => exact ⟨notThere _ (Or.inr rfl), inside⟩
      | index position =>
          refine ⟨?_, inside⟩
          intro gap inFront
          apply notThere
          rcases Nat.lt_or_eq_of_le inFront with less | rfl
          · exact Or.inl (decide_eq_true less)
          · exact Or.inr rfl

/-- A location is undisturbed by the places behind it. -/
theorem AreAfter.undisturbed {location : Location} (after : places.AreAfter location) :
    places.Undisturbed (only location) := by
  intro front gap before position rest inFront moved isGap
  have notHere : ∀ index, gap ≤ index → location ≠ front ++ .index index :: rest := by
    rintro index notBefore rfl
    have isAfter := after _ isGap
    induction front generalizing places with
    | nil =>
        rw [List.nil_append, List.nil_append, Location.IsAfter, Bool.eq_false_iff, ne_eq,
          Location.notAfter_cons_iff] at isAfter
        rcases Nat.lt_or_eq_of_le notBefore with less | rfl
        · exact isAfter (Or.inl (decide_eq_true less))
        · exact isAfter (Or.inr ⟨rfl, rfl⟩)
    | cons step front inductionHypothesis =>
        have isGapInside : places.behind step (front ++ [.index gap]) = true := isGap
        exact inductionHypothesis isGapInside after.behind (after.behind _ isGapInside)
  have left := notHere before inFront
  have right := notHere position (Nat.le_trans inFront (Nat.le_of_lt moved))
  rw [only, only, decide_eq_false left.symm, decide_eq_false right.symm]

end Places

/-! ## What is left -/

namespace Json

variable {document : Json} {elements : List Json} {members : List (String × Json)}

theorem eraseMember_eq (distinct : (Json.object members).HasDistinctNames) {name : String} :
    eraseMember name members = withoutMembers (Places.only [.key name]) members := by
  cases distinct with
  | leaf scalar => cases scalar
  | object distinct each =>
      induction members with
      | nil => rfl
      | cons member rest inductionHypothesis =>
          obtain ⟨other, value⟩ := member
          rw [List.map_cons, List.nodup_cons] at distinct
          have eachLater := fun member isIn => each member (List.mem_cons_of_mem _ isIn)
          rw [eraseMember]
          by_cases same : other = name
          · subst same
            have gone : Places.only [.key other] [.key other] = true := decide_eq_true rfl
            rw [if_pos rfl, withoutMembers_cons_gone gone, withoutMembers_eq_self]
            intro later isIn
            have different : later.1 ≠ other := by
              rintro rfl
              exact distinct.1 (List.mem_map.mpr ⟨later, isIn, rfl⟩)
            have otherStep : Step.key later.1 ≠ .key other := by simpa using different
            refine ⟨by simp [Places.only, different], ?_⟩
            rw [Places.behind_only_other otherStep, without_none (eachLater later isIn)]
          · have otherStep : Step.key other ≠ .key name := by simpa using same
            have kept : Places.only [.key name] [.key other] = false := by
              simp [Places.only, same]
            rw [if_neg same, withoutMembers_cons_kept kept, Places.behind_only_other otherStep,
              without_none (each _ List.mem_cons_self),
              inductionHypothesis distinct.2 eachLater]

theorem eraseIdx_eq (distinct : (Json.array elements).HasDistinctNames) {index : Nat} :
    elements.eraseIdx index = withoutElements (Places.only [.index index]) 0 elements := by
  have fromPosition : ∀ (rest : List Json) (position gap : Nat),
      (∀ element ∈ rest, element.HasDistinctNames) →
        rest.eraseIdx gap = withoutElements (Places.only [.index (position + gap)]) position rest := by
    intro rest
    induction rest with
    | nil =>
        intro position gap _
        rfl
    | cons element rest inductionHypothesis =>
        intro position gap each
        have eachLater := fun other isIn => each other (List.mem_cons_of_mem element isIn)
        cases gap with
        | zero =>
            have gone : Places.only [.index position] [.index position] = true :=
              decide_eq_true rfl
            rw [Nat.add_zero, withoutElements_cons_gone gone, List.eraseIdx_cons_zero,
              withoutElements_eq_self]
            intro later other isThere
            have otherStep : Step.index (position + 1 + later) ≠ .index position := by
              rw [ne_eq, Step.index.injEq]
              omega
            refine ⟨by simp [Places.only]; omega, ?_⟩
            rw [Places.behind_only_other otherStep,
              without_none (eachLater other (List.mem_of_getElem? isThere))]
        | succ gap =>
            have otherStep : Step.index position ≠ .index (position + (gap + 1)) := by
              rw [ne_eq, Step.index.injEq]
              omega
            have kept : Places.only [.index (position + (gap + 1))] [.index position] = false := by
              simp [Places.only, otherStep]
            have later := inductionHypothesis (position + 1) gap eachLater
            rw [Nat.add_right_comm, Nat.add_assoc] at later
            rw [withoutElements_cons_kept kept, Places.behind_only_other otherStep,
              without_none (each _ List.mem_cons_self), List.eraseIdx_cons_succ, later]
  cases distinct with
  | leaf scalar => cases scalar
  | array each =>
      have all := fromPosition elements 0 index each
      rw [Nat.zero_add] at all
      exact all

theorem modifyMember?_eq (distinct : (Json.object members).HasDistinctNames) {name : String}
    {rest : Location} {change : Json → Option Json} {value : Json}
    (here : members.lookup name = some value)
    (changed : change value = some (value.without (Places.only rest))) (inside : rest ≠ []) :
    modifyMember? name change members =
      some (withoutMembers (Places.only (.key name :: rest)) members) := by
  have keptAll : ∀ other, Places.only (.key name :: rest) [.key other] = false := by
    intro other
    simp [Places.only, inside.symm]
  cases distinct with
  | leaf scalar => cases scalar
  | object distinct each =>
      induction members with
      | nil => cases here
      | cons member others inductionHypothesis =>
          obtain ⟨other, old⟩ := member
          rw [List.map_cons, List.nodup_cons] at distinct
          have eachLater := fun member isIn => each member (List.mem_cons_of_mem _ isIn)
          rw [modifyMember?, withoutMembers_cons_kept (keptAll other)]
          by_cases same : other = name
          · subst same
            rw [List.lookup_cons_self, Option.some_inj] at here
            subst here
            rw [if_pos rfl, changed, Places.behind_only_self, withoutMembers_eq_self]
            · rfl
            intro later isIn
            have different : later.1 ≠ other := by
              rintro rfl
              exact distinct.1 (List.mem_map.mpr ⟨later, isIn, rfl⟩)
            have otherStep : Step.key later.1 ≠ .key other := by simpa using different
            refine ⟨keptAll later.1, ?_⟩
            rw [Places.behind_only_other otherStep, without_none (eachLater later isIn)]
          · have otherStep : Step.key other ≠ .key name := by simpa using same
            have different : (name == other) = false := beq_eq_false_iff_ne.mpr (Ne.symm same)
            rw [List.lookup_cons, different] at here
            rw [if_neg same, inductionHypothesis here distinct.2 eachLater,
              Places.behind_only_other otherStep, without_none (each _ List.mem_cons_self)]
            rfl

theorem modifyElement?_eq (distinct : (Json.array elements).HasDistinctNames) {index : Nat}
    {rest : Location} {change : Json → Option Json} {value : Json}
    (here : elements[index]? = some value)
    (changed : change value = some (value.without (Places.only rest))) (inside : rest ≠ []) :
    modifyElement? change index elements =
      some (withoutElements (Places.only (.index index :: rest)) 0 elements) := by
  have fromPosition : ∀ (others : List Json) (position gap : Nat),
      (∀ element ∈ others, element.HasDistinctNames) → others[gap]? = some value →
        modifyElement? change gap others = some
          (withoutElements (Places.only (.index (position + gap) :: rest)) position others) := by
    intro others
    induction others with
    | nil =>
        intro position gap _ impossible
        cases impossible
    | cons element others inductionHypothesis =>
        intro position gap each isThere
        have eachLater := fun other isIn => each other (List.mem_cons_of_mem element isIn)
        have kept : Places.only (.index (position + gap) :: rest) [.index position] = false := by
          simp [Places.only, inside.symm]
        rw [withoutElements_cons_kept kept]
        cases gap with
        | zero =>
            rw [List.getElem?_cons_zero, Option.some_inj] at isThere
            subst isThere
            rw [modifyElement?, changed, Nat.add_zero, Places.behind_only_self,
              withoutElements_eq_self]
            · rfl
            intro later other isLater
            have otherStep : Step.index (position + 1 + later) ≠ .index position := by
              rw [ne_eq, Step.index.injEq]
              omega
            refine ⟨by simp [Places.only, inside.symm], ?_⟩
            rw [Places.behind_only_other otherStep,
              without_none (eachLater other (List.mem_of_getElem? isLater))]
        | succ gap =>
            have otherStep : Step.index position ≠ .index (position + (gap + 1)) := by
              rw [ne_eq, Step.index.injEq]
              omega
            have later := inductionHypothesis (position + 1) gap eachLater isThere
            rw [Nat.add_right_comm, Nat.add_assoc] at later
            rw [modifyElement?, later, Places.behind_only_other otherStep,
              without_none (each _ List.mem_cons_self)]
            rfl
  cases distinct with
  | leaf scalar => cases scalar
  | array each =>
      have all := fromPosition elements 0 index each here
      rw [Nat.zero_add] at all
      exact all

/-- Removing a location that is in the document. -/
theorem removeAt?_eq (distinct : document.HasDistinctNames) {location : Location}
    (notRoot : location ≠ []) {value : Json} (isThere : document.valueAt? location = some value) :
    removeAt? location document = some (document.without (Places.only location)) := by
  induction location generalizing document with
  | nil => exact absurd rfl notRoot
  | cons step rest inductionHypothesis =>
      rw [valueAt?, Option.bind_eq_bind, Option.bind_eq_some_iff] at isThere
      obtain ⟨next, isNext, isInside⟩ := isThere
      cases step with
      | key name =>
          cases document with
          | object members =>
              have here : members.lookup name = some next := isNext
              cases rest with
              | nil =>
                  rw [removeAt?, removeStep?, here, Option.isSome_some, if_pos rfl, without,
                    eraseMember_eq distinct]
              | cons other more =>
                  have nextDistinct : next.HasDistinctNames := by
                    cases distinct with
                    | leaf scalar => cases scalar
                    | object _ each => exact each _ (mem_of_lookup here)
                  have changed := inductionHypothesis nextDistinct (List.cons_ne_nil _ _) isInside
                  rw [removeAt?, modifyMember?_eq distinct here changed (List.cons_ne_nil _ _),
                    without]
                  rfl
          | _ => cases isNext
      | index position =>
          cases document with
          | array elements =>
              have here : elements[position]? = some next := isNext
              cases rest with
              | nil =>
                  have inRange := (List.getElem?_eq_some_iff.mp here).1
                  rw [removeAt?, removeStep?, if_pos inRange, without, eraseIdx_eq distinct]
              | cons other more =>
                  have nextDistinct : next.HasDistinctNames := by
                    cases distinct with
                    | leaf scalar => cases scalar
                    | array each => exact each _ (List.mem_of_getElem? here)
                  have changed := inductionHypothesis nextDistinct (List.cons_ne_nil _ _) isInside
                  rw [removeAt?, modifyElement?_eq distinct here changed (List.cons_ne_nil _ _),
                    without]
                  rfl
          | _ => cases isNext

/-- The places at some locations. -/
def placesOf (locations : List Location) : Places := fun place => decide (place ∈ locations)

/-- Removing locations from the last to the first. -/
theorem removeAll_eq (distinct : document.HasDistinctNames) {places : Places}
    {locations : List Location} (descending : locations.Pairwise Location.IsAfter)
    (notRoot : [] ∉ locations)
    (valid : ∀ location ∈ locations, (document.valueAt? location).isSome)
    (after : ∀ location ∈ locations, places.AreAfter location) :
    removeAll locations (document.without places) =
      (locations.length, document.without (places.union (placesOf locations))) := by
  induction locations generalizing places with
  | nil =>
      have same : places.union (placesOf []) = places := by
        funext place
        simp [Places.union, placesOf]
      rw [same]
      rfl
  | cons location rest inductionHypothesis =>
      rw [List.pairwise_cons] at descending
      have isAfter := after location List.mem_cons_self
      have isNotRoot : location ≠ [] := fun same => notRoot (same ▸ List.mem_cons_self)
      obtain ⟨value, isThere⟩ := Option.isSome_iff_exists.mp (valid location List.mem_cons_self)
      have stillThere : (document.without places).valueAt? location =
          some (value.without fun rest => places (location ++ rest)) := by
        rw [valueAt?_without isAfter.spare, isThere]
        rfl
      have removed := removeAt?_eq (distinct.without places) isNotRoot stillThere
      rw [without_without distinct isAfter.undisturbed] at removed
      have laterAfter : ∀ other ∈ rest, (places.union (Places.only location)).AreAfter other := by
        intro other isIn place isPlace
        rw [Places.union, Bool.or_eq_true] at isPlace
        rcases isPlace with old | new
        · exact after other (List.mem_cons_of_mem _ isIn) place old
        · rw [of_decide_eq_true new]
          exact descending.1 other isIn
      have later := inductionHypothesis descending.2 (fun isIn => notRoot (List.mem_cons_of_mem _ isIn))
        (fun other isIn => valid other (List.mem_cons_of_mem _ isIn)) laterAfter
      have same : (places.union (Places.only location)).union (placesOf rest) =
          places.union (placesOf (location :: rest)) := by
        funext place
        simp [Places.union, placesOf, Places.only, Bool.or_assoc]
      rw [removeAll, removed]
      simp only [later, same, List.length_cons]

/-- Removing locations in descending order leaves the document without the
places there. -/
theorem removeAll_descending (distinct : document.HasDistinctNames) {locations : List Location}
    (notRoot : [] ∉ locations)
    (valid : ∀ location ∈ locations, (document.valueAt? location).isSome) :
    removeAll (Location.descending locations) document =
      ((Location.descending locations).length, document.without (placesOf locations)) := by
  have all : removeAll (Location.descending locations) (document.without fun _ => false) =
      ((Location.descending locations).length, document.without
        (Places.union (fun _ => false) (placesOf (Location.descending locations)))) :=
    removeAll_eq distinct (Location.pairwise_descending locations)
      (fun isIn => notRoot (Location.mem_descending.mp isIn))
      (fun location isIn => valid location (Location.mem_descending.mp isIn))
      fun _ _ _ impossible => absurd impossible Bool.false_ne_true
  have same : Places.union (fun _ => false) (placesOf (Location.descending locations)) =
      placesOf locations := by
    funext place
    simp [Places.union, placesOf, Location.mem_descending]
  rw [without_none distinct, same] at all
  exact all

end Json

end BodyContract
