import BodyContract.Proofs.Chain.Branched
import BodyContract.Proofs.Chain.Demands
import BodyContract.Proofs.Chain.Ordered
import BodyContract.Proofs.Matcher.Pruning
import BodyContract.Proofs.Path.Steady

/-!
# A body satisfies what is left of it

What matchers leave of a body without arrays is cut from it: every value that is
left is in the body behind the same names.  So the body satisfies the chains of
what is left, as long as no object is left that has been emptied: such an object
is checked to be empty.
-/

namespace BodyContract

namespace Json

variable {document smaller value : Json} {places : Places}

/-! ## Cut documents -/

theorem at?_cons (name : String) (rest : List String) (document : Json) :
    document.at? (name :: rest) = (document.member? name).bind (at? rest) := rfl

theorem member?_without {name : String} (isThere : (document.without places).member? name = some value) :
    places [.key name] = false ∧ ∃ old, document.member? name = some old ∧
      value = old.without (places.behind (.key name)) := by
  cases document with
  | object members =>
      have found : (withoutMembers places members).lookup name = some value := isThere
      cases gone : places [.key name] with
      | true =>
          rw [lookup_withoutMembers_gone gone] at found
          cases found
      | false =>
          rw [lookup_withoutMembers gone, Option.map_eq_some_iff] at found
          obtain ⟨old, isOld, same⟩ := found
          exact ⟨rfl, old, isOld, same.symm⟩
  | _ => cases isThere

/-- What stands behind names when places have gone was there before. -/
theorem at?_without {names : List String} {part : Json}
    (isThere : (document.without places).at? names = some part) :
    ∃ whole, document.at? names = some whole ∧
      part = whole.without fun rest => places (names.map Step.key ++ rest) := by
  induction names generalizing document places with
  | nil =>
      cases isThere
      exact ⟨document, rfl, rfl⟩
  | cons name rest inductionHypothesis =>
      rw [at?_cons, Option.bind_eq_some_iff] at isThere
      obtain ⟨next, isNext, isInside⟩ := isThere
      obtain ⟨-, old, isOld, rfl⟩ := member?_without isNext
      obtain ⟨whole, isWhole, same⟩ := inductionHypothesis isInside
      refine ⟨whole, ?_, same⟩
      rw [at?_cons, isOld]
      exact isWhole

theorem isContainer_without : (document.without places).isContainer = document.isContainer := by
  cases document <;> rfl

theorem ArrayFree.without (arrayFree : document.ArrayFree) (places : Places) :
    (document.without places).ArrayFree := by
  induction arrayFree generalizing places with
  | leaf scalar =>
      rw [without_of_not_container scalar]
      exact .leaf scalar
  | object _ inductionHypothesis =>
      rw [Json.without]
      apply ArrayFree.object
      intro member isIn
      obtain ⟨value, isThere, -, same⟩ := mem_withoutMembers.mp isIn
      rw [same]
      exact inductionHypothesis _ isThere _

/-- Whether a document without arrays is cut from another one: behind the names
of a value that is no container the other one has the same value, and behind
those of an object it has an object. -/
structure IsCutFrom (smaller document : Json) : Prop where
  distinct : smaller.HasDistinctNames
  arrayFree : smaller.ArrayFree
  kept : ∀ names part, smaller.at? names = some part → ∃ whole, document.at? names = some whole ∧
    whole.isContainer = part.isContainer ∧ (part.isContainer = false → whole = part)

theorem isCutFrom_refl (distinct : document.HasDistinctNames) (arrayFree : document.ArrayFree) :
    document.IsCutFrom document :=
  ⟨distinct, arrayFree, fun _ part isThere => ⟨part, isThere, rfl, fun _ => rfl⟩⟩

theorem IsCutFrom.without (cut : smaller.IsCutFrom document) (places : Places) :
    (smaller.without places).IsCutFrom document := by
  refine ⟨cut.distinct.without places, cut.arrayFree.without places, ?_⟩
  intro names part isThere
  obtain ⟨middle, isMiddle, rfl⟩ := at?_without isThere
  obtain ⟨whole, isWhole, sameKind, same⟩ := cut.kept names middle isMiddle
  refine ⟨whole, isWhole, sameKind.trans isContainer_without.symm, ?_⟩
  intro scalar
  rw [isContainer_without] at scalar
  rw [without_of_not_container scalar]
  exact same scalar

theorem IsCutFrom.delete (cut : smaller.IsCutFrom document) {text : String} {count : Nat}
    {smallest : Json} (deleted : smaller.delete text = .ok (count, smallest)) :
    smallest.IsCutFrom document := by
  rw [Json.delete] at deleted
  obtain ⟨path, parsed, -⟩ := bind_eq_ok_iff.mp deleted
  obtain ⟨_, removed, -⟩ := delete_eq cut.distinct parsed
  rw [← Json.delete, removed] at deleted
  cases deleted
  exact cut.without _

end Json

/-! ## What is left by matchers -/

section

variable {property : Json → Prop}
  (deleted : ∀ {body smaller : Json} {text : String} {count : Nat}, property body →
    body.delete text = .ok (count, smaller) → property smaller)

include deleted

theorem pruneStep_induction {body : Json} (has : property body) (path : String) :
    property (pruneStep path body).1 := by
  have removed : ∀ target, property (removeContainer target body).1 := by
    intro target
    rw [removeContainer]
    cases isDeleted : body.delete target with
    | error _ => exact has
    | ok result => exact deleted has isDeleted
  have step := isStep_pruneStep path body
  generalize pruneStep path body = result at step ⊢
  cases step with
  | container _ _ _ => exact removed _
  | descent _ _ _ =>
      dsimp only
      split
      · rw [Json.deleteIfReadable]
        cases isDeleted : body.delete rootElements with
        | error _ => exact has
        | ok result => exact deleted has isDeleted
      · exact has
  | parent _ _ _ _ => exact removed _
  | nothing _ _ => exact has

theorem pruneAux_induction {body : Json} (has : property body) (fuel : Nat) (path : String) :
    property (pruneAux fuel path body) := by
  induction fuel generalizing body path with
  | zero =>
      rw [pruneAux]
      exact has
  | succ fuel inductionHypothesis =>
      have step := pruneStep_induction deleted has path
      rw [pruneAux]
      generalize pruneStep path body = result at step ⊢
      obtain ⟨smaller, next⟩ := result
      cases next with
      | none => exact step
      | some next => exact inductionHypothesis step next

theorem removeEach_induction {body : Json} (has : property body) (matchers : List Matcher) :
    property (Matcher.removeEach matchers body).2 := by
  induction matchers generalizing body with
  | nil => exact has
  | cons matcher rest inductionHypothesis =>
      rw [Matcher.removeEach]
      cases isDeleted : body.delete matcher.path with
      | error _ => exact inductionHypothesis has
      | ok result =>
          dsimp only
          rw [apply_ite Prod.snd, ite_self]
          exact inductionHypothesis (deleted has isDeleted)

/-- What every deletion preserves, stripping does. -/
theorem strip_induction {body : Json} (has : property body) (matchers : List Matcher) :
    property (Matcher.strip matchers body) := by
  have first := removeEach_induction deleted has matchers
  rw [Matcher.strip]
  generalize Matcher.removeEach matchers body = result at first ⊢
  obtain ⟨paths, rest⟩ := result
  dsimp only at first ⊢
  induction paths.mergeSort fun left right => right ≤ left generalizing rest with
  | nil => exact first
  | cons path others inductionHypothesis =>
      rw [List.foldl_cons]
      exact inductionHypothesis _ (pruneAux_induction deleted first _ path)

end

namespace Json

variable {names : String → Prop} {numbers : Number → Prop} {body left : Json}

theorem Plain.hasDistinctNames (plain : body.Plain names numbers) : body.HasDistinctNames := by
  induction plain with
  | array _ _ inductionHypothesis => exact .array inductionHypothesis
  | object _ distinct _ _ inductionHypothesis => exact .object distinct inductionHypothesis
  | _ => exact .leaf rfl

mutual

/-- Whether no value of a document is the marker of a placeholder. -/
def isUnmarked : Json → Bool
  | .array elements => areUnmarked elements
  | .object members => !(Json.object members).isMarker && areMembersUnmarked members
  | _ => true

/-- Whether no value in some elements is the marker of a placeholder. -/
def areUnmarked : List Json → Bool
  | [] => true
  | element :: rest => element.isUnmarked && areUnmarked rest

/-- Whether no value in some members is the marker of a placeholder. -/
def areMembersUnmarked : List (String × Json) → Bool
  | [] => true
  | (_, value) :: rest => value.isUnmarked && areMembersUnmarked rest

end

theorem isUnmarked_of_mem {members : List (String × Json)}
    (unmarked : areMembersUnmarked members = true) {member : String × Json}
    (isIn : member ∈ members) : member.2.isUnmarked = true := by
  induction members with
  | nil => exact absurd isIn List.not_mem_nil
  | cons first rest inductionHypothesis =>
      rw [areMembersUnmarked, Bool.and_eq_true] at unmarked
      rcases List.mem_cons.mp isIn with rfl | isLater
      · exact unmarked.1
      · exact inductionHypothesis unmarked.2 isLater

theorem isMarker_of_isUnmarked {members : List (String × Json)}
    (unmarked : (Json.object members).isUnmarked = true) :
    (Json.object members).isMarker = false := by
  rw [isUnmarked, Bool.and_eq_true, Bool.not_eq_true'] at unmarked
  exact unmarked.1

theorem at?_of_mem {members : List (String × Json)} (distinct : (members.map (·.1)).Nodup)
    {member : String × Json} (isIn : member ∈ members) (rest : List String) :
    (Json.object members).at? (member.1 :: rest) = member.2.at? rest := by
  rw [at?_cons, member?, lookup_of_mem distinct isIn]
  rfl

/-- What is cut from a plain body is plain if it has no markers. -/
theorem IsCutFrom.plain (cut : left.IsCutFrom body) (plain : body.Plain names numbers)
    (unmarked : left.isUnmarked = true) : left.Plain names numbers := by
  obtain ⟨distinct, arrayFree, kept⟩ := cut
  induction arrayFree generalizing body with
  | @leaf value scalar =>
      obtain ⟨whole, isWhole, -, same⟩ := kept [] value rfl
      cases isWhole
      rw [← same scalar]
      exact plain
  | @object members each inductionHypothesis =>
      have noMarker := isMarker_of_isUnmarked unmarked
      cases distinct with
      | leaf scalar => cases scalar
      | object distinct eachDistinct =>
          -- Every member is cut from the member of the body with its name.
          have inside : ∀ member ∈ members, ∃ old, body.member? member.1 = some old ∧
              ∀ rest part, member.2.at? rest = some part → ∃ whole, old.at? rest = some whole ∧
                whole.isContainer = part.isContainer ∧
                (part.isContainer = false → whole = part) := by
            intro member isIn
            have whole := fun rest part (isThere : member.2.at? rest = some part) =>
              kept (member.1 :: rest) part (by rw [at?_of_mem distinct isIn]; exact isThere)
            obtain ⟨old, isOld, -⟩ := whole [] member.2 rfl
            rw [at?_cons, Option.bind_eq_some_iff] at isOld
            obtain ⟨old, isMember, -⟩ := isOld
            refine ⟨old, isMember, ?_⟩
            intro rest part isThere
            obtain ⟨found, isFound, like⟩ := whole rest part isThere
            rw [at?_cons, isMember] at isFound
            exact ⟨found, isFound, like⟩
          have ofMember : ∀ {name : String} {old : Json}, body.member? name = some old →
              names name ∧ old.Plain names numbers := by
            intro name old isOld
            cases plain with
            | object _ _ allowed plain =>
                exact ⟨allowed _ (mem_of_lookup isOld), plain _ (mem_of_lookup isOld)⟩
            | _ => cases isOld
          apply Plain.object noMarker distinct
          · intro member isIn
            obtain ⟨old, isOld, -⟩ := inside member isIn
            exact (ofMember isOld).1
          · intro member isIn
            obtain ⟨old, isOld, cutMember⟩ := inside member isIn
            rw [isUnmarked, Bool.and_eq_true] at unmarked
            exact inductionHypothesis member isIn (ofMember isOld).2
              (isUnmarked_of_mem unmarked.2 isIn) (eachDistinct member isIn) cutMember

end Json

/-- What matchers leave is cut from the body. -/
theorem Matcher.isCutFrom_strip {body : Json} (distinct : body.HasDistinctNames)
    (arrayFree : body.ArrayFree) (matchers : List Matcher) :
    (Matcher.strip matchers body).IsCutFrom body :=
  @strip_induction (fun left => left.IsCutFrom body) (fun cut deleted => cut.delete deleted) body
    (Json.isCutFrom_refl distinct arrayFree) matchers

/-! ## The chains of what is left -/

/-- Whether an object is left empty behind names where something was before. -/
def Json.HasEmptied (left body : Json) (names : List String) : Prop :=
  left.at? names = some (.object []) ∧ body.at? names ≠ some (.object [])

namespace Chains

open Recorder

variable {inText : TextWalk} {isOrdered : Bool} {body : Json}

/-- The chains of a value hold in a body that has its scalars and its empty
objects behind the same names. -/
theorem yields_walk_at {value : Json} (arrayFree : value.ArrayFree)
    (plain : value.Plain KeepsBackslashes Number.ReadsBack) {key : Recorder} {front : List String}
    (stands : key.Stands (front.map fun name => [.member name]))
    (scalars : ∀ rest part, value.at? rest = some part → part.isContainer = false →
      body.at? (front ++ rest) = some part)
    (empties : ∀ rest, value.at? rest = some (.object []) →
      body.at? (front ++ rest) = some (.object [])) :
    Yields (fun chain => chain.Holds body) (walk inText isOrdered key value) := by
  have here : follow (front.map fun name => [Hop.member name]).flatten body =
      (body.at? front).toList := by
    rw [flatten_members, follow_members]
  induction arrayFree generalizing key front with
  | @leaf value scalar =>
      apply yields_walk_scalar_here stands plain scalar
      have isThere := scalars [] value rfl scalar
      rw [List.append_nil] at isThere
      rw [here, isThere]
      exact List.mem_singleton_self value
  | @object members each inductionHypothesis =>
      cases plain with
      | object noMarker distinct allowed plain =>
          rw [walk, noMarker, if_neg Bool.false_ne_true]
          cases members with
          | nil =>
              obtain ⟨chain, made, ends⟩ := isEmpty_ends stands.lenient
              have isThere := empties [] rfl
              rw [List.append_nil] at isThere
              rw [List.isEmpty_nil, if_pos rfl, made]
              apply yields_singleton
              rw [ends.isEmpty_holds_iff stands, here, isThere]
              intro found isFound
              rw [List.mem_singleton.mp isFound]
              rfl
          | cons first rest =>
              rw [List.isEmpty_cons, if_neg Bool.false_ne_true]
              apply yields_walkMembers
              intro member isIn
              have notArray : ∀ elements, member.2 ≠ .array elements := by
                intro elements same
                have inner := each member isIn
                rw [same] at inner
                cases inner with
                | leaf scalar => cases scalar
              have readable := allowed member isIn
              have next := stands.traverseField readable
              have longer : (front.map fun name => [Hop.member name]) ++ [[Hop.member member.1]] =
                  (front ++ [member.1]).map fun name => [Hop.member name] := by
                rw [List.map_append, List.map_singleton]
              rw [longer] at next
              refine ⟨key.traverseField member.1, ?_, ?_⟩
              · rw [entry]
                · exact notArray []
                · exact notArray
              · apply inductionHypothesis member isIn (plain member isIn) next
                · intro inner part isThere scalar
                  rw [List.append_assoc]
                  apply scalars _ part ?_ scalar
                  rw [List.singleton_append, Json.at?_of_mem distinct isIn]
                  exact isThere
                · intro inner isThere
                  rw [List.append_assoc]
                  apply empties
                  rw [List.singleton_append, Json.at?_of_mem distinct isIn]
                  exact isThere
                · rw [flatten_members, follow_members]

/-- All chains for an object that is cut from a body hold in it if no object has
been emptied. -/
theorem yields_emitted_cut {options : ChainOptions} (bracketed : options.style = .bracketed)
    {left : Json} (cut : left.IsCutFrom body) (container : left.isContainer = true)
    (plain : left.Plain KeepsBackslashes Number.ReadsBack)
    (filled : ∀ names, left.HasEmptied body names → names = [] ∧ options.checksEmptyBody = false) :
    Yields (fun chain => chain.Holds body) (emitted options left) := by
  have sameEmpties : ∀ names, (names ≠ [] ∨ options.checksEmptyBody = true) →
      left.at? names = some (.object []) → body.at? names = some (.object []) := by
    intro names checked isThere
    by_contra changed
    obtain ⟨isRoot, unchecked⟩ := filled names ⟨isThere, changed⟩
    rcases checked with notRoot | checked
    · exact notRoot isRoot
    · rw [unchecked] at checked
      cases checked
  have arrayFree := cut.arrayFree
  cases arrayFree with
  | leaf scalar =>
      rw [scalar] at container
      cases container
  | @object members _ =>
      cases members with
      | nil =>
          rw [emitted_of_ne_null Json.noConfusion]
          have blank : (Json.object []).isBlankBody = true := rfl
          rw [blank, Bool.not_true, if_neg Bool.false_ne_true]
          by_cases checked : options.checksEmptyBody = true
          · obtain ⟨chain, made, ends⟩ := isEmpty_ends (stands_root (.object [])).lenient
            rw [if_pos checked, root, bracketed, documentOf_of_isContainer rfl, made]
            apply yields_singleton
            rw [ends.isEmpty_holds_iff (stands_root (.object []))]
            intro value isThere
            have isRoot := sameEmpties [] (Or.inr checked) rfl
            cases isRoot
            rw [List.flatten_nil, follow_nil, List.mem_singleton] at isThere
            rw [isThere]
            rfl
          · rw [if_neg checked]
            exact yields_nil
      | cons first rest =>
          rw [emitted_members plain.isMarker_eq_false (List.cons_ne_nil _ _),
            ← walk_members plain.isMarker_eq_false (List.cons_ne_nil _ _), root, bracketed]
          have stands : (ofAsserter (Asserter.ofDocument (.object (first :: rest))).lenient
              .bracketed).Stands (([] : List String).map fun name => [Hop.member name]) :=
            stands_root _
          apply yields_walk_at cut.arrayFree plain stands
          · intro names part isThere scalar
            obtain ⟨whole, isWhole, -, same⟩ := cut.kept names part isThere
            rw [List.nil_append, isWhole, same scalar]
          · intro names isThere
            rw [List.nil_append]
            apply sameEmpties names (Or.inl ?_) isThere
            rintro rfl
            cases isThere

end Chains

namespace Verifier

/-- A body satisfies the chains of what matchers leave of it if no object is
emptied, but for the root where it is not checked. -/
theorem verify_strip_of_filled {verifier : Verifier} (bracketed : verifier.usesBrackets = true)
    {body : Json} (container : body.isContainer = true) (arrayFree : body.ArrayFree)
    (plain : body.Plain HasNoBackslash Number.IsWhole) {matchers : List Matcher}
    (unmarked : (Matcher.strip matchers body).isUnmarked = true)
    (filled : ∀ names, (Matcher.strip matchers body).HasEmptied body names →
      names = [] ∧ verifier.checksEmptyBody = false) :
    ∃ chains, verifier.chains (Matcher.strip matchers body) = .ok chains ∧
      chains.verify body = .ok () := by
  have style : verifier.chainOptions.style = .bracketed := by
    rw [chainOptions, bracketed]
    rfl
  have readable := plain.mono (fun _ => keepsBackslashes_of_hasNoBackslash)
    (fun _ => Number.readsBack_of_isWhole)
  have cut := Matcher.isCutFrom_strip plain.hasDistinctNames arrayFree matchers
  have containerLeft : (Matcher.strip matchers body).isContainer = true := by
    obtain ⟨whole, isWhole, sameKind, -⟩ := cut.kept [] _ rfl
    cases isWhole
    exact sameKind.symm.trans container
  obtain ⟨recorded, made, holds⟩ := Chains.yields_emitted_cut style cut containerLeft
    (cut.plain readable unmarked) filled
  refine ⟨.ofList recorded, ?_, Chains.verify_ofList holds⟩
  rw [Verifier.chains, Chains.ofBody_eq_emitted, made]
  rfl

end Verifier

end BodyContract
