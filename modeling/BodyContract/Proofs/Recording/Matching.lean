import BodyContract.Proofs.Path.Matching
import BodyContract.Proofs.Path.Pieces
import BodyContract.Proofs.Recording.Checks

/-!
# What a recorded match says

A chain that ends in a match of a pattern holds on a document exactly if the
condition behind its hops finds a value there whose text the expression matches
that the path holds for the pattern.
-/

namespace BodyContract

/-- The steps of single hops lead to what the hops lead to. -/
theorem toList_behind? {hops : List Hop} (single : AreSingle hops) (value : Json) :
    (Json.behind? (hops.map Hop.segment) value).toList = follow hops value := by
  have bySteps := map_value_selectAll_definite (areDefinite_map_segment single) value [⟨[], value⟩]
  have byHops := map_value_selectAll value hops [⟨[], value⟩]
  rw [List.flatMap_singleton] at bySteps
  rw [List.map_cons, List.map_nil, List.flatMap_singleton] at byHops
  rw [← bySteps, ← byHops]

/-- A path with a matching condition selects something exactly if the condition
finds a text that matches. -/
theorem evaluate_hops_matching_ne_nil_iff (text : String) (hops : List Hop) {inside : List Hop}
    (single : AreSingle inside) (regex : FullMatch) (document : Json) :
    (Path.mk text (hops.map Hop.segment ++ [.filter (Path.comparisonOf inside .matching
        (.regex regex))])).evaluate document ≠ [] ↔
      FindsSome hops inside (Json.matchesText regex) document := by
  have condition : Path.comparisonOf inside .matching (.regex regex) =
      Path.matchingCondition (inside.map Hop.segment) regex := rfl
  have selects := evaluate_matching_ne_nil_iff (areDefinite_map_segment single) text
    ⟨text, hops.map Hop.segment⟩ regex document
  rw [condition, selects, evaluate_hops]
  simp only [FindsSome, ← toList_behind? single, Option.mem_toList]

namespace Recorder

/-- Recording that a value matches a pattern. -/
theorem matching_ends {key : Recorder} (lenient : key.delegate.isStrict = false)
    (pattern : String) :
    ∃ chain, key.matching pattern = .ok chain ∧ chain.Ends key [.matching pattern] := by
  have focus := focus_withCondition key.delegate "=~" ("/" ++ escapeSlashes pattern ++ "/")
  have made : key.delegate.matching pattern =
      .ok (key.delegate.withCondition "=~" ("/" ++ escapeSlashes pattern ++ "/")) := by
    refine Asserter.check_of_lenient ?_
    rw [isStrict_withCondition]
    exact lenient
  rw [matching, made]
  simp only [bind, Except.bind]
  split <;> exact ⟨_, rfl, rfl, rfl, focus⟩

/-- A recorded match holds where a text is found that matches. -/
theorem Ends.matching_holds_iff {chain key : Recorder} {pattern : String}
    (ends : chain.Ends key [.matching pattern]) {pieces : List (List Hop)}
    (stands : key.Stands pieces) {front inside : List Hop}
    (hops : conditionHops key.delegate.focus pieces = (front, inside)) {regex : FullMatch}
    (isWhole : Path.wholeMatch? pattern = some regex) (document : Json) :
    chain.Holds document ↔ FindsSome front inside (Json.matchesText regex) document := by
  obtain ⟨whole, named, path⟩ := stands.path_withCondition hops
  have readable := stands.flatten_readable
  rw [← whole] at readable
  have leads : Path.LeadsOn (Path.comparisonText inside Comparison.matching.sign
      ("/" ++ escapeSlashes pattern ++ "/"))
        [.filter (Path.comparisonOf inside .matching (.regex regex))] :=
    Path.leadsOn_comparison (fun hop member => readable hop (List.mem_append_right front member))
      (Path.readsAs_regex isWhole) fun _ => ⟨regex, rfl⟩
  have parsed := Path.parse_append
    (Path.parse_hops fun hop member => readable hop (List.mem_append_left inside member))
    leads.ends leads.read
  rw [← String.toList_append, String.ofList_toList] at parsed
  have same : Path.pathText front ++ Path.comparisonText inside Comparison.matching.sign
      ("/" ++ escapeSlashes pattern ++ "/") = ((key.delegate.strictOn document).withCondition "=~"
        ("/" ++ escapeSlashes pattern ++ "/")).path :=
    (path document "=~" ("/" ++ escapeSlashes pattern ++ "/")).symm
  rw [same] at parsed
  have strict : ((key.delegate.strictOn document).withCondition "=~"
      ("/" ++ escapeSlashes pattern ++ "/")).isStrict = true := by
    rw [isStrict_withCondition]
    rfl
  rw [ends.holds_iff stands, applyAll_singleton, Call.apply, Asserter.matching,
    Asserter.check_ok_iff strict parsed, document_withCondition]
  exact evaluate_hops_matching_ne_nil_iff _ front named.areSingle regex document

end Recorder

end BodyContract
