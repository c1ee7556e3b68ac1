import BodyContract.Proofs.Assertion.Following
import BodyContract.Proofs.Path.Wrapping
import BodyContract.Proofs.Recording.Checks

/-!
# Members that their names reach

A recorder writes a name twice: as a step of a path and inside a filter.  A wrapped name
is read back in both places exactly if it keeps its backslashes, and then a check
speaks of the member of this name and of no other one.
-/

namespace BodyContract

theorem Json.equalsInFilter_self {value : Json} (exact : value.isExactLiteral = true) :
    value.equalsInFilter value = true := by
  cases value with
  | null => rfl
  | bool flag => exact beq_self_eq_true flag
  | string text => exact beq_self_eq_true text
  | number number =>
      cases number with
      | int value =>
          rw [equalsInFilter, Number.compare]
          exact beq_iff_eq.mpr Std.ReflCmp.compare_self
      | float value => cases exact
  | array elements => cases exact
  | object members => cases exact

theorem Json.isContainer_of_isExactLiteral {value : Json} (exact : value.isExactLiteral = true) :
    value.isContainer = false := by
  cases value with
  | array elements => cases exact
  | object members => cases exact
  | null => rfl
  | bool flag => rfl
  | number number => rfl
  | string text => rfl

theorem Asserter.check_of_parse_error {asserter : Asserter} (strict : asserter.isStrict = true)
    {problem : PathError} (failed : Path.parse asserter.path = .error problem) :
    asserter.check = .error (.invalidPath problem) := by
  rw [check, checkPath, strict, matched, failed]
  rfl

namespace Recorder

/-- The beginning of a record, with checks, at an object. -/
def ofObject (members : List (String × Json)) : Recorder :=
  ofAsserter (Asserter.ofDocument (.object members)) .bracketed

/-- The values at the path of a record. -/
def selected (recorder : Recorder) : Except AssertionError (List Json) :=
  recorder.delegate.matched recorder.path

/-- Asking for a value changes nothing if there is one. -/
theorem isPresent_of_selected {key : Recorder} (strict : key.delegate.isStrict = true)
    {values : List Json} (selects : key.selected = .ok values) :
    (values ≠ [] → ∃ checked, key.isPresent = .ok checked ∧ checked.selected = .ok values) ∧
      (values = [] → key.isPresent = .error (.noMatch key.path key.delegate.document)) := by
  have matched : key.delegate.finished.matched key.delegate.finished.path = .ok values := selects
  have strictToo : key.delegate.finished.isStrict = true := strict
  rw [isPresent, Asserter.isPresent, Asserter.check, Asserter.checkPath, strictToo, matched]
  cases values with
  | nil => exact ⟨fun filled => absurd rfl filled, fun _ => rfl⟩
  | cons value others => exact ⟨fun _ => ⟨_, rfl, selects⟩, fun empty => by cases empty⟩

/-- An equality behind a name holds exactly if the member of this name has the value. -/
theorem field_isEqualTo_ok_iff {name : String} (members : List (String × Json))
    (readable : Path.keepsBackslashes name.toList = true) {value : Json}
    (exact : value.isExactLiteral = true) :
    (∃ checked, ((ofObject members).field name).isEqualTo value = .ok checked) ↔
      ∃ member, members.lookup name = some member ∧ member.equalsInFilter value = true := by
  have stands := (stands_root (.object members)).traverseField readable
  have condition := stands.equality_check_ok_iff (conditionHops_field [] [Hop.member name])
    (Asserter.literalReads_of_isExactLiteral exact) (.object members)
  have found : Finds [] [.member name] value (.object members) ↔
      ∃ member, members.lookup name = some member ∧ member.equalsInFilter value = true := by
    simp [Finds, Json.items, follow_singleton, Hop.next, Json.member?]
  rw [isEqualTo_ok_iff (Json.isContainer_of_isExactLiteral exact)]
  exact condition.trans found

/-- The elements behind a name are those of the member of this name. -/
theorem selected_array {name : String} {members : List (String × Json)}
    (readable : Path.keepsBackslashes name.toList = true) {elements : List Json}
    (isThere : members.lookup name = some (.array elements)) :
    ((ofObject members).array name).selected = .ok elements := by
  have stands := (stands_root (.object members)).array readable
  have matched := stands.matched (.object members)
  have hops : [[Hop.member name, .every]].flatten = [.member name] ++ [.every] := rfl
  have here : follow [.member name] (.object members) = [.array elements] :=
    follow_member (follow_nil _) isThere
  rw [List.nil_append, hops, follow_every here] at matched
  exact matched

/-- A name is read back from its wrapping exactly if it keeps its backslashes.  Then an
equality with a value behind the name says what the member of this name is, so it holds
of its own value, and asking for the elements of an array of this name selects them all,
in their order.  Without an element there is no value to ask for. -/
theorem bracketed_reaches_member (name : String) :
    (Path.parse ("$." ++ NameStyle.bracketed.wrap name) =
        .ok ⟨"$." ++ NameStyle.bracketed.wrap name, [.child name]⟩ ↔
      Path.keepsBackslashes name.toList = true) ∧
    (Path.keepsBackslashes name.toList = true → ∀ members : List (String × Json),
      (∀ value : Json, value.isExactLiteral = true →
        ((∃ checked, ((ofObject members).field name).isEqualTo value = .ok checked) ↔
          ∃ member, members.lookup name = some member ∧ member.equalsInFilter value = true) ∧
        (members.lookup name = some value →
          ∃ checked, ((ofObject members).field name).isEqualTo value = .ok checked)) ∧
      (∀ elements : List Json, members.lookup name = some (.array elements) →
        ((ofObject members).array name).selected = .ok elements ∧
        (elements ≠ [] → ∃ checked, ((ofObject members).array name).isPresent = .ok checked ∧
          checked.selected = .ok elements) ∧
        (elements = [] → ((ofObject members).array name).isPresent =
          .error (.noMatch ((ofObject members).array name).path (.object members))))) := by
  refine ⟨Path.parse_wrap_iff name, fun readable members => ⟨fun value exact => ?_,
    fun elements isThere => ?_⟩⟩
  · have reaches := field_isEqualTo_ok_iff members readable exact
    refine ⟨reaches, fun isThere => reaches.mpr ⟨value, isThere, ?_⟩⟩
    exact Json.equalsInFilter_self exact
  · have selects := selected_array readable isThere
    exact ⟨selects, isPresent_of_selected rfl selects⟩

/-- A name with quotes of both kinds, dots, brackets and a backslash in front of a letter. -/
def rawName : String := "it's \"a.b\"[-1]\\n"

theorem rawName_reaches_member :
    Path.keepsBackslashes rawName.toList = true ∧
    (∃ checked, ((ofObject [(rawName, .string "\\'")]).field rawName).isEqualTo (.string "\\'") =
      .ok checked) ∧
    ((ofObject [(rawName, .array [.null, .bool true])]).array rawName).selected =
      .ok [.null, .bool true] := by
  have readable : Path.keepsBackslashes rawName.toList = true := by decide +kernel
  have reaches := (bracketed_reaches_member rawName).2 readable
  have isText : [(rawName, Json.string "\\'")].lookup rawName = some (.string "\\'") := by
    rw [List.lookup_cons_self]
  have isArray : [(rawName, Json.array [.null, .bool true])].lookup rawName =
      some (.array [.null, .bool true]) := by
    rw [List.lookup_cons_self]
  exact ⟨readable, ((reaches _).1 _ rfl).2 isText, ((reaches _).2 _ isArray).1⟩

/-- A backslash at the end of a name takes the closing quote along, so the path of the name
cannot be read, neither in a filter nor alone. -/
theorem backslashAtEnd_not_reached :
    (∃ failure, ((ofObject [("a\\", .int 1)]).field "a\\").isEqualTo (.int 1) =
      .error failure) ∧
    ∃ failure, ((ofObject [("a\\", .array [.int 1])]).array "a\\").isPresent =
      .error failure := by
  constructor
  · have path : (((ofObject [("a\\", .int 1)]).field "a\\").delegate.withCondition "=="
        (Json.int 1).filterLiteral).path = "$[?(@.['a\\'] == 1)]" := by decide +kernel
    obtain ⟨problem, failed⟩ : ∃ problem, Path.parse "$[?(@.['a\\'] == 1)]" = .error problem :=
      ⟨_, by cbv⟩
    rw [← path] at failed
    exact ⟨_, isEqualTo_of_check_error rfl (Asserter.check_of_parse_error rfl failed)⟩
  · have path : ((ofObject [("a\\", .array [.int 1])]).array "a\\").delegate.finished.path =
        "$.['a\\'][*]" := by decide +kernel
    obtain ⟨problem, failed⟩ : ∃ problem, Path.parse "$.['a\\'][*]" = .error problem :=
      ⟨_, by cbv⟩
    rw [← path] at failed
    refine ⟨.invalidPath problem, ?_⟩
    rw [isPresent, Asserter.isPresent, Asserter.check_of_parse_error rfl failed]
    rfl

end Recorder

end BodyContract
