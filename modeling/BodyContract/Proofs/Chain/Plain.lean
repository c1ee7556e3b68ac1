import BodyContract.Chain.OfBody
import BodyContract.Proofs.Path.Selection

/-!
# Bodies without markers

A plain body has no marker of a placeholder and no text that holds an object.
Which names and numbers it may have is left open:

* `keepsBackslashes` and `Number.ReadsBack` are what paths and filters need;
* `HasNoBackslash` and `Number.IsWhole` are stricter and easier to see.
-/

namespace BodyContract

namespace Number

/-- Whether the literal of a number in a filter is read as a number of the same
value. -/
def ReadsBack (number : Number) : Prop :=
  ∃ other, Json.readNumber? number.text = some (.number other, []) ∧
    number.compare other = .eq

/-- Whether a number is whole and fits into 64 bits, with or without a sign. -/
def IsWhole : Number → Prop
  | .int value => fits value = true
  | .float _ => False

theorem compare_int_self (value : Int) : (Number.int value).compare (.int value) = .eq := by
  rw [compare]
  exact Std.ReflCmp.compare_self

theorem readsBack_of_isWhole {number : Number} (whole : number.IsWhole) : number.ReadsBack := by
  cases number with
  | float value => exact absurd whole id
  | int value =>
      refine ⟨.int value, ?_, compare_int_self value⟩
      have read := Json.readNumber?_int whole (stopsAt_nil _)
      rw [List.append_nil] at read
      exact read

end Number

/-- Whether a name has no backslash. -/
def HasNoBackslash (name : String) : Prop := '\\' ∉ name.toList

/-- Whether a name survives being quoted in a path. -/
def KeepsBackslashes (name : String) : Prop := Path.keepsBackslashes name.toList = true

theorem keepsBackslashes_of_hasNoBackslash {name : String} (none : HasNoBackslash name) :
    KeepsBackslashes name :=
  Path.keepsBackslashes_of_notMem none

namespace Json

/-- Bodies without markers and without texts that hold objects.  As in every
body that is kept in memory, the names in an object are distinct and an array
is no longer than 63 bits can count. -/
inductive Plain (names : String → Prop) (numbers : Number → Prop) : Json → Prop where
  | null : Plain names numbers .null
  | bool (flag : Bool) : Plain names numbers (.bool flag)
  | number {number : Number} (allowed : numbers number) : Plain names numbers (.number number)
  | string {text : String} (noObject : membersInText? text = none) :
      Plain names numbers (.string text)
  | array {elements : List Json} (short : elements.length < twoTo 63)
      (plain : ∀ element ∈ elements, Plain names numbers element) :
      Plain names numbers (.array elements)
  | object {members : List (String × Json)} (noMarker : (Json.object members).isMarker = false)
      (distinct : (members.map (·.1)).Nodup) (allowed : ∀ member ∈ members, names member.1)
      (plain : ∀ member ∈ members, Plain names numbers member.2) :
      Plain names numbers (.object members)

theorem Plain.mono {names otherNames : String → Prop} {numbers otherNumbers : Number → Prop}
    (namesToo : ∀ name, names name → otherNames name)
    (numbersToo : ∀ number, numbers number → otherNumbers number) {value : Json}
    (plain : value.Plain names numbers) : value.Plain otherNames otherNumbers := by
  induction plain with
  | null => exact .null
  | bool flag => exact .bool flag
  | number allowed => exact .number (numbersToo _ allowed)
  | string noObject => exact .string noObject
  | array short _ inductionHypothesis => exact .array short inductionHypothesis
  | object noMarker distinct allowed _ inductionHypothesis =>
      exact .object noMarker distinct (fun member isIn => namesToo _ (allowed member isIn))
        inductionHypothesis

theorem markedPattern?_eq_none_iff {value : Json} :
    Placeholder.markedPattern? value = none ↔ value.isMarker = false := by
  rw [isMarker, Option.isSome_eq_false_iff, Option.isNone_iff_eq_none]

theorem isMarker_of_markedPattern? {value : Json} {pattern : String}
    (marked : Placeholder.markedPattern? value = some pattern) : value.isMarker = true := by
  rw [isMarker, marked]
  rfl

section

variable {names : String → Prop} {numbers : Number → Prop} {value : Json}

theorem Plain.isMarker_eq_false (plain : value.Plain names numbers) : value.isMarker = false := by
  cases plain with
  | object noMarker _ _ _ => exact noMarker
  | null => rfl
  | bool flag => rfl
  | number allowed => rfl
  | string noObject => rfl
  | array short elements => rfl

theorem Plain.markedPattern?_eq_none (plain : value.Plain names numbers) :
    Placeholder.markedPattern? value = none :=
  markedPattern?_eq_none_iff.mpr plain.isMarker_eq_false

/-- A simple value of a plain body is no container. -/
theorem Plain.isContainer_of_isSimple (plain : value.Plain names numbers)
    (simple : value.isSimple = true) : value.isContainer = false := by
  cases plain with
  | object noMarker _ _ _ =>
      rw [isSimple, noMarker] at simple
      · cases simple
      all_goals exact fun _ => Json.noConfusion
  | array _ _ => cases simple
  | null => rfl
  | bool flag => rfl
  | number allowed => rfl
  | string noObject => rfl

/-- The literal of a plain value that is no container is read as an equal one. -/
theorem Plain.literalReads (plain : value.Plain names Number.ReadsBack)
    (scalar : value.isContainer = false) :
    ∃ read, Path.LiteralReads value read ∧ value.equalsInFilter read = true := by
  cases plain with
  | null => exact ⟨_, .null, rfl⟩
  | bool flag => exact ⟨_, .bool flag, by simp [equalsInFilter, same]⟩
  | number allowed =>
      obtain ⟨other, read, equal⟩ := allowed
      exact ⟨_, .number read, by simp [equalsInFilter, equal]⟩
  | string noObject => exact ⟨_, .string _, by simp [equalsInFilter, same]⟩
  | array _ _ => cases scalar
  | object _ _ _ _ => cases scalar

end

theorem lookup_of_mem {members : List (String × Json)} (distinct : (members.map (·.1)).Nodup)
    {name : String} {value : Json} (member : (name, value) ∈ members) :
    members.lookup name = some value := by
  induction members with
  | nil => exact absurd member List.not_mem_nil
  | cons first rest inductionHypothesis =>
      obtain ⟨firstName, firstValue⟩ := first
      rw [List.map_cons, List.nodup_cons] at distinct
      rcases List.mem_cons.mp member with same | later
      · cases same
        rw [List.lookup_cons_self]
      · have other : (name == firstName) = false := by
          rw [beq_eq_false_iff_ne]
          rintro rfl
          exact distinct.1 (List.mem_map.mpr ⟨_, later, rfl⟩)
        rw [List.lookup_cons, other]
        exact inductionHypothesis distinct.2 later

end Json

end BodyContract
