import Mathlib.Data.Finset.Card
import BodyContract.Matcher.Removal
import BodyContract.Proofs.Path.Places

/-!
# Deleting what a path selects

However the values that a path selects lie in each other and behind each other,
deleting removes exactly them with what is inside, and counts each place once.
The root is not removed, and a path that cannot be read removes nothing.
-/

namespace BodyContract

namespace Location

theorem isAfter_irrefl (location : Location) : ¬ location.IsAfter location := by
  rw [IsAfter, notAfter_refl, Bool.true_eq_false]
  exact id

theorem nodup_descending (locations : List Location) : (descending locations).Nodup := by
  apply (pairwise_descending locations).imp
  rintro location other isAfter rfl
  exact isAfter_irrefl location isAfter

/-- Put in order, each location is there once. -/
theorem length_descending (locations : List Location) :
    (descending locations).length = locations.toFinset.card := by
  rw [← List.toFinset_card_of_nodup (nodup_descending locations)]
  congr 1
  ext location
  rw [List.mem_toFinset, List.mem_toFinset, mem_descending]

end Location

/-- Deleting fails where the path cannot be read, and nothing changes then.  Otherwise it
counts the places other than the root that the path has in the document, and leaves the
document without them. -/
theorem Json.delete_removes_places (document : Json) (distinct : document.HasDistinctNames)
    (text : String) :
    (∀ problem, Path.parse text = .error problem →
      document.delete text = .error problem ∧ document.deleteIfReadable text = document) ∧
      ∀ path, Path.parse text = .ok path →
        document.delete text =
            .ok (((path.locate document).filter (· ≠ [])).toFinset.card,
              document.without (path.removed document)) ∧
          ∀ location, path.removed document location = true ↔
            location ∈ path.locate document ∧ location ≠ [] := by
  constructor
  · intro problem unread
    have fails : document.delete text = .error problem := by
      rw [delete, unread]
      rfl
    refine ⟨fails, ?_⟩
    rw [deleteIfReadable, fails]
  · intro path read
    have sameFilter : (path.locate document).filter (fun location => !location.isEmpty) =
        (path.locate document).filter (· ≠ []) := by
      apply List.filter_congr
      intro location _
      cases location <;> rfl
    refine ⟨?_, fun location => Path.removed_eq_true_iff⟩
    rw [delete_of_parse distinct read, sameFilter, Location.length_descending]

/-- Texts in lists that lie in each other. -/
def nestedTexts : Json :=
  .object [("a", .array [.string "x", .string "y", .array [.string "z", .string "y"],
    .string "y"]), ("b", .string "y")]

/-- All texts but one, wherever they are, and the lists with them. -/
def otherTexts : Path :=
  ⟨"$..*[?(@ != 'y')]", [.descendants none,
    .filter (.compares (.current [] false) .notEqual (.literal (.string "y")))]⟩

theorem nestedTexts_distinct : nestedTexts.HasDistinctNames := by
  have text : ∀ text : String, (Json.string text).HasDistinctNames := fun _ => .leaf rfl
  have inner : (Json.array [.string "z", .string "y"]).HasDistinctNames := by
    apply Json.HasDistinctNames.array
    simp [text]
  have list : (Json.array [.string "x", .string "y", .array [.string "z", .string "y"],
      .string "y"]).HasDistinctNames := by
    apply Json.HasDistinctNames.array
    simp [text, inner]
  apply Json.HasDistinctNames.object
  · decide
  · simp [text, list]

/-- Among the places are an element and one inside of it, two elements of one list, and
some that are selected more than once. -/
theorem delete_removes_otherTexts :
    nestedTexts.HasDistinctNames ∧ Path.parse otherTexts.text = .ok otherTexts ∧
      (otherTexts.locate nestedTexts).length = 5 ∧
      nestedTexts.delete otherTexts.text =
        .ok (3, .object [("a", .array [.string "y", .string "y"]), ("b", .string "y")]) := by
  have read : Path.parse otherTexts.text = .ok otherTexts := by cbv
  have count : ((otherTexts.locate nestedTexts).filter (· ≠ [])).toFinset.card = 3 := by
    decide +kernel
  have left : nestedTexts.without (otherTexts.removed nestedTexts) =
      .object [("a", .array [.string "y", .string "y"]), ("b", .string "y")] := by rfl
  have deleted := ((Json.delete_removes_places nestedTexts nestedTexts_distinct
    otherTexts.text).2 otherTexts read).1
  rw [count, left] at deleted
  exact ⟨nestedTexts_distinct, read, by decide +kernel, deleted⟩

end BodyContract
