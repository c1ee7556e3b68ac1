import Mathlib.Data.List.Infix
import BodyContract.Text.Search

/-!
# Looking for a text

A text stands in another one if that one is it with something in front and behind.
What is looked for is found in a text with escapes exactly if it is found in the text
that they are written for, as long as none of its own characters is escaped and no
escape holds its beginning.
-/

namespace BodyContract

theorem hasInfix_iff {needle text : List Char} :
    hasInfix needle text = true ↔ needle <:+: text := by
  induction text with
  | nil => rw [hasInfix, List.isEmpty_iff, List.infix_nil]
  | cons c rest inductionHypothesis =>
      rw [hasInfix, Bool.or_eq_true, List.isPrefixOf_iff_prefix, inductionHypothesis,
        List.infix_cons_iff]

theorem containsText_iff {text needle : String} :
    containsText text needle = true ↔ needle.toList <:+: text.toList := hasInfix_iff

/-! ## Parts of a text -/

section Parts

variable {needle : List Char}

/-- A text begins in front of a character that it has not. -/
theorem prefix_append_cons_iff {separator : Char} (absent : separator ∉ needle)
    (front back : List Char) : needle <+: front ++ separator :: back ↔ needle <+: front := by
  induction front generalizing needle with
  | nil =>
      cases needle with
      | nil => simp
      | cons c others =>
          rw [List.mem_cons, not_or] at absent
          rw [List.nil_append, List.cons_prefix_cons, List.prefix_nil]
          exact iff_of_false (fun begins => absent.1 begins.1.symm) (List.cons_ne_nil c others)
  | cons d rest inductionHypothesis =>
      cases needle with
      | nil => simp
      | cons c others =>
          rw [List.mem_cons, not_or] at absent
          rw [List.cons_append, List.cons_prefix_cons, List.cons_prefix_cons,
            inductionHypothesis absent.2]

/-- A text stands on one side of a character that it has not. -/
theorem infix_append_separator_iff {separator : Char} (absent : separator ∉ needle)
    (front back : List Char) :
    needle <:+: front ++ separator :: back ↔ needle <:+: front ∨ needle <:+: back := by
  induction front with
  | nil =>
      cases needle with
      | nil => simp
      | cons c others =>
          rw [List.mem_cons, not_or] at absent
          rw [List.nil_append, List.infix_cons_iff, List.cons_prefix_cons, List.infix_nil]
          have noBeginning : ¬ (c = separator ∧ others <+: back) :=
            fun begins => absent.1 begins.1.symm
          exact or_congr_left (iff_of_false noBeginning (List.cons_ne_nil c others))
  | cons d rest inductionHypothesis =>
      rw [List.cons_append, List.infix_cons_iff, inductionHypothesis, ← List.cons_append,
        prefix_append_cons_iff absent, List.infix_cons_iff, or_assoc]

variable {first : Char} {others : List Char}

/-- A text is not found where its first character is missing. -/
theorem infix_append_iff_of_notMem {front : List Char} (absent : first ∉ front)
    (text : List Char) : first :: others <:+: front ++ text ↔ first :: others <:+: text := by
  induction front with
  | nil => rfl
  | cons c rest inductionHypothesis =>
      rw [List.mem_cons, not_or] at absent
      rw [List.cons_append, List.infix_cons_iff, List.cons_prefix_cons,
        inductionHypothesis absent.2]
      exact or_iff_right fun begins => absent.1 begins.1

/-- A text with its first character nowhere else begins where that character stands. -/
theorem infix_append_cons_iff (once : first ∉ others) (front back : List Char) :
    first :: others <:+: front ++ first :: back ↔
      first :: others <:+: front ∨ first :: others <:+: first :: back := by
  induction front with
  | nil => simp
  | cons c rest inductionHypothesis =>
      rw [List.cons_append, List.infix_cons_iff, List.cons_prefix_cons,
        prefix_append_cons_iff once, inductionHypothesis, ← List.cons_prefix_cons, ← or_assoc,
        ← List.infix_cons_iff]

end Parts

/-! ## Escaped texts -/

/-- Whether a code escapes no character of a text, and the text begins inside no escape. -/
structure LeavesAlone (code : Char → List Char) (first : Char) (others : List Char) : Prop where
  noBackslash : '\\' ∉ first :: others
  kept : ∀ c ∈ first :: others, code c = [c]
  each : ∀ c, code c = [c] ∨ ∃ tail, code c = '\\' :: tail ∧ first ∉ tail

section Escaped

variable {code : Char → List Char} {first : Char} {others : List Char}

theorem prefix_flatMap_iff (leaves : LeavesAlone code first others) {needle : List Char}
    (part : ∀ c ∈ needle, c ∈ first :: others) (text : List Char) :
    needle <+: text.flatMap code ↔ needle <+: text := by
  induction text generalizing needle with
  | nil => rfl
  | cons d rest inductionHypothesis =>
      cases needle with
      | nil => simp
      | cons c more =>
          have isPart := part c List.mem_cons_self
          rw [List.flatMap_cons, List.cons_prefix_cons]
          rcases leaves.each d with same | ⟨tail, same, -⟩
          · rw [same, List.singleton_append, List.cons_prefix_cons,
              inductionHypothesis fun other isIn => part other (List.mem_cons_of_mem c isIn)]
          · -- an escaped character is none of the text
            rw [same, List.cons_append, List.cons_prefix_cons]
            constructor
            · rintro ⟨rfl, -⟩
              exact absurd isPart leaves.noBackslash
            · rintro ⟨rfl, -⟩
              rw [leaves.kept c isPart] at same
              injection same with isBackslash
              exact absurd (isBackslash ▸ isPart) leaves.noBackslash

theorem infix_flatMap_iff (leaves : LeavesAlone code first others) (text : List Char) :
    first :: others <:+: text.flatMap code ↔ first :: others <:+: text := by
  induction text with
  | nil => rfl
  | cons d rest inductionHypothesis =>
      have begins := prefix_flatMap_iff leaves (fun _ isIn => isIn) (d :: rest)
      rw [List.flatMap_cons] at begins ⊢
      rw [List.infix_cons_iff, ← inductionHypothesis, ← begins]
      rcases leaves.each d with same | ⟨tail, same, absent⟩
      · rw [same, List.singleton_append, List.infix_cons_iff]
      · have noBackslash : first ≠ '\\' :=
          fun isBackslash => leaves.noBackslash (isBackslash ▸ List.mem_cons_self)
        have missing : first ∉ code d := by
          rw [same, List.mem_cons, not_or]
          exact ⟨noBackslash, absent⟩
        rw [infix_append_iff_of_notMem missing]
        refine (or_iff_right ?_).symm
        rw [same, List.cons_append, List.cons_prefix_cons]
        exact fun starts => noBackslash starts.1

end Escaped

end BodyContract
