import BodyContract.Proofs.Recording.Literals

/-!
# Reading a record without an order

The chains that are recorded without an order are made of few steps.  A mark is
one of them, with the words that are written for it and the calls that are made.
Different steps begin with the same word, and a truth value among elements is
not written at all.  But from the words of a whole chain its marks can be told,
except for such a truth value at its end.
-/

namespace BodyContract

/-! ## The words of steps -/

namespace Word

def field (name : String) : Word := ⟨"field", quoteOnly name, by decide, isArgument_quoteOnly name⟩

def array (name : String) : Word := ⟨"array", quoteOnly name, by decide, isArgument_quoteOnly name⟩

def bare (name : String) (hasNoPoint : '.' ∉ name.toList) : Word :=
  ⟨name, "", hasNoPoint, .plain (by decide) (by decide)⟩

def anonymousArray : Word := bare "array" (by decide)

def arrayField : Word := bare "arrayField" (by decide)

def value : Word := bare "value" (by decide)

def isNull : Word := bare "isNull" (by decide)

def isEmpty : Word := bare "isEmpty" (by decide)

def contains (value : Scalar) : Word :=
  ⟨"contains", value.toJson.quotedLabel, by decide, value.isArgument_quotedLabel⟩

def isEqualTo (value : Scalar) : Word :=
  ⟨"isEqualTo", value.literal, by decide, value.isArgument_literal⟩

def matching (pattern : String) : Word :=
  ⟨"matches", javaString pattern, by decide, isArgument_javaString pattern⟩

def elementWithIndex (index : Nat) : Word :=
  ⟨"elementWithIndex", toString index, by decide, isArgument_toString index⟩

def hasSize (size : Nat) : Word := ⟨"hasSize", toString size, by decide, isArgument_toString size⟩

@[simp] theorem name_field (name : String) : (field name).name = "field" := rfl

@[simp] theorem name_array (name : String) : (array name).name = "array" := rfl

@[simp] theorem name_anonymousArray : anonymousArray.name = "array" := rfl

@[simp] theorem name_arrayField : arrayField.name = "arrayField" := rfl

@[simp] theorem name_value : value.name = "value" := rfl

@[simp] theorem name_isNull : isNull.name = "isNull" := rfl

@[simp] theorem name_isEmpty : isEmpty.name = "isEmpty" := rfl

@[simp] theorem name_contains (value : Scalar) : (contains value).name = "contains" := rfl

@[simp] theorem name_isEqualTo (value : Scalar) : (isEqualTo value).name = "isEqualTo" := rfl

@[simp] theorem name_matching (pattern : String) : (matching pattern).name = "matches" := rfl

@[simp] theorem name_elementWithIndex (index : Nat) :
    (elementWithIndex index).name = "elementWithIndex" := rfl

@[simp] theorem name_hasSize (size : Nat) : (hasSize size).name = "hasSize" := rfl

theorem field_injective : Function.Injective field := fun _ _ same =>
  quoteOnly_injective (congrArg argument same)

theorem array_injective : Function.Injective array := fun _ _ same =>
  quoteOnly_injective (congrArg argument same)

theorem matching_injective : Function.Injective matching := fun _ _ same =>
  javaString_injective (congrArg argument same)

theorem elementWithIndex_injective : Function.Injective elementWithIndex := fun _ _ same =>
  toString_injective (congrArg argument same)

theorem array_ne_anonymousArray (name : String) : array name ≠ anonymousArray := fun same =>
  quoteOnly_ne_empty name (congrArg argument same)

theorem eq_of_contains {left right : Scalar} (leftCanonical : left.IsCanonical)
    (rightCanonical : right.IsCanonical) (same : contains left = contains right) : left = right :=
  Scalar.eq_of_quotedLabel leftCanonical rightCanonical (congrArg argument same)

theorem eq_of_isEqualTo {left right : Scalar} (leftCanonical : left.IsCanonical)
    (rightCanonical : right.IsCanonical) (same : isEqualTo left = isEqualTo right) : left = right :=
  Scalar.eq_of_literal leftCanonical rightCanonical (congrArg argument same)

end Word

/-! ## Marks -/

/-- A step of a chain that is recorded without an order.  Among the elements of
an array, `isElement` tells that a call for them is written as well. -/
inductive Mark where
  | member (name : String)
  | array (name : String)
  /-- A member with simple values, which are looked for among its elements. -/
  | simple (name : String)
  | every
  /-- The elements of an array of simple values. -/
  | values
  | contains (value : Scalar)
  | equals (value : Scalar) (isElement : Bool)
  /-- An equality of elements with a truth value. -/
  | truth (holds : Bool)
  | isNull
  | isEmpty
  | pattern (expression : String) (isElement : Bool)

namespace Mark

def first : Mark → Word
  | .member name => .field name
  | .array name => .array name
  | .simple name => .array name
  | .every => .anonymousArray
  | .values => .arrayField
  | .contains _ => .arrayField
  | .equals value _ => .isEqualTo value
  | .truth _ => .value
  | .isNull => .isNull
  | .isEmpty => .isEmpty
  | .pattern expression _ => .matching expression

/-- The words behind the first. -/
def others : Mark → List Word
  | .simple _ => [.arrayField]
  | .contains value => [.contains value, .value]
  | .equals _ isElement => if isElement then [.value] else []
  | .pattern _ isElement => if isElement then [.value] else []
  | _ => []

def words (mark : Mark) : List Word := mark.first :: mark.others

def calls : Mark → List Call
  | .member name => [.field name]
  | .array name => [.array name]
  | .simple name => [.field name, .arrayField, .arrayField]
  | .every => [.anonymousArray]
  | .values => [.arrayField]
  | .contains value => [.arrayField, .contains value.toJson, .isPresent]
  | .equals value _ => [.isEqualTo value.toJson]
  | .truth holds => [.isEqualTo (.bool holds)]
  | .isNull => [.isNull]
  | .isEmpty => [.isEmpty]
  | .pattern expression _ => [.matching expression]

/-- Whether the numbers of a step are written in their own forms. -/
def IsCanonical : Mark → Prop
  | .contains value => value.IsCanonical
  | .equals value _ => value.IsCanonical
  | _ => True

/-- Whether a step can be taken behind another one, or at the beginning. -/
def mayFollow : Option Mark → Mark → Bool
  | none, .values => true
  | some .every, .values => true
  | _, .values => false
  | some .values, .truth _ => true
  | some (.simple _), .truth _ => true
  | _, .truth _ => false
  | some (.truth _), _ => false
  | _, _ => true

/-- Whether nothing has been written for a truth value last. -/
def IsOpen (previous : Option Mark) : Prop := ∀ holds, previous ≠ some (.truth holds)

theorem mayFollow_of_isOpen {previous : Option Mark} (isOpen : IsOpen previous) {mark : Mark}
    (notValues : mark ≠ .values) (notTruth : ∀ holds, mark ≠ .truth holds) :
    mark.mayFollow previous = true := by
  cases previous with
  | none =>
      cases mark with
      | values => exact absurd rfl notValues
      | truth holds => exact absurd rfl (notTruth holds)
      | _ => rfl
  | some last =>
      cases last with
      | truth holds => exact absurd rfl (isOpen holds)
      | _ =>
          cases mark with
          | values => exact absurd rfl notValues
          | truth holds => exact absurd rfl (notTruth holds)
          | _ => rfl

/-- Marks that begin with the same word. -/
inductive Alike : Mark → Mark → Prop where
  | same (mark : Mark) : Alike mark mark
  | array_simple (name : String) : Alike (.array name) (.simple name)
  | simple_array (name : String) : Alike (.simple name) (.array name)
  | values_contains (value : Scalar) : Alike .values (.contains value)
  | contains_values (value : Scalar) : Alike (.contains value) .values
  | contains (value other : Scalar) : Alike (.contains value) (.contains other)
  | equals (value : Scalar) (isElement isOther : Bool) :
      Alike (.equals value isElement) (.equals value isOther)
  | truth (holds other : Bool) : Alike (.truth holds) (.truth other)
  | pattern (expression : String) (isElement isOther : Bool) :
      Alike (.pattern expression isElement) (.pattern expression isOther)

theorem alike_of_first {left right : Mark} (leftCanonical : left.IsCanonical)
    (rightCanonical : right.IsCanonical) (same : left.first = right.first) : Alike left right := by
  cases left with
  | member name =>
      cases right with
      | member other =>
          rw [Word.field_injective same]
          exact .same _
      | _ => exact absurd (congrArg Word.name same) (by simp [first])
  | array name =>
      cases right with
      | array other =>
          rw [Word.array_injective same]
          exact .same _
      | simple other =>
          rw [Word.array_injective same]
          exact .array_simple other
      | every => exact absurd same (Word.array_ne_anonymousArray name)
      | _ => exact absurd (congrArg Word.name same) (by simp [first])
  | simple name =>
      cases right with
      | array other =>
          rw [Word.array_injective same]
          exact .simple_array other
      | simple other =>
          rw [Word.array_injective same]
          exact .same _
      | every => exact absurd same (Word.array_ne_anonymousArray name)
      | _ => exact absurd (congrArg Word.name same) (by simp [first])
  | every =>
      cases right with
      | every => exact .same _
      | array other => exact absurd same.symm (Word.array_ne_anonymousArray other)
      | simple other => exact absurd same.symm (Word.array_ne_anonymousArray other)
      | _ => exact absurd (congrArg Word.name same) (by simp [first])
  | values =>
      cases right with
      | values => exact .same _
      | contains value => exact .values_contains value
      | _ => exact absurd (congrArg Word.name same) (by simp [first])
  | contains value =>
      cases right with
      | values => exact .contains_values value
      | contains other => exact .contains value other
      | _ => exact absurd (congrArg Word.name same) (by simp [first])
  | equals value isElement =>
      cases right with
      | equals other isOther =>
          rw [Word.eq_of_isEqualTo leftCanonical rightCanonical same]
          exact .equals other isElement isOther
      | _ => exact absurd (congrArg Word.name same) (by simp [first])
  | truth holds =>
      cases right with
      | truth other => exact .truth holds other
      | _ => exact absurd (congrArg Word.name same) (by simp [first])
  | isNull =>
      cases right with
      | isNull => exact .same _
      | _ => exact absurd (congrArg Word.name same) (by simp [first])
  | isEmpty =>
      cases right with
      | isEmpty => exact .same _
      | _ => exact absurd (congrArg Word.name same) (by simp [first])
  | pattern expression isElement =>
      cases right with
      | pattern other isOther =>
          rw [Word.matching_injective same]
          exact .pattern other isElement isOther
      | _ => exact absurd (congrArg Word.name same) (by simp [first])

theorem first_ne_contains (mark : Mark) (value : Scalar) : mark.first ≠ .contains value := by
  intro same
  cases mark <;> exact absurd (congrArg Word.name same) (by simp [first])

theorem eq_truth_of_first {mark : Mark} (same : mark.first = .value) :
    ∃ holds, mark = .truth holds := by
  cases mark with
  | truth holds => exact ⟨holds, rfl⟩
  | _ => exact absurd (congrArg Word.name same) (by simp [first])

/-- Behind the elements of a member only a value is looked for. -/
theorem eq_contains_of_first {mark : Mark} {name : String}
    (follows : mark.mayFollow (some (.array name)) = true) (same : mark.first = .arrayField) :
    ∃ value, mark = .contains value := by
  cases mark with
  | contains value => exact ⟨value, rfl⟩
  | values => cases follows
  | _ => exact absurd (congrArg Word.name same) (by simp [first])

end Mark

/-! ## Chains of marks -/

/-- Whether marks may stand one behind the other, and behind a mark in front. -/
def ArePlaced : Option Mark → List Mark → Prop
  | _, [] => True
  | previous, mark :: rest =>
      mark.mayFollow previous = true ∧ mark.IsCanonical ∧ ArePlaced (some mark) rest

/-- The last of some marks, behind one in front. -/
def lastOf : Option Mark → List Mark → Option Mark
  | previous, [] => previous
  | _, mark :: rest => lastOf (some mark) rest

theorem lastOf_concat (previous : Option Mark) (marks : List Mark) (mark : Mark) :
    lastOf previous (marks ++ [mark]) = some mark := by
  induction marks generalizing previous with
  | nil => rfl
  | cons first rest inductionHypothesis => exact inductionHypothesis (some first)

theorem arePlaced_concat {previous : Option Mark} {marks : List Mark} {mark : Mark}
    (placed : ArePlaced previous marks) (follows : mark.mayFollow (lastOf previous marks) = true)
    (canonical : mark.IsCanonical) : ArePlaced previous (marks ++ [mark]) := by
  induction marks generalizing previous with
  | nil => exact ⟨follows, canonical, trivial⟩
  | cons first rest inductionHypothesis =>
      exact ⟨placed.1, placed.2.1, inductionHypothesis placed.2.2 follows⟩

def wordsOf (marks : List Mark) : List Word := marks.flatMap Mark.words

theorem wordsOf_cons (mark : Mark) (rest : List Mark) :
    wordsOf (mark :: rest) = mark.first :: (mark.others ++ wordsOf rest) := rfl

theorem exists_cons_of_wordsOf {previous : Option Mark} {marks : List Mark} {word : Word}
    {more : List Word} (placed : ArePlaced previous marks) (same : wordsOf marks = word :: more) :
    ∃ mark rest, marks = mark :: rest ∧ mark.mayFollow previous = true ∧ mark.first = word ∧
      more = mark.others ++ wordsOf rest := by
  cases marks with
  | nil => cases same
  | cons mark rest =>
      rw [wordsOf_cons] at same
      injection same with first others
      exact ⟨mark, rest, rfl, placed.1, first, others.symm⟩

theorem eq_nil_of_arePlaced_truth {holds : Bool} {marks : List Mark}
    (placed : ArePlaced (some (.truth holds)) marks) : marks = [] := by
  cases marks with
  | nil => rfl
  | cons mark rest =>
      have follows := placed.1
      cases mark <;> cases follows

/-- Marks that differ in a truth value at their end. -/
def DifferInTruth (left right : List Mark) : Prop :=
  ∃ front holds, left = front ++ [.truth holds] ∧ right = front ++ [.truth !holds]

theorem DifferInTruth.cons {left right : List Mark} (differ : DifferInTruth left right)
    (mark : Mark) : DifferInTruth (mark :: left) (mark :: right) := by
  obtain ⟨front, holds, rfl, rfl⟩ := differ
  exact ⟨mark :: front, holds, rfl, rfl⟩

section Apart

variable {left right : List Mark}

/-- A member is told from one with simple values by what follows. -/
theorem wordsOf_array_ne_simple {name : String} (placed : ArePlaced (some (.array name)) left) :
    wordsOf (.array name :: left) ≠ wordsOf (.simple name :: right) := by
  intro same
  rw [wordsOf_cons, wordsOf_cons] at same
  injection same with _ later
  obtain ⟨mark, rest, -, follows, isField, more⟩ := exists_cons_of_wordsOf placed later
  obtain ⟨value, rfl⟩ := Mark.eq_contains_of_first follows isField
  have begins : wordsOf right = .contains value :: .value :: wordsOf rest := more
  cases right with
  | nil => cases begins
  | cons other others =>
      rw [wordsOf_cons] at begins
      injection begins with first _
      exact other.first_ne_contains value first

theorem wordsOf_values_ne_contains {value : Scalar} :
    wordsOf (.values :: left) ≠ wordsOf (.contains value :: right) := by
  intro same
  rw [wordsOf_cons, wordsOf_cons] at same
  injection same with _ later
  have begins : wordsOf left = .contains value :: .value :: wordsOf right := later
  cases left with
  | nil => cases begins
  | cons mark rest =>
      rw [wordsOf_cons] at begins
      injection begins with first _
      exact mark.first_ne_contains value first

/-- The word for elements is told from a truth value by what stands in front. -/
theorem value_notHead_of_arePlaced {previous : Mark} (notListed : ∀ holds,
    (Mark.truth holds).mayFollow (some previous) = false)
    (placed : ArePlaced (some previous) left) (more : List Word) :
    wordsOf left ≠ .value :: more := by
  intro same
  obtain ⟨mark, rest, -, follows, isValue, -⟩ := exists_cons_of_wordsOf placed same
  obtain ⟨holds, rfl⟩ := Mark.eq_truth_of_first isValue
  rw [notListed holds] at follows
  cases follows

end Apart

/-- Optional words for elements are the same if what follows cannot be one. -/
theorem eq_of_isElement {isElement isOther : Bool} {left right : List Word}
    (leftApart : ∀ more, left ≠ .value :: more) (rightApart : ∀ more, right ≠ .value :: more)
    (same : (if isElement then [Word.value] else []) ++ left =
      (if isOther then [Word.value] else []) ++ right) : isElement = isOther ∧ left = right := by
  cases isElement with
  | true =>
      cases isOther with
      | true => exact ⟨rfl, List.append_cancel_left same⟩
      | false => exact absurd same.symm (rightApart left)
  | false =>
      cases isOther with
      | true => exact absurd same (leftApart right)
      | false => exact ⟨rfl, same⟩

/-- Marks are told by their words, except for a truth value at their end. -/
theorem eq_or_differInTruth {previous : Option Mark} {left right : List Mark}
    (leftPlaced : ArePlaced previous left) (rightPlaced : ArePlaced previous right)
    (same : wordsOf left = wordsOf right) : left = right ∨ DifferInTruth left right := by
  -- both lists stand behind the same mark, so the same marks may begin them
  induction left generalizing previous right with
  | nil =>
      cases right with
      | nil => exact Or.inl rfl
      | cons mark rest => cases same
  | cons mark rest inductionHypothesis =>
      cases right with
      | nil => cases same
      | cons other others =>
          obtain ⟨-, canonical, restPlaced⟩ := leftPlaced
          obtain ⟨-, otherCanonical, othersPlaced⟩ := rightPlaced
          have heads := same
          rw [wordsOf_cons, wordsOf_cons] at heads
          injection heads with first later
          -- with the same mark in front, the rest decides
          have next : ∀ {one another : Mark}, one = another → ArePlaced (some one) rest →
              ArePlaced (some another) others → wordsOf rest = wordsOf others →
                one :: rest = another :: others ∨
                  DifferInTruth (one :: rest) (another :: others) := by
            rintro one another rfl placed otherPlaced words
            rcases inductionHypothesis placed otherPlaced words with equal | differ
            · exact Or.inl (congrArg (one :: ·) equal)
            · exact Or.inr (differ.cons one)
          cases Mark.alike_of_first canonical otherCanonical first with
          | same => exact next rfl restPlaced othersPlaced (List.append_cancel_left later)
          | array_simple name => exact absurd same (wordsOf_array_ne_simple restPlaced)
          | simple_array name => exact absurd same.symm (wordsOf_array_ne_simple othersPlaced)
          | values_contains value => exact absurd same wordsOf_values_ne_contains
          | contains_values value => exact absurd same.symm wordsOf_values_ne_contains
          | contains value another =>
              injection later with isValue words
              injection words with _ words
              have equal := Word.eq_of_contains canonical otherCanonical isValue
              exact next (congrArg Mark.contains equal) restPlaced othersPlaced words
          | equals value isElement isOther =>
              obtain ⟨equal, words⟩ := eq_of_isElement
                (value_notHead_of_arePlaced (fun _ => rfl) restPlaced)
                (value_notHead_of_arePlaced (fun _ => rfl) othersPlaced) later
              exact next (congrArg (Mark.equals value) equal) restPlaced othersPlaced words
          | pattern expression isElement isOther =>
              obtain ⟨equal, words⟩ := eq_of_isElement
                (value_notHead_of_arePlaced (fun _ => rfl) restPlaced)
                (value_notHead_of_arePlaced (fun _ => rfl) othersPlaced) later
              exact next (congrArg (Mark.pattern expression) equal) restPlaced othersPlaced words
          | truth holds another =>
              rw [eq_nil_of_arePlaced_truth restPlaced, eq_nil_of_arePlaced_truth othersPlaced]
              by_cases equal : another = holds
              · exact Or.inl (by rw [equal])
              · refine Or.inr ⟨[], holds, rfl, ?_⟩
                rw [Bool.eq_not.mpr equal]
                rfl

end BodyContract
