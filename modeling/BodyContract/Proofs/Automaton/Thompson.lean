import BodyContract.Proofs.Automaton.Language
import BodyContract.Proofs.Automaton.Spelling

/-!
# What the graph of a pattern spells

The paths from the entry to the exit of the block of a pattern read exactly
the texts of its language.  The proof follows the tree: each composite pattern
has one lemma that takes the paths of its block apart at the joints between
the blocks of its parts.
-/

namespace BodyContract.Pattern

/-- Whether the links of the block of a pattern spell its language, wherever
the block begins. -/
def SpellsLanguage (pattern : Pattern) : Prop :=
  ∀ base text, Spells (links pattern base) base text (base + pattern.size - 1) ↔
    text ∈ language pattern

theorem spellsLanguage_of_silent {pattern : Pattern} (two : pattern.size = 2)
    (only : ∀ base, links pattern base = [.silent base (base + 1)])
    (blank : language pattern = 1) : SpellsLanguage pattern := by
  intro base text
  rw [two, only, blank, Language.mem_one]
  constructor
  · intro path
    cases path with
    | silent link rest =>
        rw [List.mem_singleton] at link
        injection link with _ toLast
        subst toLast
        refine (rest.eq_of_no_exit ?_).1
        intro link member
        rw [List.mem_singleton] at member
        subst member
        exact Nat.ne_of_lt (Nat.lt_succ_self base)
    | reads link _ _ =>
        rw [List.mem_singleton] at link
        exact absurd link (by simp)
  · intro empty
    subst empty
    exact Spells.silent (List.mem_singleton.mpr rfl) (Spells.stay (base + 1))

theorem spellsLanguage_oneOf (set : CharSet) : SpellsLanguage (.oneOf set) := by
  intro base text
  rw [size, links, mem_language_oneOf]
  constructor
  · intro path
    cases path with
    | silent link _ =>
        rw [List.mem_singleton] at link
        exact absurd link (by simp)
    | @reads _ _ _ _ c rest link member path =>
        rw [List.mem_singleton] at link
        injection link with _ sameSet toLast
        subst sameSet toLast
        have ends := path.eq_of_no_exit (by
          intro link member
          rw [List.mem_singleton] at member
          subst member
          exact Nat.ne_of_lt (Nat.lt_succ_self base))
        exact ⟨c, member, by rw [ends.1]⟩
  · rintro ⟨c, member, rfl⟩
    exact Spells.reads (List.mem_singleton.mpr rfl) member (Spells.stay (base + 1))

/-! ## Sequences -/

/-- Whether the links of items one behind the other spell their sequence. -/
def SequenceSpells (items : List Pattern) : Prop :=
  ∀ base text, Spells (linksInSequence items base) base text (base + sizeList items - 1) ↔
    text ∈ languageOfSequence items

theorem sequenceSpells_singleton {item : Pattern} (own : SpellsLanguage item) :
    SequenceSpells [item] := by
  intro base text
  rw [linksInSequence, linksInSequence, List.isEmpty_nil, if_pos rfl, List.append_nil,
    List.append_nil, languageOfSequence, languageOfSequence, mul_one, sizeList, sizeList,
    Nat.add_zero]
  exact own base text

section Sequence

variable {item next : Pattern} {rest : List Pattern} {base : Nat} {text : List Char}

theorem mem_linksInSequence_cons {link : Link} :
    link ∈ linksInSequence (item :: next :: rest) base ↔
      link ∈ links item base ∨
        link = .silent (base + item.size - 1) (base + item.size) ∨
          link ∈ linksInSequence (next :: rest) (base + item.size) := by
  rw [linksInSequence, List.isEmpty_cons, if_neg Bool.false_ne_true, List.mem_append,
    List.mem_append, List.mem_singleton, or_assoc]

/-- Behind its first item a path stays among the others. -/
theorem spells_rest_of_sequence {state last : Nat} (behind : base + item.size ≤ state)
    (path : Spells (linksInSequence (item :: next :: rest) base) state text last) :
    Spells (linksInSequence (next :: rest) (base + item.size)) state text last := by
  have room := two_le_size item
  refine path.confine (fun state => base + item.size ≤ state) _ ?_ behind
  intro link member begins
  rcases mem_linksInSequence_cons.mp member with inside | bridge | later
  · have bounds := links_within item base link inside
    unfold Within at bounds
    omega
  · subst bridge
    simp only [Link.source] at begins
    omega
  · have bounds := linksInSequence_within (next :: rest) (base + item.size) link later
    unfold Within at bounds
    exact ⟨later, by omega⟩

/-- A path through a sequence goes through the first item and then through the
others. -/
theorem apart_of_sequence {last : Nat} (behind : base + item.size ≤ last)
    (path : Spells (linksInSequence (item :: next :: rest) base) base text last) :
    ∃ front back, text = front ++ back ∧
      Spells (links item base) base front (base + item.size - 1) ∧
        Spells (linksInSequence (next :: rest) (base + item.size)) (base + item.size) back last := by
  have room := two_le_size item
  have inItem := links_within item base
  have inRest := linksInSequence_within (next :: rest) (base + item.size)
  obtain ⟨front, back, dest, whole, first, out, second⟩ :=
    path.leave (fun state => state < base + item.size) (links item base) (base + item.size - 1)
      (by
        intro link member before
        rcases mem_linksInSequence_cons.mp member with inside | bridge | later
        · have bounds := inItem link inside
          unfold Within at bounds
          exact Or.inl ⟨inside, by omega⟩
        · exact Or.inr ⟨_, bridge⟩
        · have bounds := inRest link later
          unfold Within at bounds
          omega)
      (by omega) (by omega)
  have onward : dest = base + item.size := by
    rcases mem_linksInSequence_cons.mp out with inside | bridge | later
    · have bounds := inItem _ inside
      simp only [Within, Link.source] at bounds
      omega
    · injection bridge
    · have bounds := inRest _ later
      simp only [Within, Link.source] at bounds
      omega
  subst onward
  exact ⟨front, back, whole, first, spells_rest_of_sequence (Nat.le_refl _) second⟩

theorem sequenceSpells_cons (own : SpellsLanguage item) (others : SequenceSpells (next :: rest)) :
    SequenceSpells (item :: next :: rest) := by
  intro base text
  have wide : 2 ≤ sizeList (next :: rest) := by
    have more := two_le_size next
    rw [sizeList]
    omega
  have width : sizeList (item :: next :: rest) = item.size + sizeList (next :: rest) := rfl
  rw [width, ← Nat.add_assoc, languageOfSequence, Language.mem_mul]
  constructor
  · intro path
    obtain ⟨front, back, whole, first, second⟩ := apart_of_sequence (by omega) path
    exact ⟨front, (own base front).mp first, back, (others _ back).mp second, whole.symm⟩
  · rintro ⟨front, inFirst, back, inOthers, rfl⟩
    have first : Spells (linksInSequence (item :: next :: rest) base) base front
        (base + item.size - 1) := ((own base front).mpr inFirst).mono fun link member =>
      mem_linksInSequence_cons.mpr (Or.inl member)
    have second := ((others (base + item.size) back).mpr inOthers).mono fun link member =>
      mem_linksInSequence_cons.mpr (Or.inr (Or.inr member))
    exact first.append (Spells.silent (mem_linksInSequence_cons.mpr (Or.inr (Or.inl rfl))) second)

end Sequence

/-! ## Choices -/

/-- Whether the links of branches between a common entry and exit spell their
choice. -/
def BranchesSpell (branches : List Pattern) : Prop :=
  ∀ entry exit base text, entry < base → base + sizeList branches ≤ exit →
    (Spells (linksOfBranches branches entry exit base) entry text exit ↔
      text ∈ languageOfChoice branches)

theorem branchesSpell_nil : BranchesSpell [] := by
  intro entry exit base text before behind
  rw [linksOfBranches, languageOfChoice]
  constructor
  · intro path
    have ends := path.eq_of_no_exit fun link member => absurd member List.not_mem_nil
    omega
  · intro member
    exact absurd member (Language.notMem_zero text)

section Choice

variable {branch : Pattern} {rest : List Pattern} {entry exit base : Nat} {text : List Char}

theorem mem_linksOfBranches_cons {link : Link} :
    link ∈ linksOfBranches (branch :: rest) entry exit base ↔
      link = .silent entry base ∨ link = .silent (base + branch.size - 1) exit ∨
        link ∈ links branch base ∨ link ∈ linksOfBranches rest entry exit (base + branch.size) := by
  rw [linksOfBranches]
  simp only [List.mem_cons, List.mem_append]

theorem source_ne_exit {branches : List Pattern} (before : entry < base)
    (behind : base + sizeList branches ≤ exit) {link : Link}
    (member : link ∈ linksOfBranches branches entry exit base) : link.source ≠ exit := by
  have bounds := linksOfBranches_within branches entry exit base link member
  omega

/-- Behind the entry of the first branch a path goes through this branch. -/
theorem mem_language_of_branch (own : SpellsLanguage branch) (before : entry < base)
    (behind : base + sizeList (branch :: rest) ≤ exit)
    (path : Spells (linksOfBranches (branch :: rest) entry exit base) base text exit) :
    text ∈ language branch := by
  have stuck : ∀ link ∈ linksOfBranches (branch :: rest) entry exit base, link.source ≠ exit :=
    fun link member => source_ne_exit before behind member
  have room := two_le_size branch
  have inBranch := links_within branch base
  have inRest := linksOfBranches_within rest entry exit (base + branch.size)
  rw [sizeList] at behind
  obtain ⟨front, back, dest, whole, first, out, second⟩ :=
    path.leave (fun state => base ≤ state ∧ state < base + branch.size) (links branch base)
      (base + branch.size - 1)
      (by
        intro link member inside
        rcases mem_linksOfBranches_cons.mp member with rfl | leaving | own | other
        · simp only [Link.source] at inside
          omega
        · exact Or.inr ⟨exit, leaving⟩
        · have bounds := inBranch link own
          unfold Within at bounds
          exact Or.inl ⟨own, by omega⟩
        · have bounds := inRest link other
          omega)
      (by omega) (by omega)
  have atExit : dest = exit := by
    rcases mem_linksOfBranches_cons.mp out with entering | leaving | own | other
    · injection entering with same _
      omega
    · injection leaving
    · have bounds := inBranch _ own
      simp only [Within, Link.source] at bounds
      omega
    · have bounds := inRest _ other
      simp only [Link.source] at bounds
      omega
  rw [atExit] at second
  rw [whole, (second.eq_of_no_exit stuck).1, List.append_nil]
  exact (own base front).mp first

/-- Behind the first branch a path stays among the others. -/
theorem spells_rest_of_choice (before : entry < base)
    (behind : base + sizeList (branch :: rest) ≤ exit) {state : Nat}
    (begins : state = exit ∨ base + branch.size ≤ state)
    (path : Spells (linksOfBranches (branch :: rest) entry exit base) state text exit) :
    Spells (linksOfBranches rest entry exit (base + branch.size)) state text exit := by
  have room := two_le_size branch
  refine path.confine (fun state => state = exit ∨ base + branch.size ≤ state) _ ?_ begins
  intro link member inside
  have moving := source_ne_exit before behind member
  rcases mem_linksOfBranches_cons.mp member with rfl | rfl | own | other
  · simp only [Link.source] at inside moving
    omega
  · simp only [Link.source] at inside moving
    omega
  · have bounds := links_within branch base link own
    unfold Within at bounds
    omega
  · have bounds := linksOfBranches_within rest entry exit (base + branch.size) link other
    exact ⟨other, by omega⟩

/-- A path through a choice goes through its first branch or through the
others. -/
theorem apart_of_choice (own : SpellsLanguage branch) (before : entry < base)
    (behind : base + sizeList (branch :: rest) ≤ exit)
    (path : Spells (linksOfBranches (branch :: rest) entry exit base) entry text exit) :
    text ∈ language branch ∨
      Spells (linksOfBranches rest entry exit (base + branch.size)) entry text exit := by
  have inBranch := links_within branch base
  have inRest := linksOfBranches_within rest entry exit (base + branch.size)
  cases path with
  | stay _ => omega
  | @silent _ dest _ _ link path =>
      rcases mem_linksOfBranches_cons.mp link with entering | leaving | own | other
      · injection entering with _ toBase
        subst toBase
        exact Or.inl (mem_language_of_branch own before behind path)
      · injection leaving with same _
        have room := two_le_size branch
        omega
      · have bounds := inBranch _ own
        simp only [Within, Link.source] at bounds
        omega
      · have bounds := inRest _ other
        simp only [Link.dest] at bounds
        exact Or.inr (Spells.silent other (spells_rest_of_choice before behind (by omega) path))
  | @reads _ dest _ set c text link member path =>
      rcases mem_linksOfBranches_cons.mp link with entering | leaving | own | other
      · exact absurd entering (by simp)
      · exact absurd leaving (by simp)
      · have bounds := inBranch _ own
        simp only [Within, Link.source] at bounds
        omega
      · have bounds := inRest _ other
        simp only [Link.dest] at bounds
        exact Or.inr (Spells.reads other member
          (spells_rest_of_choice before behind (by omega) path))

theorem branchesSpell_cons (own : SpellsLanguage branch) (others : BranchesSpell rest) :
    BranchesSpell (branch :: rest) := by
  intro entry exit base text before behind
  have room : base + branch.size + sizeList rest ≤ exit := by
    rw [sizeList] at behind
    omega
  rw [languageOfChoice, Language.mem_add]
  constructor
  · intro path
    rcases apart_of_choice own before behind path with inBranch | inOthers
    · exact Or.inl inBranch
    · exact Or.inr ((others entry exit _ text (by omega) room).mp inOthers)
  · rintro (inBranch | inOthers)
    · have inside : Spells (linksOfBranches (branch :: rest) entry exit base) base text
          (base + branch.size - 1) := ((own base text).mpr inBranch).mono fun link member =>
        mem_linksOfBranches_cons.mpr (Or.inr (Or.inr (Or.inl member)))
      have leaving : Link.silent (base + branch.size - 1) exit ∈
          linksOfBranches (branch :: rest) entry exit base :=
        mem_linksOfBranches_cons.mpr (Or.inr (Or.inl rfl))
      have whole := inside.append (Spells.silent leaving (Spells.stay exit))
      rw [List.append_nil] at whole
      exact Spells.silent (mem_linksOfBranches_cons.mpr (Or.inl rfl)) whole
    · have inside := (others entry exit (base + branch.size) text (by omega) room).mpr inOthers
      exact inside.mono fun link member =>
        mem_linksOfBranches_cons.mpr (Or.inr (Or.inr (Or.inr member)))

end Choice

/-! ## Repetitions

The copies of a body are joined by numbered joints: joint `index` is the state
in front of copy `index` and, unless `index` is zero, the exit of the copy
before. -/

/-- What may follow joint `index`: texts of the body, as many as bring the
count of copies into the bounds. -/
def MayFollow (body : Pattern) (least : Nat) (most : Option Nat) (index : Nat)
    (text : List Char) : Prop :=
  ∃ runs, AllowsCount least most (index + runs) ∧ text ∈ language body ^ runs

theorem mayFollow_of_copy {body : Pattern} {least index : Nat} {most : Option Nat}
    {front back : List Char} (copy : front ∈ language body)
    (later : MayFollow body least most (index + 1) back) :
    MayFollow body least most index (front ++ back) := by
  obtain ⟨runs, allowed, inPower⟩ := later
  refine ⟨runs + 1, ?_, ?_⟩
  · rwa [Nat.add_right_comm] at allowed
  · rw [pow_succ']
    exact Language.mem_mul.mpr ⟨front, copy, back, inPower, rfl⟩

/-- An unbounded repetition may go through its last copy again. -/
theorem mayFollow_last_of_copy {body : Pattern} {least : Nat} {front back : List Char}
    (copy : front ∈ language body) (later : MayFollow body least none (least + 1) back) :
    MayFollow body least none (least + 1) (front ++ back) := by
  obtain ⟨runs, _, inPower⟩ := later
  refine ⟨runs + 1, ⟨by omega, by simp⟩, ?_⟩
  rw [pow_succ']
  exact Language.mem_mul.mpr ⟨front, copy, back, inPower, rfl⟩

theorem index_unique {low high : Nat} (width : Nat) (below : low * width < (high + 1) * width)
    (above : high * width < (low + 1) * width) : low = high := by
  have first := Nat.lt_of_mul_lt_mul_right below
  have second := Nat.lt_of_mul_lt_mul_right above
  omega

section Repetition

variable {body : Pattern} {least : Nat} {most : Option Nat} {base : Nat}

/-- What a path to the exit of a repetition reads from a state on, by the kind
of the state. -/
structure ReadsOn (body : Pattern) (least : Nat) (most : Option Nat) (base state : Nat)
    (text : List Char) : Prop where
  atJoint : ∀ index ≤ copies least most, state = base + index * body.size →
    MayFollow body least most index text
  inCopy : ∀ index < copies least most,
    base + 1 + index * body.size ≤ state → state ≤ base + (index + 1) * body.size →
      ∃ front back, text = front ++ back ∧
        Spells (links body (base + 1 + index * body.size)) state front
          (base + (index + 1) * body.size) ∧
        MayFollow body least most (index + 1) back
  atExit : state = base + 1 + copies least most * body.size → text = []

theorem copy_exit (body : Pattern) (base index : Nat) :
    base + 1 + index * body.size + body.size - 1 = base + (index + 1) * body.size := by
  rw [Nat.succ_mul]
  omega

theorem readsOn_stay : ReadsOn body least most base (base + 1 + copies least most * body.size) [] where
  atJoint := by
    intro index inRange same
    have room : index * body.size ≤ copies least most * body.size :=
      Nat.mul_le_mul_right body.size inRange
    omega
  inCopy := by
    intro index inRange _ above
    have room : (index + 1) * body.size ≤ copies least most * body.size :=
      Nat.mul_le_mul_right body.size inRange
    omega
  atExit := fun _ => rfl

/-- A step inside a copy. -/
theorem readsOn_of_copy_link {copy : Nat} {link : Link} {text later : List Char}
    (inRange : copy < copies least most)
    (inside : link ∈ links body (base + 1 + copy * body.size))
    (next : ReadsOn body least most base link.dest later)
    (step : ∀ {front last}, Spells (links body (base + 1 + copy * body.size)) link.dest front last →
      ∃ grown, Spells (links body (base + 1 + copy * body.size)) link.source grown last ∧
        ∀ back, later = front ++ back → text = grown ++ back) :
    ReadsOn body least most base link.source text := by
  have bounds := links_within body _ link inside
  rw [copy_exit] at bounds
  unfold Within at bounds
  have room : (copy + 1) * body.size ≤ copies least most * body.size :=
    Nat.mul_le_mul_right body.size inRange
  have width : (copy + 1) * body.size = copy * body.size + body.size := Nat.succ_mul _ _
  refine ⟨?_, ?_, by omega⟩
  · intro index _ same
    have after : copy < index := Nat.lt_of_mul_lt_mul_right (a := body.size) (by omega)
    have before : index < copy + 1 := Nat.lt_of_mul_lt_mul_right (a := body.size) (by omega)
    omega
  · intro index indexInRange low high
    have same : index = copy := by
      have indexWidth : (index + 1) * body.size = index * body.size + body.size :=
        Nat.succ_mul _ _
      exact index_unique body.size (by omega) (by omega)
    subst same
    obtain ⟨front, back, whole, path, follows⟩ :=
      next.inCopy index inRange (by omega) (by omega)
    obtain ⟨grown, longer, rewritten⟩ := step path
    exact ⟨grown, back, rewritten back whole, longer, follows⟩

/-- At a joint only what may follow matters. -/
theorem readsOn_of_joint {index : Nat} {text : List Char} (inRange : index ≤ copies least most)
    (follows : MayFollow body least most index text) :
    ReadsOn body least most base (base + index * body.size) text := by
  have positive := two_le_size body
  have room : index * body.size ≤ copies least most * body.size :=
    Nat.mul_le_mul_right body.size inRange
  refine ⟨?_, ?_, by omega⟩
  · intro other _ same
    have equal : other = index :=
      Nat.eq_of_mul_eq_mul_right (m := body.size) (by omega) (by omega)
    exact equal ▸ follows
  · intro copy _ low high
    have after : copy < index := Nat.lt_of_mul_lt_mul_right (a := body.size) (by omega)
    have before : index ≤ copy + 1 :=
      Nat.le_of_mul_le_mul_right (c := body.size) (by omega) (by omega)
    have next : index = copy + 1 := by omega
    subst next
    exact ⟨[], text, rfl, Spells.stay _, follows⟩

theorem readsOn_of_joint_link (own : SpellsLanguage body)
    (ordered : ∀ bound, most = some bound → least ≤ bound) {link : Link} {text : List Char}
    (joint : JointLink base body.size least (copies least most) most link)
    (next : ReadsOn body least most base link.dest text) :
    ReadsOn body least most base link.source text := by
  have positive := two_le_size body
  have enterCopy : ∀ copy < copies least most, link.dest = base + 1 + copy * body.size →
      ∃ front back, text = front ++ back ∧ front ∈ language body ∧
        MayFollow body least most (copy + 1) back := by
    intro copy inRange same
    have width : (copy + 1) * body.size = copy * body.size + body.size := Nat.succ_mul _ _
    obtain ⟨front, back, whole, path, follows⟩ := next.inCopy copy inRange (by omega) (by omega)
    rw [same, ← copy_exit] at path
    exact ⟨front, back, whole, (own _ front).mp path, follows⟩
  cases joint with
  | @enter index inRange =>
      obtain ⟨front, back, rfl, copy, follows⟩ := enterCopy index inRange rfl
      exact readsOn_of_joint (Nat.le_of_lt inRange) (mayFollow_of_copy copy follows)
  | @stop index enough inRange =>
      have nothing := next.atExit rfl
      subst nothing
      refine readsOn_of_joint inRange ⟨0, ⟨enough, ?_⟩, ?_⟩
      · intro bound bounded
        have orderly := ordered bound bounded
        rw [bounded, copies, Nat.max_eq_right orderly] at inRange
        exact inRange
      · rw [pow_zero]
        exact Language.nil_mem_one
  | loop unbounded =>
      subst unbounded
      obtain ⟨front, back, rfl, copy, follows⟩ := enterCopy least (Nat.lt_succ_self least) rfl
      exact readsOn_of_joint (Nat.le_refl _) (mayFollow_last_of_copy copy follows)

theorem readsOn_of_spells (own : SpellsLanguage body)
    (ordered : ∀ bound, most = some bound → least ≤ bound) {state : Nat} {text : List Char}
    (path : Spells (links (.repeated body least most) base) state text
      (base + 1 + copies least most * body.size)) :
    ReadsOn body least most base state text := by
  generalize ending : base + 1 + copies least most * body.size = last at path
  induction path with
  | stay _ =>
      subst ending
      exact readsOn_stay
  | silent link path inductionHypothesis =>
      have next := inductionHypothesis ending
      rcases mem_links_repeated.mp link with ⟨copy, inRange, inside⟩ | joint
      · exact readsOn_of_copy_link inRange inside next fun {front _} path =>
          ⟨front, Spells.silent inside path, fun back whole => whole⟩
      · exact readsOn_of_joint_link own ordered joint next
  | @reads _ _ _ _ c _ link member path inductionHypothesis =>
      have next := inductionHypothesis ending
      rcases mem_links_repeated.mp link with ⟨copy, inRange, inside⟩ | joint
      · exact readsOn_of_copy_link inRange inside next fun {front _} path =>
          ⟨c :: front, Spells.reads inside member path, fun back whole => by
            rw [whole, List.cons_append]⟩
      · cases joint

/-- From every joint a path to the exit reads what may follow the joint. -/
theorem spells_of_mayFollow (own : SpellsLanguage body) {runs : Nat} :
    ∀ {index : Nat} {text : List Char}, index ≤ copies least most →
      AllowsCount least most (index + runs) → text ∈ language body ^ runs →
        Spells (links (.repeated body least most) base) (base + index * body.size) text
          (base + 1 + copies least most * body.size) := by
  induction runs with
  | zero =>
      intro index text inRange allowed inPower
      rw [pow_zero, Language.mem_one] at inPower
      subst inPower
      exact Spells.silent (mem_links_repeated.mpr (Or.inr (.stop allowed.1 inRange)))
        (Spells.stay _)
  | succ runs inductionHypothesis =>
      intro index text inRange allowed inPower
      rw [pow_succ', Language.mem_mul] at inPower
      obtain ⟨front, copy, back, later, rfl⟩ := inPower
      have throughCopy : ∀ number < copies least most,
          Spells (links (.repeated body least most) base) (base + 1 + number * body.size) front
            (base + (number + 1) * body.size) := by
        intro number known
        have path := (own (base + 1 + number * body.size) front).mpr copy
        rw [copy_exit] at path
        exact path.mono fun link member =>
          mem_links_repeated.mpr (Or.inl ⟨number, known, member⟩)
      rcases Nat.lt_or_eq_of_le inRange with before | atLast
      · have allowedLater : AllowsCount least most (index + 1 + runs) := by
          rwa [Nat.add_right_comm]
        have rest := inductionHypothesis (Nat.succ_le_of_lt before) allowedLater later
        exact Spells.silent (mem_links_repeated.mpr (Or.inr (.enter before)))
          ((throughCopy index before).append rest)
      · have unbounded : most = none := by
          cases most with
          | none => rfl
          | some bound =>
              have within := allowed.2 bound rfl
              have atMost : bound ≤ copies least (some bound) := Nat.le_max_right least bound
              omega
        subst unbounded
        have allowedLater : AllowsCount least none (least + 1 + runs) := ⟨by omega, by simp⟩
        have rest := inductionHypothesis (Nat.le_refl _) allowedLater later
        rw [atLast]
        exact Spells.silent (mem_links_repeated.mpr (Or.inr (.loop rfl)))
          ((throughCopy least (Nat.lt_succ_self least)).append rest)

theorem spellsLanguage_repeated (own : SpellsLanguage body)
    (ordered : ∀ bound, most = some bound → least ≤ bound) :
    SpellsLanguage (.repeated body least most) := by
  intro base text
  have exit : base + (Pattern.repeated body least most).size - 1 =
      base + 1 + copies least most * body.size := by
    rw [size]
    omega
  rw [exit, mem_language_repeated]
  constructor
  · intro path
    have follows := (readsOn_of_spells own ordered path).atJoint 0 (Nat.zero_le _)
      (by rw [Nat.zero_mul, Nat.add_zero])
    obtain ⟨runs, allowed, inPower⟩ := follows
    rw [Nat.zero_add] at allowed
    exact ⟨runs, allowed, inPower⟩
  · rintro ⟨runs, allowed, inPower⟩
    have fromFirst : AllowsCount least most (0 + runs) := by rwa [Nat.zero_add]
    have path : Spells _ (base + 0 * body.size) text _ :=
      spells_of_mayFollow own (Nat.zero_le _) fromFirst inPower
    rwa [Nat.zero_mul, Nat.add_zero] at path

end Repetition

/-! ## All patterns -/

mutual

theorem spellsLanguage : ∀ pattern : Pattern, pattern.hasOrderedCounts = true →
    SpellsLanguage pattern
  | .empty, _ =>
      spellsLanguage_of_silent (by rw [size]) (fun _ => by rw [links]) (by rw [language])
  | .oneOf set, _ => spellsLanguage_oneOf set
  | .sequence [], _ =>
      spellsLanguage_of_silent (by simp [size]) (fun _ => by simp [links])
        (by rw [language, languageOfSequence])
  | .sequence (item :: rest), ordered => by
      intro base text
      rw [hasOrderedCounts] at ordered
      rw [size, links, List.isEmpty_cons, if_neg Bool.false_ne_true, if_neg Bool.false_ne_true,
        language]
      exact sequenceSpells (item :: rest) (List.cons_ne_nil item rest) ordered base text
  | .choice branches, ordered => by
      intro base text
      rw [hasOrderedCounts] at ordered
      have exit : base + (Pattern.choice branches).size - 1 = base + 1 + sizeList branches := by
        rw [size]
        omega
      rw [exit, links, language]
      exact branchesSpell branches ordered base _ (base + 1) text (Nat.lt_succ_self base)
        (Nat.le_refl _)
  | .repeated body least most, ordered => by
      rw [hasOrderedCounts, Bool.and_eq_true] at ordered
      refine spellsLanguage_repeated (spellsLanguage body ordered.2) ?_
      intro bound bounded
      have orderly := ordered.1
      rw [bounded, Option.all_some, decide_eq_true_eq] at orderly
      exact orderly

theorem sequenceSpells : ∀ items : List Pattern, items ≠ [] → haveOrderedCounts items = true →
    SequenceSpells items
  | [], filled, _ => absurd rfl filled
  | item :: rest, _, ordered => by
      rw [haveOrderedCounts, Bool.and_eq_true] at ordered
      have own := spellsLanguage item ordered.1
      cases rest with
      | nil => exact sequenceSpells_singleton own
      | cons next others =>
          exact sequenceSpells_cons own
            (sequenceSpells (next :: others) (List.cons_ne_nil next others) ordered.2)

theorem branchesSpell : ∀ branches : List Pattern, haveOrderedCounts branches = true →
    BranchesSpell branches
  | [], _ => branchesSpell_nil
  | branch :: rest, ordered => by
      rw [haveOrderedCounts, Bool.and_eq_true] at ordered
      exact branchesSpell_cons (spellsLanguage branch ordered.1) (branchesSpell rest ordered.2)

end

end BodyContract.Pattern
