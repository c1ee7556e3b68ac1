import Mathlib.Data.List.Nodup
import Mathlib.Logic.Function.Basic
import BodyContract.Proofs.Outcome
import BodyContract.Settings.Variable

/-!
# Variables and settings

A variable of a scope sets the one setting that its name stands for and leaves all others
alone.  So what a list of variables makes of settings can be said for each key alone:

* the list is accepted if every text that is meant for a key is one that the key accepts;
* a key then has the value of its last variable, or its old value if it has none;
* the order of variables with different names does not matter.

A list that is not accepted is refused for its first variable with a wrong text.
-/

namespace BodyContract

namespace SettingKey

/-! ## Names of variables -/

/-- The section of a key, as names of variables have it. -/
def sectionName : SettingKey → String
  | .sampleLimit | .sampleSeed => "GENERATOR"
  | .assertsSize | .usesBrackets | .checksEmptyBody | .framework => "VERIFIER"
  | .isLogEnabled | .logLevel | .logFormat => "LOGGING"

/-- The name of a key in its section. -/
def fieldName : SettingKey → String
  | .sampleLimit => "ITERATION_LIMIT"
  | .sampleSeed => "SEED"
  | .assertsSize => "ASSERT_JSON_SIZE"
  | .usesBrackets => "BRACKET_NOTATION"
  | .checksEmptyBody => "INCLUDE_EMPTY_CHECK"
  | .framework => "TEST_FRAMEWORK"
  | .isLogEnabled => "ENABLED"
  | .logLevel => "LEVEL"
  | .logFormat => "FORMAT"

/-- The name of a key without a scope. -/
def name (key : SettingKey) : String := key.sectionName ++ "__" ++ key.fieldName

/-- The name of the variable of a scope that sets a key. -/
def variableName (scope : String) (key : SettingKey) : String := scope ++ "__" ++ key.name

theorem ofName?_eq_some_iff {text : String} {key : SettingKey} :
    ofName? text = some key ↔ text = key.name := by
  constructor
  · intro found
    rw [ofName?.eq_def] at found
    split at found <;> cases found <;> rfl
  · rintro rfl
    cases key <;> rfl

theorem ofVariable?_eq_some_iff {scope text : String} {key : SettingKey} :
    ofVariable? scope text = some key ↔ text = key.variableName scope := by
  rw [ofVariable?, variableName]
  generalize scope ++ "__" = front
  constructor
  · intro found
    split at found
    · rename_i begins
      obtain ⟨rest, whole⟩ := List.isPrefixOf_iff_prefix.mp begins
      rw [← whole, List.drop_left, ofName?_eq_some_iff] at found
      rw [← String.toList_inj, ← whole, String.toList_append, ← found, String.toList_ofList]
    · cases found
  · rintro rfl
    have begins : front.toList.isPrefixOf (front ++ key.name).toList = true := by
      rw [List.isPrefixOf_iff_prefix, String.toList_append]
      exact List.prefix_append _ _
    rw [if_pos begins, String.toList_append, List.drop_left, String.ofList_toList,
      ofName?_eq_some_iff]

/-- Every key has a variable of its own. -/
theorem variableName_injective (scope : String) : Function.Injective (variableName scope) := by
  intro left right same
  have found := ofVariable?_eq_some_iff.mpr same
  rw [ofVariable?_eq_some_iff.mpr rfl] at found
  exact Option.some.inj found

theorem exists_variableName_or_foreign (scope text : String) :
    (∃ key, text = variableName scope key) ∨ ∀ key, text ≠ variableName scope key := by
  rw [← not_exists]
  exact Classical.em _

/-! ## Values of keys -/

/-- What a key can be set to. -/
def Value : SettingKey → Type
  | .sampleLimit => Nat
  | .sampleSeed => Option Nat
  | .assertsSize | .usesBrackets | .checksEmptyBody | .isLogEnabled => Bool
  | .framework => TestFramework
  | .logLevel => String
  | .logFormat => LogFormat

/-- The value that a text stands for, if the key accepts it. -/
def read? (text : String) : (key : SettingKey) → Option key.Value
  | .sampleLimit => Settings.numberOfText? text
  | .sampleSeed => Settings.seedOfText? text
  | .assertsSize | .usesBrackets | .checksEmptyBody | .isLogEnabled => Settings.truthOfText? text
  | .framework => TestFramework.ofName? (lowerText text)
  | .logLevel => some text
  | .logFormat => LogFormat.ofText? text

/-- A text is a whole number of 64 bits: digits, with a plus sign in front or without. -/
def IsWholeNumber (text : String) : Prop :=
  ∃ digits : List Char, (text.toList = digits ∨ text.toList = '+' :: digits) ∧ digits ≠ [] ∧
    digits.all Char.isDigit = true ∧ Numeral.value digits < twoTo 64

/-- A key accepts a text. -/
def Takes (text : String) : SettingKey → Prop
  | .sampleLimit => IsWholeNumber text
  | .sampleSeed => text = "" ∨ lowerAscii text = "none" ∨ IsWholeNumber text
  | .assertsSize | .usesBrackets | .checksEmptyBody | .isLogEnabled =>
      lowerText text ∈ ["true", "1", "yes", "on", "false", "0", "no", "off"]
  | .framework => lowerText text ∈ ["java", "groovy"]
  | .logLevel => True
  | .logFormat => lowerText text ∈ ["json", "pretty", "compact"]

theorem digitsValue?_eq_some_iff {digits : List Char} {number : Nat} :
    digitsValue? digits = some number ↔
      digits ≠ [] ∧ digits.all Char.isDigit = true ∧ Numeral.value digits = number := by
  simp [digitsValue?, and_assoc]

theorem unsignedWhole?_eq_some_iff {text : String} {number : Nat} :
    unsignedWhole? text = some number ↔
      ∃ digits : List Char, (text.toList = digits ∨ text.toList = '+' :: digits) ∧ digits ≠ [] ∧
        digits.all Char.isDigit = true ∧ Numeral.value digits = number := by
  rw [unsignedWhole?]
  split
  · rename_i digits signed
    rw [digitsValue?_eq_some_iff]
    constructor
    · intro isValue
      exact ⟨digits, Or.inr signed, isValue⟩
    · rintro ⟨others, plain | alsoSigned, filled, allDigits, isNumber⟩
      · -- a plus sign is no digit
        rw [← plain, signed] at allDigits
        cases allDigits
      · obtain rfl := (List.cons.inj (signed.symm.trans alsoSigned)).2
        exact ⟨filled, allDigits, isNumber⟩
  · rename_i unsigned
    rw [digitsValue?_eq_some_iff]
    constructor
    · intro isValue
      exact ⟨text.toList, Or.inl rfl, isValue⟩
    · rintro ⟨digits, rfl | signed, isValue⟩
      · exact isValue
      · exact absurd signed (unsigned digits)

theorem isSome_numberOfText?_iff {text : String} :
    (Settings.numberOfText? text).isSome = true ↔ IsWholeNumber text := by
  have small : (Settings.numberOfText? text).isSome = true ↔
      ∃ number, unsignedWhole? text = some number ∧ number < twoTo 64 := by
    rw [Settings.numberOfText?]
    cases unsignedWhole? text <;> simp
  rw [small]
  constructor
  · rintro ⟨number, isWhole, isSmall⟩
    obtain ⟨digits, isText, filled, allDigits, rfl⟩ := unsignedWhole?_eq_some_iff.mp isWhole
    exact ⟨digits, isText, filled, allDigits, isSmall⟩
  · rintro ⟨digits, isText, filled, allDigits, isSmall⟩
    exact ⟨Numeral.value digits,
      unsignedWhole?_eq_some_iff.mpr ⟨digits, isText, filled, allDigits, rfl⟩, isSmall⟩

theorem isSome_seedOfText?_iff {text : String} :
    (Settings.seedOfText? text).isSome = true ↔
      text = "" ∨ lowerAscii text = "none" ∨ IsWholeNumber text := by
  rw [Settings.seedOfText?, ← or_assoc]
  split
  · rename_i isNone
    rw [Bool.or_eq_true, String.isEmpty_iff, beq_iff_eq] at isNone
    exact iff_of_true rfl (Or.inl isNone)
  · rename_i isOther
    rw [Bool.or_eq_true, String.isEmpty_iff, beq_iff_eq] at isOther
    rw [or_iff_right isOther, Option.isSome_map, isSome_numberOfText?_iff]

theorem isSome_truthOfText?_iff {text : String} :
    (Settings.truthOfText? text).isSome = true ↔
      lowerText text ∈ ["true", "1", "yes", "on", "false", "0", "no", "off"] := by
  rw [Settings.truthOfText?]
  split <;> simp_all

theorem isSome_frameworkOfName?_iff {name : String} :
    (TestFramework.ofName? name).isSome = true ↔ name ∈ ["java", "groovy"] := by
  rw [TestFramework.ofName?.eq_def]
  split <;> simp_all

theorem isSome_logFormatOfName?_iff {name : String} :
    (LogFormat.ofName? name).isSome = true ↔ name ∈ ["json", "pretty", "compact"] := by
  rw [LogFormat.ofName?.eq_def]
  split <;> simp_all

theorem isSome_read?_iff {text : String} {key : SettingKey} :
    (key.read? text).isSome = true ↔ key.Takes text := by
  cases key with
  | sampleLimit => exact isSome_numberOfText?_iff
  | sampleSeed => exact isSome_seedOfText?_iff
  | assertsSize | usesBrackets | checksEmptyBody | isLogEnabled => exact isSome_truthOfText?_iff
  | framework => exact isSome_frameworkOfName?_iff
  | logLevel => exact iff_of_true rfl trivial
  | logFormat => exact isSome_logFormatOfName?_iff

end SettingKey

namespace Settings

/-- The value of a key. -/
def value (settings : Settings) : (key : SettingKey) → key.Value
  | .sampleLimit => settings.samples.limit
  | .sampleSeed => settings.samples.seed
  | .assertsSize => settings.verifier.assertsSize
  | .usesBrackets => settings.verifier.usesBrackets
  | .checksEmptyBody => settings.verifier.checksEmptyBody
  | .framework => settings.verifier.framework
  | .isLogEnabled => settings.logging.isEnabled
  | .logLevel => settings.logging.level
  | .logFormat => settings.logging.format

/-- The settings with given values. -/
def ofValues (values : (key : SettingKey) → key.Value) : Settings where
  samples := ⟨values .sampleLimit, values .sampleSeed⟩
  verifier := ⟨values .assertsSize, values .usesBrackets, values .checksEmptyBody,
    values .framework⟩
  logging := ⟨values .isLogEnabled, values .logLevel, values .logFormat⟩

theorem ofValues_value (settings : Settings) : ofValues settings.value = settings := rfl

theorem value_ofValues (values : (key : SettingKey) → key.Value) :
    (ofValues values).value = values := by
  funext key
  cases key <;> rfl

/-- Settings are known by the values of their keys. -/
theorem value_injective : Function.Injective value := by
  intro left right same
  rw [← ofValues_value left, same, ofValues_value]

/-- Setting a key changes its value alone. -/
theorem set?_eq (settings : Settings) (key : SettingKey) (text : String) :
    settings.set? key text = (key.read? text).map fun read =>
      ofValues (Function.update settings.value key read) := by
  cases key with
  | logLevel => rfl
  | _ => exact Option.map_eq_bind.symm

/-! ## One variable -/

section Assigning

variable {scope text : String} {settings changed : Settings}

/-- The value of a key before and behind variables, the last of which has the text given,
if there is one. -/
def IsSetBy (key : SettingKey) (last? : Option String) (before behind : key.Value) : Prop :=
  match last? with
  | none => behind = before
  | some text => key.read? text = some behind

theorem IsSetBy.unique {key : SettingKey} {last? : Option String} {before left right : key.Value}
    (first : IsSetBy key last? before left) (second : IsSetBy key last? before right) :
    left = right := by
  cases last? with
  | none => exact first.trans second.symm
  | some text => exact Option.some.inj (first.symm.trans second)

/-- What comes later decides. -/
theorem IsSetBy.trans {key : SettingKey} {earlier? later? : Option String}
    {before between behind : key.Value} (first : IsSetBy key earlier? before between)
    (second : IsSetBy key later? between behind) :
    IsSetBy key (later?.or earlier?) before behind := by
  cases later? with
  | none =>
      rw [Option.none_or, show behind = between from second]
      exact first
  | some text => exact second

/-- The text of the last variable for a key. -/
def lastText? (scope : String) (assignments : List (String × String)) (key : SettingKey) :
    Option String :=
  assignments.reverse.lookup (key.variableName scope)

theorem lastText?_cons (scope : String) (assignment : String × String)
    (rest : List (String × String)) (key : SettingKey) :
    lastText? scope (assignment :: rest) key =
      (lastText? scope rest key).or (lastText? scope [assignment] key) := by
  rw [lastText?, List.reverse_cons, List.lookup_append]
  rfl

theorem lastText?_single_self (scope text : String) (key : SettingKey) :
    lastText? scope [(key.variableName scope, text)] key = some text := by
  simp [lastText?]

theorem lastText?_single_of_ne {name : String} {key : SettingKey}
    (different : name ≠ key.variableName scope) (text : String) :
    lastText? scope [(name, text)] key = none := by
  rw [lastText?, List.reverse_singleton, List.lookup_cons, beq_false_of_ne different.symm]
  rfl

/-- Every variable for a key has a text that the key accepts. -/
def Accepts (scope : String) (assignments : List (String × String)) : Prop :=
  ∀ (key : SettingKey) (text : String), (key.variableName scope, text) ∈ assignments →
    key.Takes text

theorem accepts_nil (scope : String) : Accepts scope [] :=
  fun _ _ member => absurd member List.not_mem_nil

theorem accepts_cons_iff {assignment : String × String} {rest : List (String × String)} :
    Accepts scope (assignment :: rest) ↔ Accepts scope [assignment] ∧ Accepts scope rest := by
  simp only [Accepts, List.mem_cons, List.not_mem_nil, or_false, or_imp, forall_and]

theorem accepts_foreign {name : String} (foreign : ∀ key, name ≠ SettingKey.variableName scope key)
    (text : String) : Accepts scope [(name, text)] := by
  intro key other member
  have same := (Prod.mk.inj (List.mem_singleton.mp member)).1
  exact absurd same.symm (foreign key)

theorem accepts_variableName_iff {key : SettingKey} :
    Accepts scope [(key.variableName scope, text)] ↔ key.Takes text := by
  constructor
  · intro accepts
    exact accepts key text (List.mem_singleton_self _)
  · intro takes other otherText member
    obtain ⟨sameName, rfl⟩ := Prod.mk.inj (List.mem_singleton.mp member)
    obtain rfl := SettingKey.variableName_injective scope sameName
    exact takes

/-- A variable with the name of no key changes nothing. -/
theorem setVariable_foreign {name : String}
    (foreign : ∀ key, name ≠ SettingKey.variableName scope key) (text : String) :
    settings.setVariable scope name text = .ok settings := by
  rw [setVariable]
  cases found : SettingKey.ofVariable? scope name with
  | none => rfl
  | some key => exact absurd (SettingKey.ofVariable?_eq_some_iff.mp found) (foreign key)

theorem setVariable_variableName (settings : Settings) (scope text : String) (key : SettingKey) :
    settings.setVariable scope (key.variableName scope) text =
      match key.read? text with
      | none => .error (.invalidVariable (key.variableName scope) key.expectation)
      | some read => .ok (ofValues (Function.update settings.value key read)) := by
  rw [setVariable, SettingKey.ofVariable?_eq_some_iff.mpr rfl]
  simp only [set?_eq]
  cases key.read? text <;> rfl

/-- A variable is accepted by its text alone, whatever the settings are. -/
theorem setVariable_isOk_iff (settings : Settings) {name : String} :
    (∃ changed, settings.setVariable scope name text = .ok changed) ↔
      Accepts scope [(name, text)] := by
  obtain ⟨key, rfl⟩ | foreign := SettingKey.exists_variableName_or_foreign scope name
  · rw [setVariable_variableName, accepts_variableName_iff, ← SettingKey.isSome_read?_iff]
    cases key.read? text <;> simp
  · exact iff_of_true ⟨settings, setVariable_foreign foreign text⟩ (accepts_foreign foreign text)

/-- What one variable does to each key. -/
theorem isSetBy_of_setVariable {name : String}
    (isSet : settings.setVariable scope name text = .ok changed) (key : SettingKey) :
    IsSetBy key (lastText? scope [(name, text)] key) (settings.value key) (changed.value key) := by
  obtain ⟨own, rfl⟩ | foreign := SettingKey.exists_variableName_or_foreign scope name
  · rw [setVariable_variableName] at isSet
    cases read : own.read? text with
    | none => rw [read] at isSet; cases isSet
    | some new =>
        rw [read] at isSet
        obtain rfl := Except.ok.inj isSet
        rw [value_ofValues]
        by_cases same : key = own
        · subst same
          rw [lastText?_single_self, Function.update_self]
          exact read
        · have different : own.variableName scope ≠ key.variableName scope :=
            fun sameName => same (SettingKey.variableName_injective scope sameName).symm
          rw [lastText?_single_of_ne different, Function.update_of_ne same]
          rfl
  · rw [setVariable_foreign foreign] at isSet
    obtain rfl := Except.ok.inj isSet
    rw [lastText?_single_of_ne (foreign key)]
    rfl

/-- A variable is refused with an error, which has its name and what it must hold. -/
def IsRefused (scope : String) (assignment : String × String) (error : SettingsError) : Prop :=
  ∃ key, assignment.1 = SettingKey.variableName scope key ∧ ¬ key.Takes assignment.2 ∧
    error = .invalidVariable assignment.1 key.expectation

theorem setVariable_eq_error_iff (settings : Settings) {name : String} {error : SettingsError} :
    settings.setVariable scope name text = .error error ↔ IsRefused scope (name, text) error := by
  obtain ⟨key, rfl⟩ | foreign := SettingKey.exists_variableName_or_foreign scope name
  · rw [setVariable_variableName]
    constructor
    · intro fails
      refine ⟨key, rfl, ?_⟩
      rw [← SettingKey.isSome_read?_iff]
      cases read : key.read? text with
      | none =>
          rw [read] at fails
          exact ⟨Bool.false_ne_true, (Except.error.inj fails).symm⟩
      | some new => rw [read] at fails; cases fails
    · rintro ⟨other, sameName, refused, rfl⟩
      obtain rfl := SettingKey.variableName_injective scope sameName
      rw [← SettingKey.isSome_read?_iff, Bool.not_eq_true, Option.isSome_eq_false_iff,
        Option.isNone_iff_eq_none] at refused
      rw [refused]
  · rw [setVariable_foreign foreign]
    constructor
    · intro fails
      cases fails
    · rintro ⟨key, isNamed, -⟩
      exact absurd isNamed (foreign key)

/-! ## All variables -/

variable {assignments others : List (String × String)}

theorem setVariables_cons_eq_ok_iff {name : String} {rest : List (String × String)} :
    settings.setVariables scope ((name, text) :: rest) = .ok changed ↔
      ∃ between, settings.setVariable scope name text = .ok between ∧
        between.setVariables scope rest = .ok changed :=
  bind_eq_ok_iff

theorem setVariables_isOk_iff (settings : Settings) :
    (∃ changed, settings.setVariables scope assignments = .ok changed) ↔
      Accepts scope assignments := by
  induction assignments generalizing settings with
  | nil => exact iff_of_true ⟨settings, rfl⟩ (accepts_nil scope)
  | cons first rest inductionHypothesis =>
      obtain ⟨name, text⟩ := first
      rw [accepts_cons_iff, ← setVariable_isOk_iff settings]
      simp only [setVariables_cons_eq_ok_iff]
      constructor
      · rintro ⟨changed, between, isSet, others⟩
        exact ⟨⟨between, isSet⟩, (inductionHypothesis between).mp ⟨changed, others⟩⟩
      · rintro ⟨⟨between, isSet⟩, accepts⟩
        obtain ⟨changed, others⟩ := (inductionHypothesis between).mpr accepts
        exact ⟨changed, between, isSet, others⟩

/-- What a list of variables does to each key. -/
theorem isSetBy_of_setVariables (areSet : settings.setVariables scope assignments = .ok changed)
    (key : SettingKey) :
    IsSetBy key (lastText? scope assignments key) (settings.value key) (changed.value key) := by
  -- the first variable starts from the settings given, the others from those behind it
  induction assignments generalizing settings with
  | nil =>
      obtain rfl := Except.ok.inj areSet
      rfl
  | cons first rest inductionHypothesis =>
      obtain ⟨between, isSet, others⟩ := setVariables_cons_eq_ok_iff.mp areSet
      rw [lastText?_cons]
      exact (isSetBy_of_setVariable isSet key).trans (inductionHypothesis others)

/-- The settings behind variables, key by key. -/
theorem setVariables_eq_ok_iff : settings.setVariables scope assignments = .ok changed ↔
    Accepts scope assignments ∧ ∀ key,
      IsSetBy key (lastText? scope assignments key) (settings.value key) (changed.value key) := by
  constructor
  · intro areSet
    exact ⟨(setVariables_isOk_iff settings).mp ⟨changed, areSet⟩, isSetBy_of_setVariables areSet⟩
  · rintro ⟨accepts, each⟩
    obtain ⟨result, areSet⟩ := (setVariables_isOk_iff settings).mpr accepts
    have same : result = changed := value_injective <| funext fun key =>
      (isSetBy_of_setVariables areSet key).unique (each key)
    rw [areSet, same]

/-- The first variable with a text that its key does not accept is refused with an error. -/
def HasFirstRefused (scope : String) (assignments : List (String × String))
    (error : SettingsError) : Prop :=
  ∃ front assignment back, assignments = front ++ assignment :: back ∧ Accepts scope front ∧
    IsRefused scope assignment error

theorem hasFirstRefused_cons_iff {assignment : String × String} {rest : List (String × String)}
    {error : SettingsError} : HasFirstRefused scope (assignment :: rest) error ↔
      IsRefused scope assignment error ∨
        Accepts scope [assignment] ∧ HasFirstRefused scope rest error := by
  constructor
  · rintro ⟨front, first, back, whole, accepts, isRefused⟩
    cases front with
    | nil =>
        obtain ⟨rfl, rfl⟩ := List.cons.inj whole
        exact Or.inl isRefused
    | cons head others =>
        obtain ⟨rfl, rfl⟩ := List.cons.inj whole
        have both := accepts_cons_iff.mp accepts
        exact Or.inr ⟨both.1, others, first, back, rfl, both.2, isRefused⟩
  · rintro (isRefused | ⟨accepted, front, first, back, rfl, accepts, isRefused⟩)
    · exact ⟨[], assignment, rest, rfl, accepts_nil scope, isRefused⟩
    · exact ⟨assignment :: front, first, back, rfl, accepts_cons_iff.mpr ⟨accepted, accepts⟩,
        isRefused⟩

/-- Variables are refused with the error of the first one that is. -/
theorem setVariables_eq_error_iff {error : SettingsError} :
    settings.setVariables scope assignments = .error error ↔
      HasFirstRefused scope assignments error := by
  induction assignments generalizing settings with
  | nil => simp [setVariables, HasFirstRefused]
  | cons first rest inductionHypothesis =>
      obtain ⟨name, text⟩ := first
      rw [setVariables, hasFirstRefused_cons_iff, ← setVariable_eq_error_iff settings,
        ← setVariable_isOk_iff settings]
      cases settings.setVariable scope name text with
      | error failure =>
          change Except.error failure = Except.error error ↔ _
          simp
      | ok between =>
          change between.setVariables scope rest = .error error ↔ _
          rw [inductionHypothesis]
          simp

/-! ## The order of variables -/

theorem lastText?_eq_some_iff (distinct : (assignments.map Prod.fst).Nodup) {key : SettingKey} :
    lastText? scope assignments key = some text ↔
      (key.variableName scope, text) ∈ assignments := by
  rw [lastText?, List.lookup_eq_some_iff, ← List.mem_reverse]
  constructor
  · rintro ⟨front, back, whole, -⟩
    rw [whole]
    exact List.mem_append_right front List.mem_cons_self
  · intro member
    obtain ⟨front, back, whole⟩ := List.append_of_mem member
    have reversed : (assignments.reverse.map Prod.fst).Nodup :=
      ((List.reverse_perm assignments).map Prod.fst).nodup_iff.mpr distinct
    rw [whole, List.map_append, List.map_cons, List.nodup_middle, List.nodup_cons,
      List.mem_append, not_or] at reversed
    refine ⟨front, back, whole, fun other inFront => ?_⟩
    rw [bne_iff_ne]
    intro same
    exact reversed.1.1 (List.mem_map.mpr ⟨other, inFront, same.symm⟩)

theorem accepts_perm (reordered : assignments.Perm others) :
    Accepts scope assignments ↔ Accepts scope others := by
  simp only [Accepts, reordered.mem_iff]

theorem lastText?_perm (distinct : (assignments.map Prod.fst).Nodup)
    (reordered : assignments.Perm others) :
    lastText? scope assignments = lastText? scope others := by
  have alsoDistinct : (others.map Prod.fst).Nodup := (reordered.map Prod.fst).nodup_iff.mp distinct
  funext key
  apply Option.ext
  intro text
  rw [lastText?_eq_some_iff distinct, lastText?_eq_some_iff alsoDistinct, reordered.mem_iff]

end Assigning

/-- Variables of a scope are accepted if each one that is named for a key has a text that
the key accepts.  Behind them, every key has the value of its last variable, or its old
value without one, and nothing else is in settings.  In another order, variables with
different names lead to the same settings or are refused as well. -/
theorem setVariables_layered (scope : String) (settings : Settings)
    (assignments : List (String × String)) :
    ((∃ changed, settings.setVariables scope assignments = .ok changed) ↔
        Accepts scope assignments) ∧
      (∀ changed, settings.setVariables scope assignments = .ok changed ↔
        Accepts scope assignments ∧ ∀ key,
          IsSetBy key (lastText? scope assignments key) (settings.value key)
            (changed.value key)) ∧
      ∀ others, (assignments.map Prod.fst).Nodup → assignments.Perm others →
        ∀ changed, settings.setVariables scope assignments = .ok changed ↔
          settings.setVariables scope others = .ok changed := by
  refine ⟨setVariables_isOk_iff settings, fun changed => setVariables_eq_ok_iff, ?_⟩
  intro others distinct reordered changed
  rw [setVariables_eq_ok_iff, setVariables_eq_ok_iff, accepts_perm reordered,
    lastText?_perm distinct reordered]

/-- Variables for two keys, one with the name of no key, and one of another scope. -/
def mixedVariables : List (String × String) :=
  [("APP__GENERATOR__SEED", "None"), ("APP__GENERATOR__SPEED", "fast"),
    ("OTHER__LOGGING__FORMAT", "loud"), ("APP__GENERATOR__ITERATION_LIMIT", "+50")]

theorem mixedVariables_layered :
    (mixedVariables.map Prod.fst).Nodup ∧ mixedVariables.Perm mixedVariables.reverse ∧
      default.setVariables "APP" mixedVariables.reverse = .ok { samples := { limit := 50 } } := by
  have distinct : (mixedVariables.map Prod.fst).Nodup := by decide
  have reordered : mixedVariables.Perm mixedVariables.reverse := mixedVariables.reverse_perm.symm
  have inOrder : default.setVariables "APP" mixedVariables = .ok { samples := { limit := 50 } } :=
    rfl
  exact ⟨distinct, reordered,
    ((setVariables_layered "APP" default mixedVariables).2.2 _ distinct reordered _).mp inOrder⟩

end Settings

end BodyContract
