import BodyContract.Recording.JavaLiteral

/-!
# Reading chains of calls

A chain of calls is read from the front, character by character, as a compiler
reads it: a string literal ends at the first double quote that no backslash
escapes, it goes over no end of a line, and only the escapes of the language are
read.  What is read of a call are its name and the texts of its literals.
-/

namespace BodyContract

/-- The UTF-16 units of a text. -/
def utf16 (text : String) : List Nat := text.toList.flatMap utf16Units

namespace Java

/-! ## String literals -/

/-- Where a character of a string literal stands. -/
inductive LiteralPlace where
  | plain
  /-- Behind a backslash. -/
  | escape
  /-- Behind a backslash and the letter that marks a unit. -/
  | marked
  /-- Behind digits of a unit, after which `left` and one more come. -/
  | digits (left value : Nat)
  /-- Behind octal digits, after which `left` more may come. -/
  | octal (left value : Nat)
deriving DecidableEq

/-- The unit of a character behind a backslash. -/
def escaped? (c : Char) : Option Nat :=
  if c = 'b' then some 8
  else if c = 't' then some 9
  else if c = 'n' then some 10
  else if c = 'f' then some 12
  else if c = 'r' then some 13
  else if c = 's' then some 32
  else if c = '"' then some 34
  else if c = '\'' then some 39
  else if c = '\\' then some 92
  else none

def hexValue? (c : Char) : Option Nat :=
  if c.isDigit then some (c.toNat - '0'.toNat)
  else if 'a' ≤ c ∧ c ≤ 'f' then some (c.toNat - 'a'.toNat + 10)
  else if 'A' ≤ c ∧ c ≤ 'F' then some (c.toNat - 'A'.toNat + 10)
  else none

def octalValue? (c : Char) : Option Nat :=
  if '0' ≤ c ∧ c ≤ '7' then some (c.toNat - '0'.toNat) else none

/-- Whether a unit delimits a literal, begins an escape or ends a line.  Units are
written out before a source is taken apart, so such a unit is no part of a text. -/
def isDelimiting (unit : Nat) : Bool := unit == 34 || unit == 92 || unit == 10 || unit == 13

namespace LiteralPlace

/-- Reads a plain character: the units that it stands for, and the place behind it if
the literal goes on. -/
def nextPlain? (c : Char) : Option (List Nat × Option LiteralPlace) :=
  if c = '"' then some ([], none)
  else if c = '\\' then some ([], some .escape)
  else if c = '\n' ∨ c = '\r' then none
  else some (utf16Units c, some .plain)

/-- Reads the first digit of a unit. -/
def nextDigit? (left value : Nat) (c : Char) : Option (List Nat × Option LiteralPlace) :=
  match hexValue? c, left with
  | none, _ => none
  | some digit, 0 =>
      if isDelimiting (value * 16 + digit) then none
      else some ([value * 16 + digit], some .plain)
  | some digit, left + 1 => some ([], some (.digits left (value * 16 + digit)))

/-- Reads a character of a literal. -/
def next? : LiteralPlace → Char → Option (List Nat × Option LiteralPlace)
  | .plain, c => nextPlain? c
  | .escape, c =>
      if c = 'u' then some ([], some .marked)
      else
        match escaped? c, octalValue? c with
        | some unit, _ => some ([unit], some .plain)
        | none, some digit => some ([], some (.octal (if digit ≤ 3 then 2 else 1) digit))
        | none, none => none
  | .marked, c => if c = 'u' then some ([], some .marked) else nextDigit? 3 0 c
  | .digits left value, c => nextDigit? left value c
  | .octal left value, c =>
      match octalValue? c, left with
      | some digit, left + 1 => some ([], some (.octal left (value * 8 + digit)))
      | _, _ => (nextPlain? c).map fun (units, place) => (value :: units, place)

end LiteralPlace

/-! ## Calls -/

/-- A call as it is read: its name and the texts of its string literals. -/
structure SourceCall where
  name : String
  literals : List (List Nat)
deriving DecidableEq, Repr

/-- Where a character of a chain of calls stands. -/
inductive Place where
  /-- In front of a call or at the end. -/
  | front
  | name (letters : List Char)
  | argument (name : List Char) (literals : List (List Nat))
  | literal (name : List Char) (literals : List (List Nat)) (units : List Nat)
      (place : LiteralPlace)
deriving DecidableEq

/-- Whether a character stands for itself in an argument. -/
def isPlainInArgument (c : Char) : Bool :=
  !(c == '"' || c == '(' || c == ')' || c == '\'' || c == '\\' || c == '\n' || c == '\r')

/-- Calls that have been read, and the place behind them. -/
abbrev Reading := List SourceCall × Place

/-- Reads a character of a chain of calls. -/
def next? : Reading → Char → Option Reading
  | (calls, .front), c => if c = '.' then some (calls, .name []) else none
  | (calls, .name letters), c =>
      if c.isAlpha then some (calls, .name (letters ++ [c]))
      else if c = '(' ∧ letters ≠ [] then some (calls, .argument letters [])
      else none
  | (calls, .argument name literals), c =>
      if c = ')' then some (calls ++ [⟨String.ofList name, literals⟩], .front)
      else if c = '"' then some (calls, .literal name literals [] .plain)
      else if isPlainInArgument c then some (calls, .argument name literals)
      else none
  | (calls, .literal name literals units place), c =>
      (place.next? c).map fun
        | (more, none) => (calls, .argument name (literals ++ [units ++ more]))
        | (more, some behind) => (calls, .literal name literals (units ++ more) behind)

def readFrom? : Reading → List Char → Option Reading
  | reading, [] => some reading
  | reading, c :: rest => (next? reading c).bind fun behind => readFrom? behind rest

/-- The calls of a chain, if the text is one. -/
def readCalls? (text : String) : Option (List SourceCall) :=
  match readFrom? ([], .front) text.toList with
  | some (calls, .front) => some calls
  | _ => none

theorem readFrom?_append (reading : Reading) (first second : List Char) :
    readFrom? reading (first ++ second) =
      (readFrom? reading first).bind fun behind => readFrom? behind second := by
  induction first generalizing reading with
  | nil => rfl
  | cons c rest inductionHypothesis =>
      rw [List.cons_append, readFrom?, readFrom?]
      cases next? reading c with
      | none => rfl
      | some behind => exact inductionHypothesis behind

/-- Whether a text leads from one reading to another one. -/
def Leads (start : Reading) (text : List Char) (behind : Reading) : Prop :=
  readFrom? start text = some behind

theorem leads_nil (start : Reading) : Leads start [] start := (rfl)

theorem leads_cons {start behind : Reading} (middle : Reading) {c : Char} {rest : List Char}
    (first : next? start c = some middle) (later : Leads middle rest behind) :
    Leads start (c :: rest) behind := by
  rw [Leads, readFrom?, first]
  exact later

theorem Leads.append {start middle behind : Reading} {first second : List Char}
    (leads : Leads start first middle) (later : Leads middle second behind) :
    Leads start (first ++ second) behind := by
  rw [Leads, readFrom?_append, leads]
  exact later

theorem leads_single {start behind : Reading} {c : Char} (first : next? start c = some behind) :
    Leads start [c] behind := leads_cons behind first (leads_nil behind)

/-! ## What stands between the quotes of a literal -/

/-- Whether a text stands for units inside a literal. -/
def Spells (text : List Char) (units : List Nat) : Prop :=
  ∀ calls name literals before, Leads (calls, .literal name literals before .plain) text
    (calls, .literal name literals (before ++ units) .plain)

theorem spells_nil : Spells [] [] := by
  intro calls name literals before
  rw [List.append_nil]
  exact leads_nil _

theorem Spells.append {first second : List Char} {units more : List Nat}
    (spells : Spells first units) (later : Spells second more) :
    Spells (first ++ second) (units ++ more) := by
  intro calls name literals before
  rw [← List.append_assoc]
  exact (spells calls name literals before).append (later calls name literals (before ++ units))

theorem spells_flatMap {code : Char → List Char} {text : List Char}
    (each : ∀ c ∈ text, Spells (code c) (utf16Units c)) :
    Spells (text.flatMap code) (text.flatMap utf16Units) := by
  induction text with
  | nil => exact spells_nil
  | cons c rest inductionHypothesis =>
      rw [List.flatMap_cons, List.flatMap_cons]
      have later := inductionHypothesis fun other member => each other (List.mem_cons_of_mem c member)
      exact (each c List.mem_cons_self).append later

/-- Whether a character stands for itself inside a literal. -/
def isPlainInLiteral (c : Char) : Bool :=
  !(c == '"' || c == '\\' || c == '\n' || c == '\r')

theorem spells_plain {c : Char} (plain : isPlainInLiteral c = true) :
    Spells [c] (utf16Units c) := by
  simp only [isPlainInLiteral, Bool.not_eq_true', Bool.or_eq_false_iff, beq_eq_false_iff_ne]
    at plain
  obtain ⟨⟨⟨noQuote, noBackslash⟩, noFeed⟩, noReturn⟩ := plain
  intro calls name literals before
  apply leads_single
  simp [next?, LiteralPlace.next?, LiteralPlace.nextPlain?, noQuote, noBackslash, noFeed, noReturn]

theorem spells_escaped {c : Char} {unit : Nat} (stands : escaped? c = some unit) :
    Spells ['\\', c] [unit] := by
  have noMark : c ≠ 'u' := by
    rintro rfl
    cases stands
  intro calls name literals before
  refine leads_cons (calls, .literal name literals before .escape) ?_ ?_
  · simp [next?, LiteralPlace.next?, LiteralPlace.nextPlain?]
  · apply leads_single
    simp [next?, LiteralPlace.next?, noMark, stands]

/-- A unit is read from its four digits. -/
theorem spells_unit {first second third fourth : Char} {one two three four : Nat}
    (isFirst : hexValue? first = some one) (isSecond : hexValue? second = some two)
    (isThird : hexValue? third = some three) (isFourth : hexValue? fourth = some four)
    (allowed : isDelimiting (((one * 16 + two) * 16 + three) * 16 + four) = false) :
    Spells ['\\', 'u', first, second, third, fourth]
      [((one * 16 + two) * 16 + three) * 16 + four] := by
  have noMark : first ≠ 'u' := by
    rintro rfl
    cases isFirst
  intro calls name literals before
  refine leads_cons (calls, .literal name literals before .escape) ?_ ?_
  · simp [next?, LiteralPlace.next?, LiteralPlace.nextPlain?]
  refine leads_cons (calls, .literal name literals before .marked) ?_ ?_
  · simp [next?, LiteralPlace.next?]
  refine leads_cons (calls, .literal name literals before (.digits 2 one)) ?_ ?_
  · simp [next?, LiteralPlace.next?, LiteralPlace.nextDigit?, noMark, isFirst]
  refine leads_cons (calls, .literal name literals before
    (.digits 1 (one * 16 + two))) ?_ ?_
  · simp [next?, LiteralPlace.next?, LiteralPlace.nextDigit?, isSecond]
  refine leads_cons (calls, .literal name literals before
    (.digits 0 ((one * 16 + two) * 16 + three))) ?_ ?_
  · simp [next?, LiteralPlace.next?, LiteralPlace.nextDigit?, isThird]
  apply leads_single
  simp [next?, LiteralPlace.next?, LiteralPlace.nextDigit?, isFourth, allowed]

/-! ## Arguments -/

/-- Whether a text stands in an argument and has some literals. -/
def FillsArgument (text : List Char) (literals : List (List Nat)) : Prop :=
  ∀ calls name before, Leads (calls, .argument name before) text
    (calls, .argument name (before ++ literals))

theorem fillsArgument_nil : FillsArgument [] [] := by
  intro calls name before
  rw [List.append_nil]
  exact leads_nil _

theorem FillsArgument.append {first second : List Char} {literals more : List (List Nat)}
    (fills : FillsArgument first literals) (later : FillsArgument second more) :
    FillsArgument (first ++ second) (literals ++ more) := by
  intro calls name before
  rw [← List.append_assoc]
  exact (fills calls name before).append (later calls name (before ++ literals))

theorem FillsArgument.cons {c : Char} (plain : isPlainInArgument c = true) {text : List Char}
    {literals : List (List Nat)} (fills : FillsArgument text literals) :
    FillsArgument (c :: text) literals := by
  intro calls name before
  refine leads_cons _ ?_ (fills calls name before)
  simp only [isPlainInArgument, Bool.not_eq_true', Bool.or_eq_false_iff, beq_eq_false_iff_ne]
    at plain
  obtain ⟨⟨⟨⟨⟨⟨noQuote, noOpening⟩, noClosing⟩, noTick⟩, noBackslash⟩, noFeed⟩, noReturn⟩ := plain
  simp [next?, isPlainInArgument, noQuote, noOpening, noClosing, noTick, noBackslash, noFeed,
    noReturn]

theorem fillsArgument_plain {text : List Char} (plain : text.all isPlainInArgument = true) :
    FillsArgument text [] := by
  induction text with
  | nil => exact fillsArgument_nil
  | cons c rest inductionHypothesis =>
      rw [List.all_cons, Bool.and_eq_true] at plain
      exact (inductionHypothesis plain.2).cons plain.1

/-- A closed literal. -/
theorem Spells.fillsArgument {text : List Char} {units : List Nat} (spells : Spells text units) :
    FillsArgument ('"' :: (text ++ ['"'])) [units] := by
  intro calls name before
  refine leads_cons (calls, .literal name before [] .plain) ?_ ?_
  · simp [next?]
  · refine (spells calls name before []).append (leads_single ?_)
    simp [next?, LiteralPlace.next?, LiteralPlace.nextPlain?]

/-! ## Chains -/

/-- Whether a text is a chain of calls. -/
def IsChain (text : String) (calls : List SourceCall) : Prop :=
  ∀ before, Leads (before, .front) text.toList (before ++ calls, .front)

theorem isChain_empty : IsChain "" [] := by
  intro before
  rw [List.append_nil]
  exact leads_nil _

theorem IsChain.append {first second : String} {calls more : List SourceCall}
    (isChain : IsChain first calls) (later : IsChain second more) :
    IsChain (first ++ second) (calls ++ more) := by
  intro before
  rw [String.toList_append, ← List.append_assoc]
  exact (isChain before).append (later (before ++ calls))

theorem IsChain.readCalls?_eq {text : String} {calls : List SourceCall}
    (isChain : IsChain text calls) : readCalls? text = some calls := by
  have read : readFrom? ([], .front) text.toList = some ([] ++ calls, .front) := isChain []
  rw [readCalls?, read]
  rfl

theorem leads_name (calls : List SourceCall) (letters : List Char) {name : List Char}
    (isName : name.all Char.isAlpha = true) :
    Leads (calls, .name letters) name (calls, .name (letters ++ name)) := by
  induction name generalizing letters with
  | nil =>
      rw [List.append_nil]
      exact leads_nil _
  | cons c rest inductionHypothesis =>
      rw [List.all_cons, Bool.and_eq_true] at isName
      have later := inductionHypothesis (letters ++ [c]) isName.2
      rw [List.append_assoc, List.singleton_append] at later
      refine leads_cons _ ?_ later
      rw [next?, if_pos isName.1]

/-- A call of a name with an argument. -/
theorem isChain_call {name : String} (isName : name.toList.all Char.isAlpha = true)
    (filled : name ≠ "") {argument : String} {literals : List (List Nat)}
    (fills : FillsArgument argument.toList literals) :
    IsChain ("." ++ name ++ "(" ++ argument ++ ")") [⟨name, literals⟩] := by
  intro before
  have text : ("." ++ name ++ "(" ++ argument ++ ")").toList =
      '.' :: (name.toList ++ '(' :: (argument.toList ++ [')'])) := by
    simp
  have letters : name.toList ≠ [] := fun empty => filled (String.toList_eq_nil_iff.mp empty)
  rw [text]
  refine leads_cons (before, .name []) rfl ?_
  refine (leads_name before [] isName).append ?_
  refine leads_cons (before, .argument name.toList []) ?_ ?_
  · simp [next?, letters]
  · refine (fills before name.toList []).append (leads_single ?_)
    simp [next?, String.ofList_toList]

end Java

end BodyContract
