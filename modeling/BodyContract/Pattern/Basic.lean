import BodyContract.CharSet
/-!
Expressions that describe texts.

A `Pattern` is the tree of an expression. Groups leave no trace in it, and anchors are the empty
expression, because a pattern always speaks about a whole text.

* `Pattern.size` counts the states that the automaton of a pattern is built from.
* `PatternError` lists what can be wrong with an expression, and `PatternError.message` words it.
-/

namespace BodyContract

/-- The tree of an expression. -/
inductive Pattern where
  /-- The empty text. -/
  | empty
  /-- One character of the set; nothing at all if the set is empty. -/
  | oneOf (set : CharSet)
  /-- One text of each item, one behind the other. -/
  | sequence (items : List Pattern)
  /-- A text of one of the branches; nothing at all if there is none. -/
  | choice (branches : List Pattern)
  /-- At least `least` and at most `most` texts of the body, one behind the other; any number from
  `least` on if `most` is absent. -/
  | repeated (body : Pattern) (least : Nat) (most : Option Nat)
deriving Repr, Inhabited

namespace Pattern

/-- One character. -/
def literal (c : Char) : Pattern := .oneOf (.single c)

/-- The items one behind the other, without a node of their own where there is only one. -/
def ofSequence : List Pattern → Pattern
  | [] => .empty
  | [only] => only
  | items => .sequence items

/-- Any of the branches, without a node of their own where there is only one. -/
def ofChoice : List Pattern → Pattern
  | [only] => only
  | branches => .choice branches

/-- How often the automaton of a repetition holds a copy of its body. A `most` below `least` adds
nothing; an unbounded repetition ends in a loop, which is one copy more. -/
def copies (least : Nat) : Option Nat → Nat
  | none => least + 1
  | some most => max least most

mutual

/-- The number of states that the automaton of a pattern is built from, before any set of them is
formed. -/
def size : Pattern → Nat
  | .empty => 2
  | .oneOf _ => 2
  | .sequence items => if items.isEmpty then 2 else sizeList items
  | .choice branches => 2 + sizeList branches
  | .repeated body least most => 2 + copies least most * body.size

/-- The states of all patterns of a list. -/
def sizeList : List Pattern → Nat
  | [] => 0
  | pattern :: rest => pattern.size + sizeList rest

end

end Pattern

/-- What can be malformed in an expression. -/
inductive PatternFault where
  | endOfExpression
  | unmatchedParenthesis
  | unclosedGroup
  | nothingToRepeat (operator : Char)
  | nothingToRepeatCount
  | expectedCount
  | expectedClosingBrace
  | reversedCounts
  | unterminatedQuote
  | trailingBackslash
  | unclosedClass
  | emptyClass
  | invalidRangeStart
  | invalidRangeEnd
  | reversedRange
deriving DecidableEq, Repr

/-- The wording of a fault. -/
def PatternFault.message : PatternFault → String
  | .endOfExpression => "unexpected end of expression"
  | .unmatchedParenthesis => "unmatched ')'"
  | .unclosedGroup => "unclosed group"
  | .nothingToRepeat operator =>
      "repetition operator '" ++ operator.toString ++ "' has nothing to repeat"
  | .nothingToRepeatCount => "repetition has nothing to repeat"
  | .expectedCount => "expected repetition count"
  | .expectedClosingBrace => "expected '\x7d'"
  | .reversedCounts => "repetition maximum is smaller than minimum"
  | .unterminatedQuote => "unterminated quoted string"
  | .trailingBackslash => "trailing backslash"
  | .unclosedClass => "unclosed character class"
  | .emptyClass => "empty character class"
  | .invalidRangeStart => "invalid range start"
  | .invalidRangeEnd => "invalid range end"
  | .reversedRange => "range out of order"

/-- Why an expression has no automaton. Positions count bytes. -/
inductive PatternError where
  /-- The text breaks the grammar. -/
  | malformed (position : Nat) (fault : PatternFault)
  /-- The text uses a construct outside the grammar. -/
  | unsupported (position : Nat) (construct : String)
  /-- A repetition count is above the limit. -/
  | repetitionTooLarge (position bound limit : Nat)
  /-- The automaton would have more states than allowed. -/
  | tooComplex (limit : Nat)
deriving DecidableEq, Repr

namespace PatternError

/-- The byte at which the fault was found, if it has a place. -/
def position? : PatternError → Option Nat
  | .malformed position _ => some position
  | .unsupported position _ => some position
  | .repetitionTooLarge position _ _ => some position
  | .tooComplex _ => none

/-- The wording of an error. -/
def message : PatternError → String
  | .malformed position fault =>
      "syntax error at position " ++ toString position ++ ": " ++ fault.message
  | .unsupported position construct =>
      "unsupported construct \x60" ++ construct ++ "\x60 at position " ++ toString position
  | .repetitionTooLarge position bound limit =>
      "repetition bound " ++ toString bound ++ " at position " ++ toString position ++
        " exceeds the limit of " ++ toString limit
  | .tooComplex limit =>
      "expression is too complex: more than " ++ toString limit ++ " automaton states"

end PatternError

end BodyContract
