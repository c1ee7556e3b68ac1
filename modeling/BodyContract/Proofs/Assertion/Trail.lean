import BodyContract.Proofs.Path.Pieces
import BodyContract.Recording.Call

/-!
# The trail of an assertion

A trail is where an assertion stands without regard to how its path is spelled:
the segments from the root, the member that has just been gone to, and whether
the next check is about the elements of an array.  Each step of an assertion has
a rule on trails.
-/

namespace BodyContract

/-- A place that an assertion has come to. -/
structure Trail where
  /-- The segments from the root. -/
  segments : List Segment
  /-- The member that the last step has gone to. -/
  member? : Option String
  /-- Whether the next check is about the elements of an array. -/
  isAmongElements : Bool

namespace Trail

/-- The root of a document. -/
def root : Trail := ⟨[], none, false⟩

/-- Goes on by segments. -/
def goOn (trail : Trail) (segments : List Segment) : Trail :=
  ⟨trail.segments ++ segments, none, false⟩

/-- Goes to a member. -/
def toMember (trail : Trail) (name : String) : Trail :=
  ⟨trail.segments ++ [.child name], some name, false⟩

/-- The segments without a wildcard at the end. -/
def withoutWildcard (segments : List Segment) : List Segment :=
  match segments.getLast? with
  | some .wildcard => segments.dropLast
  | _ => segments

/-- Keeps what compares with an operand.  Right behind a member, the filter takes
its place and compares the member of that name. -/
def filtered (trail : Trail) (comparison : Comparison) (right : Operand) : Trail :=
  match trail.member? with
  | some name => ⟨trail.segments.dropLast ++
      [.filter (.compares (.current [.child name] false) comparison right)], none, false⟩
  | none => trail.goOn [.filter (.compares (.current [] false) comparison right)]

/-- What a filter stands behind, and what it compares: right behind a member, the member
of what is in front of it. -/
def subject (trail : Trail) : List Segment × Operand :=
  match trail.member? with
  | some name => (trail.segments.dropLast, .current [.child name] false)
  | none => (trail.segments, .current [] false)

theorem filtered_eq (trail : Trail) (comparison : Comparison) (right : Operand) :
    trail.filtered comparison right =
      ⟨trail.subject.1 ++ [.filter (.compares trail.subject.2 comparison right)], none, false⟩ := by
  rw [filtered, subject]
  cases trail.member? <;> rfl

/-- The trail behind a step. -/
def after (trail : Trail) : Call → Trail
  | .contains value =>
      trail.goOn [.filter (.compares (.current [] false) .equal (.literal value))]
  | .field name => trail.toMember name
  | .array name => trail.goOn [.child name, .wildcard]
  | .anonymousArray => trail.goOn [.wildcard]
  | .arrayField => ⟨trail.segments, none, true⟩
  | .elementWithIndex index =>
      ⟨withoutWildcard trail.segments ++ [.element index], none, false⟩
  | .isEqualTo value => trail.filtered .equal (.literal value)
  | .isNull => trail.filtered .equal (.literal .null)
  | .matching pattern =>
      match Path.wholeMatch? pattern with
      | some regex => trail.filtered .matching (.regex regex)
      | none => trail
  | .isEmpty => trail.goOn []
  | .isInstanceOf _ => trail.goOn []
  | .hasSize _ => trail.goOn []
  | .isPresent => trail.goOn []

end Trail

/-- Whether the literal of a value is exact: a text, a word or a whole number of 64
bits. -/
def Json.isExactLiteral : Json → Bool
  | .null => true
  | .bool _ => true
  | .string _ => true
  | .number (.int value) => Number.fits value
  | _ => false

/-- Whether a step has a rule on a trail. -/
def Trail.Allows (trail : Trail) : Call → Prop
  | .contains value => trail.isAmongElements = true ∧ value.isExactLiteral = true
  | .field name => Path.keepsBackslashes name.toList = true
  | .array name => Path.keepsBackslashes name.toList = true
  | .elementWithIndex index => index < twoTo 63
  | .isEqualTo value => value.isExactLiteral = true
  | .matching pattern => (Path.wholeMatch? pattern).isSome = true
  | _ => True

/-- The step with the names of members wrapped in brackets. -/
def Call.wrapped : Call → Call
  | .field name => .field (NameStyle.bracketed.wrap name)
  | .array name => .array (NameStyle.bracketed.wrap name)
  | call => call

/-! ## Moves -/

/-- What can be done with an assertion. -/
inductive Move where
  | step (call : Call)
  | fieldPath (names : List String)
  | withoutChecks

namespace Move

/-- Makes a move, with the names of members wrapped in brackets. -/
def apply (move : Move) (asserter : Asserter) : Except AssertionError Asserter :=
  match move with
  | .step call => call.wrapped.apply asserter
  | .fieldPath names => .ok (asserter.fieldPath (names.map NameStyle.bracketed.wrap))
  | .withoutChecks => .ok asserter.lenient

/-- Makes moves one after another, up to the first that fails. -/
def applyAll : List Move → Asserter → Except AssertionError Asserter
  | [], asserter => .ok asserter
  | move :: rest, asserter => do applyAll rest (← move.apply asserter)

end Move

namespace Trail

/-- The trail behind a move. -/
def move (trail : Trail) : Move → Trail
  | .step call => trail.after call
  | .fieldPath names => names.foldl toMember trail
  | .withoutChecks => trail

/-- The trail behind moves. -/
def moveAll (trail : Trail) (moves : List Move) : Trail := moves.foldl move trail

/-- Whether a move has a rule on a trail. -/
def AllowsMove (trail : Trail) : Move → Prop
  | .step call => trail.Allows call
  | .fieldPath names => ∀ name ∈ names, Path.keepsBackslashes name.toList = true
  | .withoutChecks => True

/-- Whether each of some moves has a rule where it is made. -/
def AllowsAll : Trail → List Move → Prop
  | _, [] => True
  | trail, move :: rest => trail.AllowsMove move ∧ (trail.move move).AllowsAll rest

end Trail

end BodyContract
