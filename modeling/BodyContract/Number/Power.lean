/-!
Powers of two and of ten: the sizes of machine words, and the scales of binary and of decimal
numbers.
-/

namespace BodyContract

/-- A power of two. There are `twoTo bits` values of a word of so many bits. -/
def twoTo (exponent : Nat) : Nat := Nat.pow 2 exponent

/-- A power of ten: the weight of a decimal digit that has `exponent` places behind it. -/
def tenTo (exponent : Nat) : Nat := Nat.pow 10 exponent

theorem twoTo_pos (exponent : Nat) : 0 < twoTo exponent := Nat.pow_pos (by decide)

theorem tenTo_pos (exponent : Nat) : 0 < tenTo exponent := Nat.pow_pos (by decide)

@[simp] theorem twoTo_zero : twoTo 0 = 1 := rfl

@[simp] theorem tenTo_zero : tenTo 0 = 1 := rfl

theorem twoTo_succ (exponent : Nat) : twoTo (exponent + 1) = twoTo exponent * 2 := rfl

theorem tenTo_succ (exponent : Nat) : tenTo (exponent + 1) = tenTo exponent * 10 := rfl

theorem twoTo_add (first second : Nat) : twoTo (first + second) = twoTo first * twoTo second :=
  Nat.pow_add 2 first second

theorem tenTo_add (first second : Nat) : tenTo (first + second) = tenTo first * tenTo second :=
  Nat.pow_add 10 first second

end BodyContract
