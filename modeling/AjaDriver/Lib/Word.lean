/-
# Signed machine words

A signed word of `w` bits is an integer of the range `[-2^(w-1), 2^(w-1))`;
`wrap` brings the result of an operation back into it. Only the 32-bit
word is used.
-/
import Mathlib.Algebra.Group.Int.Defs
import Mathlib.Algebra.Group.Nat.Defs

namespace Word

/-- The signed 32-bit word congruent to `x`. -/
def wrap (x : ℤ) : ℤ := Int.bmod x (2 ^ 32)

/-- The unsigned value of a signed 32-bit word. -/
def unsigned (x : ℤ) : ℤ := x % 2 ^ 32

theorem wrap_of_range {x : ℤ} (h1 : -2 ^ 31 ≤ x) (h2 : x < 2 ^ 31) : wrap x = x :=
  Int.bmod_eq_of_le (by omega) (by omega)

theorem wrap_lt (x : ℤ) : wrap x < 2 ^ 31 := Int.bmod_lt (by decide)

@[simp] theorem wrap_wrap (x : ℤ) : wrap (wrap x) = wrap x := Int.bmod_bmod

theorem wrap_wrap_add (x y : ℤ) : wrap (wrap x + y) = wrap (x + y) := Int.bmod_add_bmod

theorem wrap_wrap_sub (x y : ℤ) : wrap (wrap x - y) = wrap (x - y) := Int.bmod_sub_bmod

end Word
