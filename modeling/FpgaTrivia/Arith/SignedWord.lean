import Mathlib.Tactic.Ring

/-!
# Signed machine words

Two's-complement arithmetic on `Int`: `wrap w x` is the `w`-bit signed word
that a register holds after `x` has been stored into it.
-/

namespace FpgaTrivia.Arith

/-- The `w`-bit two's-complement value congruent to `x`. -/
def wrap (w : Nat) (x : Int) : Int :=
  x.bmod (2 ^ w)

/-- Storing a value of the word's range changes nothing. -/
theorem wrap_eq_self {w : Nat} {x : Int} (lower : -(2 ^ w : Nat) ≤ 2 * x)
    (upper : 2 * x < (2 ^ w : Nat)) : wrap w x = x :=
  Int.bmod_eq_of_le_mul_two (by omega) (by omega)

/-- Counting in a register is counting, wrapped once. -/
theorem wrap_add_one (w : Nat) (x : Int) : wrap w (wrap w x + 1) = wrap w (x + 1) :=
  Int.bmod_add_bmod

end FpgaTrivia.Arith
