import Mathlib.Algebra.Order.Ring.Int
import Mathlib.Tactic.Common

/-!
# Signed machine integers with checked arithmetic

The values of a signed integer with `w` bits besides its sign. Signed arithmetic overflows where
its result does not fit; a result of unsigned arithmetic is converted back modulo the width. On
values that fit both are the arithmetic of the integers.
-/

namespace CheckedInt

variable {w : ℕ} {x : ℤ}

def Fits (w : ℕ) (x : ℤ) : Prop := -2 ^ w ≤ x ∧ x < 2 ^ w

instance (w : ℕ) (x : ℤ) : Decidable (Fits w x) := inferInstanceAs (Decidable (_ ∧ _))

/-- A result of signed arithmetic, if it does not overflow. -/
def checked (w : ℕ) (x : ℤ) : Option ℤ := if Fits w x then some x else none

/-- A result of unsigned arithmetic, read as a signed integer. -/
def wrap (w : ℕ) (x : ℤ) : ℤ := x.bmod (2 ^ (w + 1))

theorem checked_of_fits (h : Fits w x) : checked w x = some x := if_pos h

theorem wrap_of_fits (h : Fits w x) : wrap w x = x := by
  obtain ⟨hlow, hhigh⟩ := h
  have hpow : ((2 ^ (w + 1) : ℕ) : ℤ) = 2 * 2 ^ w := by
    push_cast
    rw [pow_succ, mul_comm]
  unfold wrap
  apply Int.bmod_eq_of_le_mul_two <;> rw [hpow] <;> omega

end CheckedInt
