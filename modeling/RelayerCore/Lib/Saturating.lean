import Mathlib.Tactic

/-!
# Saturating arithmetic

Natural numbers that stop at a maximum `U`.  Stopping at every multiplication by a positive number
is the same as stopping once, at the end.
-/

namespace Saturating

variable {U a b f : ℕ}

/-- `a`, or the maximum when `a` is above it. -/
def sat (U a : ℕ) : ℕ := min a U

/-- The product, or the maximum when the product is above it. -/
def mul (U a b : ℕ) : ℕ := sat U (a * b)

theorem sat_le : sat U a ≤ U := min_le_right a U

theorem sat_of_le (h : a ≤ U) : sat U a = a := min_eq_left h

theorem sat_of_ge (h : U ≤ a) : sat U a = U := min_eq_right h

theorem le_sat_iff : b ≤ sat U a ↔ b ≤ a ∧ b ≤ U := le_min_iff

/-- Stopping before a multiplication by a positive number changes nothing. -/
theorem mul_sat (hf : 0 < f) : mul U (sat U a) f = sat U (a * f) := by
  unfold mul
  rcases le_total a U with h | h
  · rw [sat_of_le h]
  · have hU : U ≤ U * f := Nat.le_mul_of_pos_right U hf
    have ha : U ≤ a * f := hU.trans (Nat.mul_le_mul_right f h)
    rw [sat_of_ge h, sat_of_ge hU, sat_of_ge ha]

theorem sat_min : sat U (min a b) = min (sat U a) (sat U b) := by
  unfold sat
  omega

end Saturating
