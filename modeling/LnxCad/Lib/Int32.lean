import Mathlib.Tactic

/-!
# Arithmetic of `int`

Integers reduced to the range of a 32-bit `int`.
-/

/-- The value an `int` has after an arithmetic operation with a given result. -/
def int32 (v : ℤ) : ℤ := Int.bmod v (2 ^ 32)

/-- A result in the range of `int` is kept. -/
theorem int32_eq {v : ℤ} (hlo : -2 ^ 31 ≤ v) (hhi : v < 2 ^ 31) :
  int32 v = v
  := by
  apply Int.bmod_eq_of_le
  · norm_num
    omega
  · norm_num
    omega
