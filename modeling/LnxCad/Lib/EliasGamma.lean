import Mathlib.Data.Nat.Bitwise
import Mathlib.Tactic

/-!
# The interlaced Elias gamma code

A positive number is written as the binary digits below its leading one, most significant
first, each announced by a zero, and a one to end with.  The digits may be inverted.  The
number of digits is logarithmic, so that a sum costs little more than its summands.
-/

namespace EliasGamma

/-- The number of digits of the code. -/
def length (v : ℕ) : ℕ := 2 * Nat.log2 v + 1

/-- The lowest `k` binary digits of a number, and the end. -/
def digits (inverted : Bool) (v : ℕ) : ℕ → List Bool
  | 0 => [true]
  | k + 1 => false :: (v.testBit k ^^ inverted) :: digits inverted v k

/-- The code of a number. -/
def code (inverted : Bool) (v : ℕ) : List Bool := digits inverted v (Nat.log2 v)

theorem length_digits (inverted : Bool) (v k : ℕ) :
  (digits inverted v k).length = 2 * k + 1
  := by
  induction k with
  | zero => rfl
  | succ k ih =>
      rw [digits, List.length_cons, List.length_cons, ih]
      omega

/-- The code has the length claimed. -/
theorem length_code (inverted : Bool) (v : ℕ) :
  (code inverted v).length = length v
  := length_digits inverted v (Nat.log2 v)

/-- A digit appended to the higher part of a number gives the next higher part. -/
theorem shiftRight_mul_two_add (v k : ℕ) :
  2 * (v >>> (k + 1)) + (v.testBit k).toNat = v >>> k
  := by
  have hdigit : (v.testBit k).toNat = (v >>> k) % 2 := by
    rw [Nat.testBit, Nat.and_comm, Nat.and_one_is_mod]
    obtain h | h := Nat.mod_two_eq_zero_or_one (v >>> k)
    · simp [h]
    · simp [h]
  rw [hdigit, Nat.shiftRight_succ]
  omega

theorem shiftRight_log2 {v : ℕ} (h : v ≠ 0) :
  v >>> Nat.log2 v = 1
  := by
  rw [Nat.shiftRight_eq_div_pow]
  have hle := Nat.log2_self_le h
  have hlt : v < 2 ^ (Nat.log2 v + 1) := Nat.lt_log2_self
  rw [pow_succ] at hlt
  apply Nat.div_eq_of_lt_le
  · omega
  · omega

/-! ### The cost of sums -/

theorem log2_le_of_lt {v k : ℕ} (h : v < 2 ^ (k + 1)) :
  Nat.log2 v ≤ k
  := by
  by_cases hv : v = 0
  · subst hv
    simp
  · have := (Nat.log2_lt hv).mpr h
    omega

/-- The code of a sum is at most one digit longer than those of the summands together. -/
theorem length_add_le (a b : ℕ) :
  length (a + b) ≤ length a + length b + 1
  := by
  have hlog : Nat.log2 (a + b) ≤ Nat.log2 a + Nat.log2 b + 1 := by
    apply log2_le_of_lt
    have hlta : a < 2 ^ (Nat.log2 a + 1) := Nat.lt_log2_self
    have hltb : b < 2 ^ (Nat.log2 b + 1) := Nat.lt_log2_self
    have hmonoa : 2 ^ (Nat.log2 a + 1) ≤ 2 ^ (Nat.log2 a + Nat.log2 b + 1) :=
      Nat.pow_le_pow_right (by omega) (by omega)
    have hmonob : 2 ^ (Nat.log2 b + 1) ≤ 2 ^ (Nat.log2 a + Nat.log2 b + 1) :=
      Nat.pow_le_pow_right (by omega) (by omega)
    rw [pow_succ 2 (Nat.log2 a + Nat.log2 b + 1)]
    omega
  unfold length
  omega

/-- The code of a positive number is less than twice as long as the number. -/
theorem length_lt {v : ℕ} (hv : v ≠ 0) :
  length v < 2 * v
  := by
  have hlt : Nat.log2 v < v := (Nat.log2_lt hv).mpr Nat.lt_two_pow_self
  unfold length
  omega

theorem length_pos (v : ℕ) :
  0 < length v
  := Nat.succ_pos _

end EliasGamma
