import Mathlib.Data.List.Sort
import Mathlib.Tactic

/-!
# Sorting by exchanging neighbours

An index walks along an array.  Two neighbours that are in order let it go on; two that are not are
exchanged, and it goes back by one.  Every exchange takes one inversion away, so the walk comes to
its end, and what is behind the index is always sorted.

The array with its index is a list cut in two: what is behind the index, last one first, and the
rest.
-/

namespace Exchange

variable {α : Type*} [LinearOrder α]

/-- The number of pairs that are not in order. -/
def inversions : List α → ℕ
  | [] => 0
  | a :: l => l.countP (· < a) + inversions l

theorem inversions_exchange {a b : α} (h : b < a) (p l : List α) :
  inversions (p ++ a :: b :: l) = inversions (p ++ b :: a :: l) + 1
  := by
  induction p with
  | nil =>
      have hnot : ¬ a < b := not_lt.mpr h.le
      simp only [List.nil_append, inversions, List.countP_cons, h, hnot, decide_true, decide_false]
      simp only [if_true, Bool.false_eq_true, if_false]
      omega
  | cons c p ih =>
      have hperm : (p ++ a :: b :: l).Perm (p ++ b :: a :: l) :=
        List.Perm.append_left p (List.Perm.swap b a l)
      rw [List.cons_append, List.cons_append, inversions, inversions, ih, hperm.countP_eq]
      omega

/-- The walk of the index, from the two parts of the array on. -/
def walk : List α → List α → List α
  | [], a :: b :: l => if b < a then walk [] (b :: a :: l) else walk [a] (b :: l)
  | p :: before, a :: b :: l =>
      if b < a then walk before (p :: b :: a :: l) else walk (a :: p :: before) (b :: l)
  | before, [] => before.reverse
  | before, [a] => before.reverse ++ [a]
termination_by before after => 2 * inversions (before.reverse ++ after) + after.length
decreasing_by
  · have := inversions_exchange ‹b < a› [] l
    simp only [List.reverse_nil, List.nil_append, List.length_cons] at *
    omega
  · simp
  · have := inversions_exchange ‹b < a› (before.reverse ++ [p]) l
    simp only [List.reverse_cons, List.append_assoc, List.singleton_append, List.length_cons] at *
    omega
  · simp

/-- The walk over a whole array. -/
def sort (l : List α) : List α := walk [] l

theorem walk_perm (before after : List α) :
  (walk before after).Perm (before.reverse ++ after)
  := by
  induction before, after using walk.induct with
  | case1 a b l h ih =>
      rw [walk, if_pos h]
      exact ih.trans (List.Perm.swap a b l)
  | case2 a b l h ih =>
      rw [walk, if_neg h]
      exact ih
  | case3 p before a b l h ih =>
      rw [walk, if_pos h]
      refine ih.trans ?_
      rw [List.reverse_cons, List.append_assoc]
      exact List.Perm.append_left _ (List.Perm.cons p (List.Perm.swap a b l))
  | case4 p before a b l h ih =>
      rw [walk, if_neg h]
      rwa [List.reverse_cons, List.append_assoc] at ih
  | case5 before =>
      rw [walk, List.append_nil]
  | case6 before a =>
      rw [walk]

theorem sort_perm (l : List α) :
  (sort l).Perm l
  := walk_perm [] l

/-- What is behind the index is sorted, together with the element at the index. -/
theorem walk_sorted {before after : List α} (h : (before.reverse ++ after.take 1).Pairwise (· ≤ ·)) :
  (walk before after).Pairwise (· ≤ ·)
  := by
  induction before, after using walk.induct with
  | case1 a b l hlt ih =>
      rw [walk, if_pos hlt]
      apply ih
      simp
  | case2 a b l hle ih =>
      rw [walk, if_neg hle]
      apply ih
      simpa using not_lt.mp hle
  | case3 p before a b l hlt ih =>
      rw [walk, if_pos hlt]
      apply ih
      rw [List.reverse_cons] at h
      exact (List.pairwise_append.mp h).1
  | case4 p before a b l hle ih =>
      rw [walk, if_neg hle]
      apply ih
      rw [List.reverse_cons]
      refine List.pairwise_append.mpr ⟨h, List.pairwise_singleton _ b, ?_⟩
      intro c hc d hd
      obtain rfl : d = b := by simpa using hd
      obtain hc | hc := List.mem_append.mp hc
      · exact ((List.pairwise_append.mp h).2.2 c hc a (by simp)).trans (not_lt.mp hle)
      · obtain rfl : c = a := by simpa using hc
        exact not_lt.mp hle
  | case5 before =>
      rw [walk]
      simpa using h
  | case6 before a =>
      rw [walk]
      simpa using h

theorem sort_sorted (l : List α) :
  (sort l).Pairwise (· ≤ ·)
  := by
  apply walk_sorted
  cases l with
  | nil => simp
  | cons a l => simp

end Exchange
