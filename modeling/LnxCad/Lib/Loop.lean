import Mathlib.Tactic

/-!
# Loops that may fail

A loop over a list whose body may fail is a monadic fold.  It comes to its end, and what
its body keeps from one element to the next holds there.  Where the body of another loop
follows that of the first, so does the loop.
-/

namespace Loop

variable {α β ι : Type*}

/-- A body that never fails and leads from the property of each number of a range to that
of the next one makes a loop that comes to its end. -/
theorem foldlM_range'
    {P : ℕ → α → Prop} {f : α → ℕ → Option α} {s n : ℕ}
    (hstep : ∀ k a, s ≤ k → k < s + n → P k a → ∃ a', f a k = some a' ∧ P (k + 1) a')
    {a : α} (h : P s a) :
  ∃ a', (List.range' s n).foldlM f a = some a' ∧ P (s + n) a'
  := by
  induction n generalizing s a with
  | zero => exact ⟨a, rfl, h⟩
  | succ n ih =>
      obtain ⟨a₁, hf, h₁⟩ := hstep s a (le_refl s) (by omega) h
      obtain ⟨a₂, hrun, h₂⟩ := ih (s := s + 1) (a := a₁) (by
        intro k b hlo hhi
        apply hstep k b
        · omega
        · omega) h₁
      refine ⟨a₂, ?_, ?_⟩
      · rw [List.range'_succ, List.foldlM_cons, hf]
        exact hrun
      · rw [show s + (n + 1) = s + 1 + n by omega]
        exact h₂

/-- A loop follows another if its body does. -/
theorem foldlM_simulates
    {R : α → β → Prop} {f : α → ι → Option α} {g : β → ι → Option β}
    (hstep : ∀ {a b a'} i, R a b → f a i = some a' → ∃ b', g b i = some b' ∧ R a' b')
    (is : List ι) {a a' : α} {b : β} (h : R a b) (hrun : is.foldlM f a = some a') :
  ∃ b', is.foldlM g b = some b' ∧ R a' b'
  := by
  induction is generalizing a b with
  | nil =>
      cases hrun
      exact ⟨b, rfl, h⟩
  | cons i is ih =>
      rw [List.foldlM_cons] at hrun
      obtain ⟨a₁, hf, hrun⟩ := Option.bind_eq_some_iff.mp hrun
      obtain ⟨b₁, hg, h₁⟩ := hstep i h hf
      obtain ⟨b', hrun', h'⟩ := ih h₁ hrun
      refine ⟨b', ?_, h'⟩
      rw [List.foldlM_cons, hg]
      exact hrun'

end Loop
