import Mathlib.Tactic

/-!
# A text that arrives in pieces

A reader that gets a text in pieces and looks at one piece at a time finds a word if and only
if the word occurs in the text at a place that no boundary between two pieces cuts.
-/

variable {α : Type*}

/-- A place in the text at which a piece ends or begins. -/
def Boundary (pieces : List (List α)) (n : ℕ) : Prop :=
  ∃ k, n = (pieces.take k).flatten.length

/-- A word occurs in the text where no boundary cuts it. -/
def Uncut (w : List α) (pieces : List (List α)) : Prop :=
  ∃ a b, pieces.flatten = a ++ w ++ b
    ∧ ∀ n, Boundary pieces n → n ≤ a.length ∨ a.length + w.length ≤ n

namespace Boundary

variable {p : List α} {pieces : List (List α)} {n : ℕ}

theorem zero (pieces : List (List α)) :
  Boundary pieces 0
  := ⟨0, rfl⟩

theorem cons (h : Boundary pieces n) (p : List α) :
  Boundary (p :: pieces) (p.length + n)
  := by
  obtain ⟨k, rfl⟩ := h
  use k + 1
  rw [List.take_succ_cons, List.flatten_cons, List.length_append]

/-- The boundaries are the start and those behind the first piece. -/
theorem cons_cases (h : Boundary (p :: pieces) n) :
  n = 0 ∨ ∃ m, Boundary pieces m ∧ n = p.length + m
  := by
  obtain ⟨k, rfl⟩ := h
  cases k with
  | zero => exact Or.inl rfl
  | succ k =>
      right
      use (pieces.take k).flatten.length, ⟨k, rfl⟩
      rw [List.take_succ_cons, List.flatten_cons, List.length_append]

end Boundary

namespace Uncut

variable {w p : List α} {pieces : List (List α)}

/-- A word of the first piece is not cut. -/
theorem head (h : w <:+: p) (pieces : List (List α)) :
  Uncut w (p :: pieces)
  := by
  obtain ⟨a, b, rfl⟩ := h
  use a, b ++ pieces.flatten
  constructor
  · simp
  · intro n hn
    obtain rfl | ⟨m, -, rfl⟩ := hn.cons_cases
    · simp
    · right
      simp
      omega

/-- A word that is not cut behind the first piece is not cut. -/
theorem tail (h : Uncut w pieces) (p : List α) :
  Uncut w (p :: pieces)
  := by
  obtain ⟨a, b, heq, hcut⟩ := h
  use p ++ a, b
  constructor
  · simp [heq]
  · intro n hn
    obtain rfl | ⟨m, hm, rfl⟩ := hn.cons_cases
    · simp
    · rw [List.length_append]
      have := hcut m hm
      omega

/-- A word that is not cut stands in the first piece or behind it. -/
theorem cons_cases (h : Uncut w (p :: pieces)) :
  w <:+: p ∨ Uncut w pieces
  := by
  obtain ⟨a, b, heq, hcut⟩ := h
  have hend := hcut _ ((Boundary.zero pieces).cons p)
  rw [List.flatten_cons] at heq
  obtain hle | hle := hend
  · obtain ⟨a', rfl⟩ : p <+: a := by
      have ha : a <+: p ++ pieces.flatten := by
        use w ++ b
        rw [heq, List.append_assoc]
      apply List.prefix_of_prefix_length_le (List.prefix_append p _) ha
      simpa using hle
    right
    use a', b
    constructor
    · simpa [List.append_assoc] using heq
    · intro n hn
      have := hcut _ (hn.cons p)
      rw [List.length_append] at this
      omega
  · left
    have hfront : a ++ w <+: p := by
      have haw : a ++ w <+: p ++ pieces.flatten := by
        use b
        rw [heq]
      apply List.prefix_of_prefix_length_le haw (List.prefix_append p _)
      simpa using hle
    exact List.IsInfix.trans ⟨a, [], by simp⟩ hfront.isInfix

end Uncut

/-- A word stands in one of the pieces if and only if it occurs uncut. -/
theorem exists_infix_iff_uncut {w : List α} (hw : w ≠ []) (pieces : List (List α)) :
  (∃ p ∈ pieces, w <:+: p) ↔ Uncut w pieces
  := by
  induction pieces with
  | nil =>
      constructor
      · rintro ⟨p, hp, -⟩
        simp at hp
      · rintro ⟨a, b, heq, -⟩
        have hnil : a ++ w ++ b = [] := heq.symm
        simp [hw] at hnil
  | cons p pieces ih =>
      constructor
      · rintro ⟨q, hq, hinfix⟩
        obtain rfl | hq := List.mem_cons.mp hq
        · exact Uncut.head hinfix pieces
        · exact (ih.mp ⟨q, hq, hinfix⟩).tail p
      · intro h
        obtain h | h := h.cons_cases
        · exact ⟨p, by simp, h⟩
        · obtain ⟨q, hq, hinfix⟩ := ih.mpr h
          exact ⟨q, by simp [hq], hinfix⟩

/-- A word of the text, whether it is cut or not. -/
theorem Uncut.infix {w : List α} {pieces : List (List α)} (h : Uncut w pieces) :
  w <:+: pieces.flatten
  := by
  obtain ⟨a, b, heq, -⟩ := h
  exact ⟨a, b, heq.symm⟩
