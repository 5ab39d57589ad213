import Mathlib.Data.List.TakeWhile
import Mathlib.Tactic

/-!
# Fields behind separators

A line of words, each behind a separator, is read by counting separators, by skipping a word
and the separators behind it, or from the last separator of the text.  The words must not have
the separator in them; what stands behind them in the text may be anything.
-/

namespace Fields

variable {α : Type*}

/-- The words, each behind a separator. -/
def line (sep : α) (words : List (List α)) : List α := words.flatMap fun w => sep :: w

@[simp]
theorem line_nil (sep : α) :
  line sep [] = []
  := rfl

theorem line_cons (sep : α) (w : List α) (ws : List (List α)) :
  line sep (w :: ws) = sep :: w ++ line sep ws
  := List.flatMap_cons

variable [DecidableEq α] (sep : α)

/-- What is behind the `n`-th separator. -/
def past : ℕ → List α → List α
  | 0, s => s
  | _ + 1, [] => []
  | n + 1, c :: s => if c = sep then past n s else past (n + 1) s

/-- What is behind the next separators. -/
def skip (s : List α) : List α := (s.dropWhile (· ≠ sep)).dropWhile (· = sep)

/-- The texts in front of the last separator and behind it. -/
def splitLast : List α → Option (List α × List α)
  | [] => none
  | c :: s =>
      match splitLast s with
      | some (a, b) => some (c :: a, b)
      | none => if c = sep then some ([], s) else none

variable {sep}

/-! ### The last separator -/

theorem splitLast_eq_none {s : List α} (h : sep ∉ s) :
  splitLast sep s = none
  := by
  induction s with
  | nil => rfl
  | cons c s ih =>
      obtain ⟨hc, hs⟩ := not_or.mp (mt List.mem_cons.mpr h)
      rw [splitLast, ih hs]
      exact if_neg (Ne.symm hc)

/-- A separator behind which there is no other is the last one. -/
theorem splitLast_append (a : List α) {b : List α} (h : sep ∉ b) :
  splitLast sep (a ++ sep :: b) = some (a, b)
  := by
  induction a with
  | nil =>
      rw [List.nil_append, splitLast, splitLast_eq_none h]
      exact if_pos rfl
  | cons c a ih => rw [List.cons_append, splitLast, ih]

/-! ### Words -/

theorem past_zero (s : List α) :
  past sep 0 s = s
  := by
  cases s with
  | nil => rfl
  | cons c s => rfl

/-- Nothing is counted in a word. -/
theorem past_append {w : List α} (h : sep ∉ w) (n : ℕ) (s : List α) :
  past sep (n + 1) (w ++ s) = past sep (n + 1) s
  := by
  induction w with
  | nil => rfl
  | cons c w ih =>
      obtain ⟨hc, hw⟩ := not_or.mp (mt List.mem_cons.mpr h)
      rw [List.cons_append, past, if_neg (Ne.symm hc), ih hw]

/-- Behind the separator in front of a word is that word. -/
theorem past_line {ws : List (List α)} (hws : ∀ w ∈ ws, sep ∉ w) {n : ℕ} {w : List α}
    {rest : List (List α)} (h : ws.drop n = w :: rest) (s : List α) :
  past sep (n + 1) (line sep ws ++ s) = w ++ (line sep rest ++ s)
  := by
  induction n generalizing ws with
  | zero =>
      rw [List.drop_zero] at h
      rw [h, line_cons, List.cons_append, List.cons_append, past, if_pos rfl, List.append_assoc,
        past_zero]
  | succ n ih =>
      cases ws with
      | nil => cases h
      | cons v ws =>
          rw [List.drop_succ_cons] at h
          rw [line_cons, List.cons_append, List.cons_append, past, if_pos rfl, List.append_assoc,
            past_append (hws v (by simp))]
          apply ih _ h
          intro u hu
          apply hws u (by simp [hu])

/-- A word is skipped up to the next one. -/
theorem skip_line {v w : List α} (hv : sep ∉ v) (hw : sep ∉ w) (hne : w ≠ [])
    (rest : List (List α)) (s : List α) :
  skip sep (v ++ (line sep (w :: rest) ++ s)) = w ++ (line sep rest ++ s)
  := by
  have hword : ∀ c ∈ v, decide (c ≠ sep) = true := by
    intro c hc
    rw [decide_eq_true_eq]
    rintro rfl
    exact hv hc
  obtain ⟨c, w, rfl⟩ := List.exists_cons_of_ne_nil hne
  have hc : c ≠ sep := by
    rintro rfl
    simp at hw
  rw [skip, List.dropWhile_append_of_pos hword, line_cons, List.cons_append, List.cons_append,
    List.dropWhile_cons_of_neg (by simp), List.dropWhile_cons_of_pos (by simp), List.cons_append,
    List.cons_append, List.dropWhile_cons_of_neg (by simpa using hc), List.append_assoc]
  rfl

end Fields
