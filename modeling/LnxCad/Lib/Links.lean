import Mathlib.Data.List.Nodup
import Mathlib.Logic.Function.Basic
import Mathlib.Tactic

/-!
# Linked lists

Cells of a type `α` are linked by a function `next`.  A segment is the list of the cells
met on the way from one pointer to another.  Only the links of these cells matter, so that
a segment is kept by any change elsewhere.
-/

namespace Linked

variable {α : Type*}

/-- The cells met from the pointer `q` on, up to the pointer `r`. -/
def Segment (next : α → Option α) : Option α → List α → Option α → Prop
  | q, [], r => q = r
  | q, a :: as, r => q = some a ∧ Segment next (next a) as r

variable {next next' : α → Option α} {q r : Option α} {as bs : List α}

theorem Segment.congr (h : Segment next q as r) (heq : ∀ a ∈ as, next' a = next a) :
  Segment next' q as r
  := by
  induction as generalizing q with
  | nil => exact h
  | cons a as ih =>
      obtain ⟨rfl, hrest⟩ := h
      refine ⟨rfl, ?_⟩
      rw [heq a (by simp)]
      apply ih hrest
      intro e he
      apply heq e (by simp [he])

/-- A segment is extended by the cell it leads to. -/
theorem Segment.snoc {a : α} (h : Segment next q as (some a)) (ha : next a = r) :
  Segment next q (as ++ [a]) r
  := by
  induction as generalizing q with
  | nil =>
      obtain rfl : q = some a := h
      exact ⟨rfl, ha⟩
  | cons e as ih =>
      obtain ⟨rfl, hrest⟩ := h
      exact ⟨rfl, ih hrest⟩

/-- A change of the link of a cell outside a segment does not matter. -/
theorem Segment.update [DecidableEq α] {a : α} (h : Segment next q as r) (ha : a ∉ as)
    (link : Option α) :
  Segment (Function.update next a link) q as r
  := by
  apply h.congr
  intro e he
  apply Function.update_of_ne
  rintro rfl
  exact ha he

/-- Every cell of a segment but the first is the next of one of them. -/
theorem Segment.exists_prev {a e : α} (h : Segment next q (a :: as) r) (he : e ∈ as) :
  ∃ d ∈ a :: as, next d = some e
  := by
  induction as generalizing q a with
  | nil => simp at he
  | cons d as ih =>
      obtain ⟨rfl, hnext, hrest⟩ := h
      obtain rfl | he := List.mem_cons.mp he
      · exact ⟨a, by simp, hnext⟩
      · obtain ⟨d', hd', hlink⟩ := ih ⟨hnext, hrest⟩ he
        exact ⟨d', by simp [hd'], hlink⟩

end Linked
