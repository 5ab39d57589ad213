import LnxCad.Session.Passwd

/-!
# Loops over the lines of a file

The programs go through the lines of what they read of a file, and stop at the first one that they
look for.
-/

namespace LnxCad.Session

variable {β : Type}

/-- The loop over the lines of a text, up to the first one that gives something. -/
def firstLine (f : Bytes → Option β) (text : Bytes) : Option β :=
  if _htext : text = [] then none
  else
    match f (text.takeWhile (· ≠ 10)) with
    | some b => some b
    | none => firstLine f (text.dropWhile (· ≠ 10)).tail
termination_by text.length
decreasing_by
  have hdrop := (List.dropWhile_sublist (l := text) (p := (· ≠ 10))).length_le
  have hpos := List.length_pos_iff.mpr _htext
  rw [List.length_tail]
  omega

theorem lines_nil :
  lines [] = []
  := rfl

/-- A text that is not empty has a first line, and the lines behind it. -/
theorem lines_eq_cons {text : Bytes} (h : text ≠ []) :
  lines text = text.takeWhile (· ≠ 10) :: lines (text.dropWhile (· ≠ 10)).tail
  := by
  by_cases hmem : (10 : UInt8) ∈ text
  · obtain ⟨line, rest, rfl, hline⟩ := List.eq_append_cons_of_mem hmem
    have hne : ∀ c ∈ line, decide (c ≠ 10) = true := by
      intro c hc
      exact decide_eq_true fun heq => hline (heq ▸ hc)
    have htake : (line ++ 10 :: rest).takeWhile (· ≠ 10) = line := by
      rw [List.takeWhile_append_of_pos hne]
      simp
    have hdrop : (line ++ 10 :: rest).dropWhile (· ≠ 10) = 10 :: rest := by
      rw [List.dropWhile_append_of_pos hne]
      simp
    have hrest : rest.splitOn 10 ≠ [] := List.splitOn_ne_nil 10 rest
    rw [htake, hdrop, List.tail_cons, lines, List.splitOn_append_cons_self_of_not_mem hline, lines]
    rw [List.getLast?_cons_of_ne_nil hrest, List.dropLast_cons_of_ne_nil hrest]
    split
    · rfl
    · rfl
  · have hne : ∀ c ∈ text, decide (c ≠ 10) = true := by
      intro c hc
      exact decide_eq_true fun heq => hmem (heq ▸ hc)
    have htake : text.takeWhile (· ≠ 10) = text := List.takeWhile_eq_self_iff.mpr hne
    have hdrop : text.dropWhile (· ≠ 10) = [] := List.dropWhile_eq_nil_iff.mpr hne
    rw [htake, hdrop, List.tail_nil, lines_nil, lines, List.splitOn_eq_singleton hmem]
    simp [h]

/-- The loop finds the first line that gives something. -/
theorem firstLine_eq (f : Bytes → Option β) (text : Bytes) :
  firstLine f text = (lines text).findSome? f
  := by
  induction text using firstLine.induct (f := f) with
  | case1 =>
      rw [firstLine]
      rfl
  | case2 text htext b hb =>
      rw [firstLine, dif_neg htext, lines_eq_cons htext, List.findSome?_cons, hb]
  | case3 text htext hnone ih =>
      rw [firstLine, dif_neg htext, lines_eq_cons htext, List.findSome?_cons, hnone]
      exact ih

end LnxCad.Session
