import Mathlib.Data.List.Basic

/-!
# Texts behind a mask

A text is kept behind a mask, a line of as many stars.  It is the mask that is edited, and the
text follows it in length only: what the mask has beyond the length of the text is appended to
the text, and a text that is longer than the mask is cut.  An edit goes wrong unless it is
made at the end, or does not concern anything but stars.
-/

namespace LnxCad.Mask

variable {α : Type*}

/-- The text behind a mask that was edited. -/
def follow (text mask : List α) : List α := text.take mask.length ++ mask.drop text.length

variable {star : α} {before after run : List α}

/-! ### A run of characters -/

/-- The first characters of a run and of the stars behind it are as many stars as follow it. -/
theorem take_append_eq
    (h : ∀ a ∈ after ++ run.take after.length, a = star) :
  (run ++ after).take after.length = after
  := by
  have hafter : after = List.replicate after.length star :=
    List.eq_replicate_iff.mpr ⟨rfl, fun a ha => h a (List.mem_append_left _ ha)⟩
  rw [hafter, List.length_replicate, List.eq_replicate_iff]
  constructor
  · rw [List.length_take, List.length_append, List.length_replicate]
    omega
  · intro a ha
    rw [← hafter, List.take_append] at ha
    apply h
    obtain ha | ha := List.mem_append.mp ha
    · exact List.mem_append_right _ ha
    · exact List.mem_append_left _ (List.mem_of_mem_take ha)

/-- Where a run could be put behind what follows it, it is followed by stars. -/
theorem eq_star_of_append_eq
    (h : after ++ (run ++ List.replicate after.length star).drop after.length = run ++ after)
    (hrun : run ≠ []) {i : ℕ} (hi : i < after.length) :
  after[i]? = some star
  := by
  induction hleft : after.length - i using Nat.strongRecOn generalizing i with
  | ind n ih =>
      have hpos : 0 < run.length := List.length_pos_of_ne_nil hrun
      have hat : (run ++ after)[run.length + i]? = after[i]? := by
        rw [List.getElem?_append_right (by omega), Nat.add_sub_cancel_left]
      rw [← hat, ← h]
      by_cases hlow : run.length + i < after.length
      · rw [List.getElem?_append_left hlow]
        exact ih _ (by omega) hlow rfl
      · rw [List.getElem?_append_right (by omega), List.getElem?_drop, Nat.add_sub_cancel' (by omega),
          List.getElem?_append_right (by omega), List.getElem?_replicate, if_pos (by omega)]

/-- A run is put behind what follows it: right if there is no run, or there are only stars. -/
theorem append_drop_eq_iff :
  after ++ (run ++ List.replicate after.length star).drop after.length = run ++ after
    ↔ run = [] ∨ ∀ a ∈ after ++ run.take after.length, a = star
  := by
  constructor
  · intro h
    by_cases hrun : run = []
    · exact Or.inl hrun
    right
    have hafter : ∀ a ∈ after, a = star := by
      intro a ha
      obtain ⟨i, hi, rfl⟩ := List.getElem_of_mem ha
      have hat := eq_star_of_append_eq h hrun hi
      rw [List.getElem?_eq_getElem hi] at hat
      exact Option.some.inj hat
    have htake : after = (run ++ after).take after.length := by
      rw [← h, List.take_left]
    intro a ha
    obtain ha | ha := List.mem_append.mp ha
    · exact hafter a ha
    · apply hafter
      rw [htake, List.take_append]
      exact List.mem_append_left _ ha
  · rintro (rfl | h)
    · rw [List.nil_append, List.nil_append, List.drop_of_length_le (by simp), List.append_nil]
    · have hafter : List.replicate after.length star = after :=
        (List.eq_replicate_iff.mpr ⟨rfl, fun a ha => h a (List.mem_append_left _ ha)⟩).symm
      have htake := take_append_eq h
      rw [hafter]
      calc after ++ (run ++ after).drop after.length
          = (run ++ after).take after.length ++ (run ++ after).drop after.length := by rw [htake]
        _ = run ++ after := List.take_append_drop _ _

/-! ### Edits -/

variable (star) (before after run)

/-- The mask gets a run of characters. -/
theorem follow_insert_iff :
  follow (before ++ after)
      (List.replicate before.length star ++ run ++ List.replicate after.length star)
      = before ++ run ++ after
    ↔ run = [] ∨ ∀ a ∈ after ++ run.take after.length, a = star
  := by
  rw [← append_drop_eq_iff, follow, List.take_of_length_le (by simp), List.append_assoc,
    List.append_assoc, List.append_assoc, List.append_cancel_left_eq, List.length_append,
    ← List.drop_drop, List.drop_left' List.length_replicate]

/-- The mask loses a character. -/
theorem follow_delete_iff (a : α) :
  follow (before ++ a :: after) (List.replicate before.length star ++ List.replicate after.length star)
      = before ++ after
    ↔ ∀ b ∈ after, b = a
  := by
  have hcut : follow (before ++ a :: after)
      (List.replicate before.length star ++ List.replicate after.length star)
      = before ++ (a :: after).take after.length := by
    rw [follow, List.drop_of_length_le (by simp), List.append_nil, List.length_append,
      List.length_replicate, List.length_replicate, List.take_length_add_append]
  rw [hcut, List.append_cancel_left_eq]
  clear hcut
  induction after generalizing a with
  | nil => simp
  | cons b after ih =>
      rw [List.length_cons, List.take_succ_cons, List.cons.injEq, List.forall_mem_cons]
      constructor
      · rintro ⟨rfl, h⟩
        exact ⟨rfl, (ih _).mp h⟩
      · rintro ⟨rfl, h⟩
        exact ⟨rfl, (ih _).mpr h⟩

/-- The mask gets a run of characters in place of one. -/
theorem follow_replace_iff (a b : α) :
  follow (before ++ a :: after)
      (List.replicate before.length star ++ b :: run ++ List.replicate after.length star)
      = before ++ b :: run ++ after
    ↔ b = a ∧ (run = [] ∨ ∀ a ∈ after ++ run.take after.length, a = star)
  := by
  rw [← append_drop_eq_iff, follow, List.take_of_length_le (by simp), List.append_assoc,
    List.append_assoc, List.append_assoc, List.append_cancel_left_eq, List.length_append,
    ← List.drop_drop, List.drop_left' List.length_replicate, List.length_cons, List.cons_append,
    List.cons_append, List.cons_append, List.drop_succ_cons, List.cons.injEq, eq_comm]

end LnxCad.Mask
