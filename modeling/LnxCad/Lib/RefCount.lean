import Mathlib.Data.Finset.Card
import Mathlib.Tactic

/-!
# Reference counts

Locations of a type `Loc` may point to objects of a type `Obj`.  The numbers kept with the
objects count the pointers when no finite set of locations that point to an object is
larger than the object's number.  An object of number zero is then pointed to from
nowhere.  Every change of a pointer is a `retarget`.
-/

namespace RefCount

variable {Loc Obj : Type*} [DecidableEq Loc] [DecidableEq Obj]

/-- The number of an object bounds the number of locations that point to it. -/
def Counted (ptr : Loc → Option Obj) (refs : Obj → ℤ) : Prop :=
  ∀ (a : Obj) (S : Finset Loc), (∀ l ∈ S, ptr l = some a) → (S.card : ℤ) ≤ refs a

variable {ptr ptr' : Loc → Option Obj} {refs refs' : Obj → ℤ}

omit [DecidableEq Loc] [DecidableEq Obj] in
/-- Nothing points to an object of number zero. -/
theorem Counted.ne_some (h : Counted ptr refs) {a : Obj} (ha : refs a = 0) (l : Loc) :
  ptr l ≠ some a
  := by
  intro hl
  have hcard := h a {l} (by simp [hl])
  simp [ha] at hcard

omit [DecidableEq Loc] [DecidableEq Obj] in
theorem Counted.one_le (h : Counted ptr refs) {a : Obj} {l : Loc} (hl : ptr l = some a) :
  1 ≤ refs a
  := by
  have hcard := h a {l} (by simp [hl])
  simpa using hcard

omit [DecidableEq Loc] [DecidableEq Obj] in
/-- An object that nothing points to may be given any number that is not negative. -/
theorem Counted.of_eq_of_ne
    (h : Counted ptr refs) {a : Obj} (ha : ∀ l, ptr l ≠ some a)
    (hpos : 0 ≤ refs' a) (hother : ∀ b, b ≠ a → refs b ≤ refs' b) :
  Counted ptr refs'
  := by
  intro b S hS
  by_cases hb : b = a
  · subst hb
    have hempty : S = ∅ := by
      apply Finset.eq_empty_of_forall_notMem
      intro l hl
      apply ha l (hS l hl)
    rw [hempty]
    exact hpos
  · exact (h b S hS).trans (hother b hb)

/-- Pointing one location elsewhere takes one from the number of the old object and adds
one to that of the new object. -/
theorem Counted.retarget
    (h : Counted ptr refs) (l : Loc) (new : Option Obj)
    (hrefs : ∀ a, refs a - (if ptr l = some a then 1 else 0) + (if new = some a then 1 else 0)
      ≤ refs' a) :
  Counted (Function.update ptr l new) refs'
  := by
  intro a S hS
  have herase : ∀ k ∈ S.erase l, ptr k = some a := by
    intro k hk
    obtain ⟨hne, hk⟩ := Finset.mem_erase.mp hk
    simpa [hne] using hS k hk
  have hrest : ((S.erase l).card : ℤ) ≤ refs a - (if ptr l = some a then 1 else 0) := by
    split
    case isTrue hl =>
      have hcard := h a (insert l (S.erase l)) (by simpa [hl] using herase)
      rw [Finset.card_insert_of_notMem (by simp)] at hcard
      push_cast at hcard
      omega
    case isFalse =>
      have hcard := h a (S.erase l) herase
      omega
  refine le_trans ?_ (hrefs a)
  by_cases hl : l ∈ S
  · have hnew : new = some a := by simpa using hS l hl
    rw [if_pos hnew, ← Finset.card_erase_add_one hl]
    push_cast
    omega
  · rw [Finset.erase_eq_of_notMem hl] at hrest
    refine hrest.trans ?_
    split
    · omega
    · omega

omit [DecidableEq Loc] [DecidableEq Obj] in
/-- Fewer pointers are counted by the same numbers, where fewer means that the locations
that point somewhere can be sent to distinct ones with the same objects. -/
theorem Counted.of_injOn
    (h : Counted ptr refs) (f : Loc → Loc) (hf : Set.InjOn f {l | ptr' l ≠ none})
    (hptr : ∀ l a, ptr' l = some a → ptr (f l) = some a) :
  Counted ptr' refs
  := by
  classical
  intro a S hS
  have hinj : Set.InjOn f S := by
    apply hf.mono
    intro l hl
    simp [hS l hl]
  rw [← Finset.card_image_of_injOn hinj]
  apply h
  intro k hk
  obtain ⟨l, hl, rfl⟩ := Finset.mem_image.mp hk
  apply hptr l a (hS l hl)

end RefCount
