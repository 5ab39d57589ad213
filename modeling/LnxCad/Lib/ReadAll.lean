import Mathlib.Tactic

/-!
# Reading a stream into a buffer

A buffer of bounded size is filled by as many reads as it takes, up to the end of the stream.  What is
in the buffer then depends on what was sent alone, and not on how it was cut into pieces.
-/

namespace ReadAll

variable {α : Type*}

/-- What a read returns: some of the stream, nothing as it was interrupted, or the end. -/
inductive Call (α : Type*) where
  | got (a : α) (l : List α)
  | interrupted
  | ended

/-- What is sent up to the end. -/
def sent : List (Call α) → List α
  | [] => []
  | .got a l :: calls => a :: l ++ sent calls
  | .interrupted :: calls => sent calls
  | .ended :: _ => []

/-- The loop, with some room in the buffer; `none` if it waits for another read. -/
def run : ℕ → List (Call α) → Option (List α)
  | 0, _ => some []
  | _ + 1, [] => none
  | room + 1, .got a l :: calls =>
      (run (room - l.length) calls).map fun rest => (a :: l).take (room + 1) ++ rest
  | room + 1, .interrupted :: calls => run (room + 1) calls
  | _ + 1, .ended :: _ => some []

/-- The loop comes to an end with the stream, and leaves what was sent, as far as it fits. -/
theorem run_of_ended (room : ℕ) {calls : List (Call α)} (h : .ended ∈ calls) :
  run room calls = some ((sent calls).take room)
  := by
  induction calls generalizing room with
  | nil => cases h
  | cons call calls ih =>
      cases room with
      | zero =>
          rw [List.take_zero]
          rfl
      | succ room =>
          cases call with
          | got a l =>
              have hrest := ih (room - l.length) (by simpa using h)
              rw [run, hrest, Option.map_some, sent, List.take_append, List.length_cons,
                Nat.add_sub_add_right]
          | interrupted => exact ih (room + 1) (by simpa using h)
          | ended => rfl

end ReadAll
