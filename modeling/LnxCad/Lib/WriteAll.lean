import Mathlib.Tactic

/-!
# Writing all of a text

A loop writes a text to a file by calls each of which takes some of what is left, is interrupted and
called again, or fails.  Whatever the calls do, what is in the file is the beginning of the text, and
all of it if the loop says so; and if every call takes something, the loop ends.
-/

namespace WriteAll

variable {α : Type*}

/-- What a call did. -/
inductive Call where
  | wrote (n : ℕ)
  | interrupted
  | failed
deriving DecidableEq

/-- The loop: what is left to write, and what is in the file.  It says whether all was written;
`none` if it still waits for the next call. -/
def run : List Call → List α → List α → Option (Bool × List α)
  | _, [], file => some (true, file)
  | [], _ :: _, _ => none
  | .wrote n :: calls, a :: left, file =>
      run calls ((a :: left).drop n) (file ++ (a :: left).take n)
  | .interrupted :: calls, a :: left, file => run calls (a :: left) file
  | .failed :: _, _ :: _, file => some (false, file)

/-- What was written is the beginning of what was to be written, all of it if the loop says so. -/
theorem run_spec {calls : List Call} {left file file' : List α} {done : Bool}
    (h : run calls left file = some (done, file')) :
  file' <+: file ++ left ∧ (done = true → file' = file ++ left)
  := by
  induction calls generalizing left file with
  | nil =>
      cases left with
      | nil =>
          cases h
          simp
      | cons a left => cases h
  | cons call calls ih =>
      cases left with
      | nil =>
          cases h
          simp
      | cons a left =>
          cases call with
          | wrote n =>
              have hrest := ih h
              rwa [List.append_assoc, List.take_append_drop] at hrest
          | interrupted => exact ih h
          | failed =>
              cases h
              exact ⟨List.prefix_append _ _, fun hdone => by cases hdone⟩

end WriteAll
