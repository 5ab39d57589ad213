import Mathlib.Tactic

/-!
# Input loops that read before they test

A device holds the items that have arrived and were not read yet.  In each round new items
arrive, and a loop takes items for as long as there are any and fewer than a limit were
handled.  It reads an item before it tests the limit, so the item read at the limit is
not handled.  A device that is not open is never read.

A ledger keeps what was read, what was handled and what is still pending.  An item
amounts to one or more units, its contents; reading and handling are counted in units.
-/

/-- What was read from a device, what was handled, and what is pending. -/
structure Ledger (α β : Type*) where
  read : List β
  handled : List β
  pending : List α

namespace Ledger

variable {α β : Type*} (isOpen : Bool) (contents : α → List β) (limit : ℕ)

/-- The loop, over the items pending. -/
def drain (l : Ledger α β) : Ledger α β :=
  { read := l.read ++ (l.pending.take (limit + 1)).flatMap contents
    handled := l.handled ++ (l.pending.take limit).flatMap contents
    pending := l.pending.drop (limit + 1) }

/-- Items arrive. -/
def arrive (l : Ledger α β) (arrivals : List α) : Ledger α β :=
  { l with pending := l.pending ++ arrivals }

/-- One round. -/
def round (l : Ledger α β) (arrivals : List α) : Ledger α β :=
  if isOpen then (l.arrive arrivals).drain contents limit else l.arrive arrivals

/-- A round for each list of arrivals. -/
def run (l : Ledger α β) (rounds : List (List α)) : Ledger α β :=
  rounds.foldl (round isOpen contents limit) l

variable {isOpen contents limit} {l : Ledger α β}

theorem run_cons (arrivals : List α) (rounds : List (List α)) :
  run isOpen contents limit l (arrivals :: rounds)
    = run isOpen contents limit (round isOpen contents limit l arrivals) rounds
  := rfl

/-! ### Nothing is read twice -/

theorem round_conserves (arrivals : List α) :
  (round isOpen contents limit l arrivals).read
      ++ (round isOpen contents limit l arrivals).pending.flatMap contents
    = l.read ++ l.pending.flatMap contents ++ arrivals.flatMap contents
  := by
  unfold round
  split
  · simp only [drain, arrive]
    rw [List.append_assoc, ← List.flatMap_append, List.take_append_drop, List.flatMap_append,
      List.append_assoc]
  · simp only [arrive]
    rw [List.flatMap_append, List.append_assoc]

/-- What was read and what is pending is what has arrived, in order. -/
theorem run_conserves (isOpen : Bool) (contents : α → List β) (limit : ℕ) (rounds : List (List α)) :
  (run isOpen contents limit l rounds).read ++ (run isOpen contents limit l rounds).pending.flatMap contents
    = l.read ++ l.pending.flatMap contents ++ rounds.flatten.flatMap contents
  := by
  induction rounds generalizing l with
  | nil => simp [run]
  | cons arrivals rounds ih =>
      rw [run_cons, ih, round_conserves, List.flatten_cons, List.flatMap_append]
      simp only [List.append_assoc]

/-! ### What is read and not handled -/

/-- How many more units were read than handled. -/
def lag (l : Ledger α β) : ℤ := l.read.length - l.handled.length

/-- The loop falls behind by the item at the limit. -/
theorem lag_drain (l : Ledger α β) :
  (drain contents limit l).lag
    = l.lag + ((l.pending.drop limit).take 1 |>.flatMap contents).length
  := by
  simp only [lag, drain, List.take_add, List.flatMap_append, List.length_append, Nat.cast_add]
  ring

theorem lag_le_round (arrivals : List α) :
  l.lag ≤ (round isOpen contents limit l arrivals).lag
  := by
  unfold round
  split
  · have heq : (l.arrive arrivals).lag = l.lag := rfl
    rw [lag_drain, heq]
    omega
  · apply le_refl

theorem lag_le_run (rounds : List (List α)) :
  l.lag ≤ (run isOpen contents limit l rounds).lag
  := by
  induction rounds generalizing l with
  | nil => apply le_refl
  | cons arrivals rounds ih =>
      rw [run_cons]
      apply le_trans (lag_le_round arrivals) ih

theorem lag_lt_drain
    (hcontents : ∀ a, contents a ≠ []) (h : limit < l.pending.length) :
  l.lag < (drain contents limit l).lag
  := by
  rw [lag_drain, List.drop_eq_getElem_cons h]
  have hpos := List.length_pos_iff.mpr (hcontents l.pending[limit])
  simp only [List.take_succ_cons, List.take_zero, List.flatMap_singleton]
  omega

theorem drain_handled_eq_read (heq : l.handled = l.read) (h : l.pending.length ≤ limit) :
  (drain contents limit l).handled = (drain contents limit l).read
  := by
  simp only [drain, heq]
  rw [List.take_of_length_le h, List.take_of_length_le (by omega)]

theorem run_closed (rounds : List (List α)) :
  (run false contents limit l rounds).handled = l.handled
    ∧ (run false contents limit l rounds).read = l.read
  := by
  induction rounds generalizing l with
  | nil => exact ⟨rfl, rfl⟩
  | cons arrivals rounds ih => apply ih

theorem run_open_handled_eq_read_iff
    (hcontents : ∀ a, contents a ≠ []) (heq : l.handled = l.read) (hpending : l.pending = [])
    (rounds : List (List α)) :
  (run true contents limit l rounds).handled = (run true contents limit l rounds).read
    ↔ ∀ arrivals ∈ rounds, arrivals.length ≤ limit
  := by
  induction rounds generalizing l with
  | nil => simpa [run] using heq
  | cons arrivals rounds ih =>
      have harrive : (l.arrive arrivals).pending = arrivals := by
        simp [arrive, hpending]
      have hround : round true contents limit l arrivals
          = (l.arrive arrivals).drain contents limit := by
        rw [round, if_pos rfl]
      rw [run_cons, List.forall_mem_cons, hround]
      by_cases hfits : arrivals.length ≤ limit
      · have hdone : ((l.arrive arrivals).drain contents limit).pending = [] := by
          simp only [drain, harrive]
          apply List.drop_eq_nil_of_le
          omega
        have hnone : ((l.arrive arrivals).drain contents limit).handled
            = ((l.arrive arrivals).drain contents limit).read := by
          apply drain_handled_eq_read (l := l.arrive arrivals) heq
          rw [harrive]
          exact hfits
        rw [ih hnone hdone]
        simp [hfits]
      · have hlag : (l.arrive arrivals).lag < ((l.arrive arrivals).drain contents limit).lag := by
          apply lag_lt_drain hcontents
          rw [harrive]
          omega
        have hle : ((l.arrive arrivals).drain contents limit).lag
            ≤ (run true contents limit ((l.arrive arrivals).drain contents limit) rounds).lag :=
          lag_le_run rounds
        have hzero : (l.arrive arrivals).lag = 0 := by
          simp [lag, arrive, heq]
        constructor
        · intro hrun
          have hrun' : (run true contents limit ((l.arrive arrivals).drain contents limit)
              rounds).lag = 0 := by
            simp [lag, hrun]
          omega
        · intro hall
          exact absurd hall.1 hfits

/-- From a ledger with nothing lost or pending, nothing is lost exactly if no round brings
an open device more than the limit. -/
theorem run_handled_eq_read_iff (isOpen : Bool) (limit : ℕ)
    (hcontents : ∀ a, contents a ≠ []) (heq : l.handled = l.read) (hpending : l.pending = [])
    (rounds : List (List α)) :
  (run isOpen contents limit l rounds).handled = (run isOpen contents limit l rounds).read
    ↔ (isOpen → ∀ arrivals ∈ rounds, arrivals.length ≤ limit)
  := by
  cases isOpen with
  | true => simpa using run_open_handled_eq_read_iff hcontents heq hpending rounds
  | false =>
      have hclosed : (run false contents limit l rounds).handled = l.handled
          ∧ (run false contents limit l rounds).read = l.read := run_closed rounds
      simp [hclosed.1, hclosed.2, heq]

end Ledger
