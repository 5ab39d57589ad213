import Mathlib.Algebra.BigOperators.Group.Finset.Basic
import Mathlib.Algebra.Order.Group.Multiset

/-!
# Custody of resources

A log tells which resources were acquired, used and released, in order.  The same name may
be acquired again, so what is held is a multiset.  A log that uses or releases what is not
held is not in order, and leaves nothing to tell.

An owner keeps what it holds in places.  An entry that concerns one place only leaves the
others as they are.
-/

/-- What is done with a resource. -/
inductive Deal (α : Type*) where
  | acquire (a : α)
  | use (a : α)
  | release (a : α)
deriving DecidableEq

namespace Deal

variable {α β : Type*}

/-- The same entry under another name of the resource. -/
def map (f : α → β) : Deal α → Deal β
  | acquire a => acquire (f a)
  | use a => use (f a)
  | release a => release (f a)

/-- What is held after an entry. -/
def perform [DecidableEq α] (held : Multiset α) : Deal α → Option (Multiset α)
  | acquire a => some (a ::ₘ held)
  | use a => if a ∈ held then some held else none
  | release a => if a ∈ held then some (held.erase a) else none

end Deal

namespace Custody

variable {α : Type*}

/-- What was acquired. -/
def acquired : List (Deal α) → Multiset α
  | [] => 0
  | .acquire a :: log => a ::ₘ acquired log
  | .use _ :: log => acquired log
  | .release _ :: log => acquired log

/-- What was released. -/
def released : List (Deal α) → Multiset α
  | [] => 0
  | .acquire _ :: log => released log
  | .use _ :: log => released log
  | .release a :: log => a ::ₘ released log

theorem acquired_append (log log' : List (Deal α)) :
  acquired (log ++ log') = acquired log + acquired log'
  := by
  induction log with
  | nil => simp [acquired]
  | cons deal log ih =>
      cases deal with
      | acquire a => simp [acquired, ih]
      | use a => simpa [acquired] using ih
      | release a => simpa [acquired] using ih

theorem released_append (log log' : List (Deal α)) :
  released (log ++ log') = released log + released log'
  := by
  induction log with
  | nil => simp [released]
  | cons deal log ih =>
      cases deal with
      | acquire a => simpa [released] using ih
      | use a => simpa [released] using ih
      | release a => simp [released, ih]

theorem acquired_uses {log : List (Deal α)} (h : ∀ deal ∈ log, ∃ a, deal = .use a) :
  acquired log = 0
  := by
  induction log with
  | nil => rfl
  | cons deal log ih =>
      obtain ⟨a, rfl⟩ := h deal List.mem_cons_self
      apply ih
      intro deal hdeal
      apply h deal (List.mem_cons_of_mem _ hdeal)

variable [DecidableEq α]

/-- What is held after a log, when `M` was held before; `none` if the log is not in
order. -/
def heldFrom (M : Multiset α) (log : List (Deal α)) : Option (Multiset α) :=
  log.foldlM Deal.perform M

/-- What is held after a log. -/
def held (log : List (Deal α)) : Option (Multiset α) := heldFrom 0 log

theorem heldFrom_append (M : Multiset α) (log log' : List (Deal α)) :
  heldFrom M (log ++ log') = (heldFrom M log).bind fun N => heldFrom N log'
  := List.foldlM_append

theorem heldFrom_cons (M : Multiset α) (deal : Deal α) (log : List (Deal α)) :
  heldFrom M (deal :: log) = (deal.perform M).bind fun N => heldFrom N log
  := List.foldlM_cons

/-- What a deal does to what is held, if it is in order. -/
theorem perform_cases {M N : Multiset α} {deal : Deal α} (h : deal.perform M = some N) :
  (∃ a, deal = .acquire a ∧ N = a ::ₘ M) ∨ (∃ a ∈ M, deal = .use a ∧ N = M)
    ∨ ∃ a ∈ M, deal = .release a ∧ N = M.erase a
  := by
  cases deal with
  | acquire a =>
      obtain rfl : a ::ₘ M = N := by simpa [Deal.perform] using h
      exact Or.inl ⟨a, rfl, rfl⟩
  | use a =>
      obtain ⟨ha, rfl⟩ : a ∈ M ∧ M = N := by simpa [Deal.perform] using h
      exact Or.inr (Or.inl ⟨a, ha, rfl, rfl⟩)
  | release a =>
      obtain ⟨ha, rfl⟩ : a ∈ M ∧ M.erase a = N := by simpa [Deal.perform] using h
      exact Or.inr (Or.inr ⟨a, ha, rfl, rfl⟩)

/-- What is held besides stays held. -/
theorem heldFrom_frame {M N : Multiset α} {log : List (Deal α)} (K : Multiset α)
    (h : heldFrom M log = some N) :
  heldFrom (M + K) log = some (N + K)
  := by
  induction log generalizing M with
  | nil =>
      obtain rfl : M = N := by simpa [heldFrom] using h
      rfl
  | cons deal log ih =>
      rw [heldFrom_cons, Option.bind_eq_some_iff] at h
      obtain ⟨M', hdeal, hlog⟩ := h
      have hdeal' : deal.perform (M + K) = some (M' + K) := by
        obtain ⟨a, rfl, rfl⟩ | ⟨a, ha, rfl, rfl⟩ | ⟨a, ha, rfl, rfl⟩ := perform_cases hdeal
        · simp [Deal.perform]
        · simp [Deal.perform, ha]
        · simp [Deal.perform, ha, Multiset.erase_add_left_pos]
      rw [heldFrom_cons, hdeal']
      apply ih hlog

/-- Uses of what is held change nothing. -/
theorem heldFrom_uses {M : Multiset α} {log : List (Deal α)}
    (h : ∀ deal ∈ log, ∃ a ∈ M, deal = .use a) :
  heldFrom M log = some M
  := by
  induction log with
  | nil => rfl
  | cons deal log ih =>
      obtain ⟨a, ha, rfl⟩ := h deal List.mem_cons_self
      rw [heldFrom_cons, Deal.perform, if_pos ha]
      apply ih
      intro deal hdeal
      apply h deal (List.mem_cons_of_mem _ hdeal)

/-- What was held and acquired is what is held still or was released. -/
theorem heldFrom_balance {M N : Multiset α} {log : List (Deal α)}
    (h : heldFrom M log = some N) :
  M + acquired log = N + released log
  := by
  induction log generalizing M with
  | nil =>
      obtain rfl : M = N := by simpa [heldFrom] using h
      rfl
  | cons deal log ih =>
      rw [heldFrom_cons, Option.bind_eq_some_iff] at h
      obtain ⟨M', hdeal, hlog⟩ := h
      have hrest := ih hlog
      obtain ⟨a, rfl, rfl⟩ | ⟨a, -, rfl, rfl⟩ | ⟨a, ha, rfl, rfl⟩ := perform_cases hdeal
      · rw [acquired, released, Multiset.add_cons, ← Multiset.cons_add, hrest]
      · rw [acquired, released, hrest]
      · rw [acquired, released, Multiset.add_cons, ← hrest, ← Multiset.cons_add,
          Multiset.cons_erase ha]

/-- What is held was acquired. -/
theorem le_acquired_of_held {N : Multiset α} {log : List (Deal α)} (h : held log = some N) :
  N ≤ acquired log
  := by
  have hbalance := heldFrom_balance h
  rw [zero_add] at hbalance
  rw [hbalance]
  apply Multiset.le_add_right

/-! ### Places -/

section Places

variable {ι : Type*} [Fintype ι] [DecidableEq ι]

/-- A log that concerns one place. -/
theorem heldFrom_place {content content' : ι → Multiset α} {log : List (Deal α)}
    {lost : Multiset α} (p : ι) (hothers : ∀ q, q ≠ p → content' q = content q)
    (h : heldFrom (content p) log = some (content' p + lost)) :
  heldFrom (∑ q, content q) log = some (∑ q, content' q + lost)
  := by
  have hrest : ∑ q ∈ Finset.univ.erase p, content' q = ∑ q ∈ Finset.univ.erase p, content q := by
    apply Finset.sum_congr rfl
    intro q hq
    apply hothers q (Finset.ne_of_mem_erase hq)
  rw [← Finset.add_sum_erase _ content (Finset.mem_univ p),
    ← Finset.add_sum_erase _ content' (Finset.mem_univ p), hrest, add_right_comm]
  apply heldFrom_frame _ h

end Places

end Custody
