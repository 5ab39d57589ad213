import Mathlib.Tactic

/-!
# Logs

A program that acts on the outside keeps the list of what it did, oldest first.  `Emits`
says by what a log was continued; `Recorded` says how every entry relates to those before
it, and `Until` that entries of one kind come only behind an entry of another.
-/

variable {ε : Type*}

/-- The second log continues the first with entries that satisfy a condition. -/
def Emits (P : ε → Prop) (log log' : List ε) : Prop :=
  ∃ es, log' = log ++ es ∧ ∀ e ∈ es, P e

namespace Emits

variable {P Q : ε → Prop} {log log' log'' : List ε}

theorem refl (P : ε → Prop) (log : List ε) :
  Emits P log log
  := ⟨[], by simp, by simp⟩

theorem single {e : ε} (he : P e) :
  Emits P log (log ++ [e])
  := ⟨[e], rfl, by simpa using he⟩

theorem trans (h : Emits P log log') (h' : Emits P log' log'') :
  Emits P log log''
  := by
  obtain ⟨es, rfl, hes⟩ := h
  obtain ⟨es', rfl, hes'⟩ := h'
  use es ++ es'
  constructor
  · apply List.append_assoc
  · intro e he
    obtain he | he := List.mem_append.mp he
    · apply hes e he
    · apply hes' e he

theorem mono (hPQ : ∀ e, P e → Q e) (h : Emits P log log') :
  Emits Q log log'
  := by
  obtain ⟨es, rfl, hes⟩ := h
  use es, rfl
  intro e he
  apply hPQ e (hes e he)

theorem filterMap_eq
    {α : Type*} {f : ε → Option α} (hf : ∀ e, P e → f e = none) (h : Emits P log log') :
  log'.filterMap f = log.filterMap f
  := by
  obtain ⟨es, rfl, hes⟩ := h
  have hnil : es.filterMap f = [] := by
    apply List.filterMap_eq_nil_iff.mpr
    intro e he
    apply hf e (hes e he)
  rw [List.filterMap_append, hnil, List.append_nil]

theorem subset (h : Emits P log log') :
  log ⊆ log'
  := by
  obtain ⟨es, rfl, -⟩ := h
  apply List.subset_append_left

end Emits

/-- Every entry stands in a relation to the entries before it. -/
def Recorded (Q : List ε → ε → Prop) (log : List ε) : Prop :=
  ∀ pre e post, log = pre ++ e :: post → Q pre e

namespace Recorded

variable {Q : List ε → ε → Prop} {log : List ε}

theorem nil :
  Recorded Q []
  := by
  intro pre e post h
  simp at h

theorem concat (h : Recorded Q log) {e : ε} (he : Q log e) :
  Recorded Q (log ++ [e])
  := by
  intro pre d post heq
  rcases List.eq_nil_or_concat post with rfl | ⟨post, x, rfl⟩
  · obtain ⟨rfl, hd⟩ := List.append_inj' heq rfl
    cases hd
    apply he
  · rw [List.concat_eq_append, ← List.cons_append, ← List.append_assoc] at heq
    obtain ⟨hlog, -⟩ := List.append_inj' heq rfl
    apply h pre d post hlog

/-- A log is continued by entries that may stand anywhere. -/
theorem emits {P : ε → Prop} (h : Recorded Q log) (hP : ∀ pre e, P e → Q pre e) {log' : List ε}
    (hlog : Emits P log log') :
  Recorded Q log'
  := by
  obtain ⟨es, rfl, hes⟩ := hlog
  induction es using List.reverseRecOn with
  | nil => simpa using h
  | append_singleton es e ih =>
      rw [← List.append_assoc]
      apply concat
      · apply ih
        intro d hd
        apply hes d (by simp [hd])
      · apply hP _ e (hes e (by simp))

end Recorded

/-- Before the first entry of the kind `key`, every entry is `ok`. -/
def Until (key ok : ε → Prop) (log : List ε) : Prop :=
  Recorded (fun pre e => (∀ d ∈ pre, ¬ key d) → ok e) log

namespace Until

variable {key ok : ε → Prop} {log : List ε}

theorem nil :
  Until key ok []
  := Recorded.nil

/-- A log is continued by one entry that is `ok`, or that follows a `key`. -/
theorem concat
    (h : Until key ok log) {e : ε} (he : (∀ d ∈ log, ¬ key d) → ok e) :
  Until key ok (log ++ [e])
  := Recorded.concat h he

/-- A log is continued by entries that are `ok`. -/
theorem emits {P : ε → Prop} (h : Until key ok log) (hP : ∀ e, P e → ok e) {log' : List ε}
    (hlog : Emits P log log') :
  Until key ok log'
  := by
  apply Recorded.emits h _ hlog
  intro pre e he _
  apply hP e he

end Until
