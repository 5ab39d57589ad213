import LnxCad.Vt.Balance
import LnxCad.Vt.Erasure

/-!
# Descriptors the journal keeps too long

`restore_vt`, run at exit, uses and closes the terminals the journal has descriptors for.
`steal_vt` closes a terminal without resetting its field when the kernel cannot tell which
terminal is in front, and when it refuses to switch; then `restore_vt` works on descriptors
that were closed.  In every other run a descriptor that is used is open.
-/

namespace LnxCad

namespace Vt

open Prog Custody

/-- A call works on a resource that was acquired before. -/
def Touches (deal : Deal Resource) (r : Resource) : Prop := deal = .use r ∨ deal = .release r

/-- Every descriptor of the journal that is used or closed is open: it was opened more often
than it was closed. -/
def NoDeadDescriptor (log : List (Deal Resource)) : Prop :=
  ∀ before deal after f fd, log = before ++ deal :: after → Touches deal (.descriptor f fd) →
    (released before).count (.descriptor f fd) < (acquired before).count (.descriptor f fd)

/-- The answers on which `steal_vt` does not give up a terminal it has opened: to
`VT_GETSTATE`, its first question, and to `VT_ACTIVATE`, its sixth. -/
def KeepsTerminal (e : Env) (s : Sys) : Prop :=
  e.ttyOpen < 0 ∨ 0 ≤ s.answers s.asked ∧ 0 ≤ s.answers (s.asked + 5)

theorem switchToRescue_result (s : Sys) :
  switchToRescue.result s = if s.answers (s.asked + 3) < 0 then -1 else 0
  := by
  have hend : ∀ (activated : ℤ) (t : Sys),
      result (if activated < 0 then do call; call; pure (-1) else do call; call; call; pure 0) t
        = if activated < 0 then -1 else 0 := by
    intro activated t
    split
    · rfl
    · rfl
  apply hend

theorem stealVt_result (e : Env) (s : Sys) :
  (stealVt e).result s
    = if e.ttyOpen < 0 then -1
      else if s.answers s.asked < 0 then -1
      else if s.answers (s.asked + 5) < 0 then -1 else 0
  := by
  unfold stealVt
  rw [result_bind]
  split
  · rfl
  rw [result_bind]
  have hstate : ask.result ((setJournal fun j => { j with ttyFd := e.ttyOpen }).final s)
      = s.answers s.asked := rfl
  rw [hstate]
  split
  · rfl
  · rw [result_bind, result_bind, switchToRescue_result]
    rfl

/-- `steal_vt` gives up a terminal it has opened on the other answers. -/
theorem keepsTerminal_iff (e : Env) (s : Sys) :
  KeepsTerminal e s ↔ e.ttyOpen < 0 ∨ (stealVt e).result s = 0
  := by
  rw [KeepsTerminal, stealVt_result]
  split_ifs with hclosed hstate hrefused
  · simp [hclosed]
  · simp [hclosed, not_le.mpr hstate]
  · simp [hclosed, not_le.mpr hrefused]
  · simp [not_lt.mp hstate, not_lt.mp hrefused]

/-! ### Runs in which no terminal is given up -/

/-- A descriptor has no length. -/
theorem count_measured (μ : ℤ → ℤ) (M : Multiset Resource) (f : Fd) (fd : ℤ) :
  (M.map (Resource.measured μ)).count (.descriptor f fd) = M.count (.descriptor f fd)
  := by
  induction M using Multiset.induction_on with
  | empty => rfl
  | cons r M ih =>
      rw [Multiset.map_cons, Multiset.count_cons, Multiset.count_cons, ih]
      cases r with
      | descriptor f' fd' => rfl
      | dumb handle => rfl
      | framebuffer id => rfl
      | mapping address length => simp [Resource.measured]

/-- A log in which everything used is held has no dead descriptor. -/
theorem noDeadDescriptor_of_held {log : List (Deal Resource)} {M : Multiset Resource}
    (h : held (names log) = some M) :
  NoDeadDescriptor log
  := by
  rintro before deal after f fd rfl htouches
  rw [names, measuredLog_append, held, heldFrom_append, ← held, Option.bind_eq_some_iff] at h
  obtain ⟨N, hbefore, hafter⟩ := h
  have hmem : .descriptor f fd ∈ N := by
    by_contra hnot
    obtain rfl | rfl := htouches
    · simp [measuredLog, heldFrom, Deal.map, Deal.perform, Resource.measured, hnot] at hafter
    · simp [measuredLog, heldFrom, Deal.map, Deal.perform, Resource.measured, hnot] at hafter
  have hbalance := heldFrom_balance hbefore
  rw [zero_add, acquired_measuredLog, released_measuredLog] at hbalance
  have hcount := congrArg (Multiset.count (.descriptor f fd)) hbalance
  rw [Multiset.count_add, count_measured, count_measured] at hcount
  have hpos := Multiset.count_pos.mpr hmem
  omega

section Runs

variable {μ : ℤ → ℤ}

theorem stealVt_kept (e : Env) :
  Spec (fun t => Books μ Fields.Fresh t ∧ KeepsTerminal e t.1) (Traced.stealVt e)
    (fun r t => r = 0 ∧ Books μ Fields.Idle t ∨ r = -1 ∧ Books μ Fields.Fresh t) fun _ => True
  := by
  rintro t ⟨hbooks, hkeeps⟩
  refine ⟨fun _ _ => trivial, ?_⟩
  obtain hstolen | ⟨hr, -, hfresh⟩ | ⟨hr, hopen, -⟩ := (stealVt_stolen e t hbooks).2
  · exact Or.inl hstolen
  · exact Or.inr ⟨hr, hfresh⟩
  · rw [keepsTerminal_iff, ← (Traced.stealVt_annotates e t).1, hr] at hkeeps
    obtain hclosed | hzero := hkeeps
    · exact absurd hopen (not_le.mpr hclosed)
    · cases hzero

/-- What is known of the fields when `init_drm` returns. -/
def Fields.Returned (r : ℤ) (v : Fields) : Prop := v.Taken r ∨ r = -1 ∧ v.Fresh

theorem initDrm_kept (e : Env) {sizes : Fin 2 → ℤ} (hμ : μ (sizes 0) = μ (sizes 1)) :
  Spec (fun t => Books μ Fields.Fresh t ∧ KeepsTerminal e t.1) (Traced.initDrm e sizes)
    (fun r => Books μ fun v => v.Returned r) fun _ => True
  := by
  apply Spec.bind (stealVt_kept e)
  intro stolen
  split
  · rename_i hstolen
    apply Spec.pure
    rintro t (⟨rfl, -⟩ | ⟨-, haccounts, hfresh⟩)
    · cases hstolen
    · exact ⟨haccounts, Or.inr ⟨rfl, hfresh⟩⟩
  · rename_i hstolen
    refine (Spec.strengthen (takeCard_keeps hμ) ?_).weaken ?_
    · rintro t (⟨-, hbooks⟩ | ⟨rfl, -⟩)
      · exact hbooks
      · exact absurd (by decide) hstolen
    · rintro r t ⟨haccounts, htaken⟩
      exact ⟨haccounts, Or.inl htaken⟩

theorem Fields.Cleared.unreleased {v : Fields} (h : v.Cleared) :
  v.Unreleased
  := fun _ => h.noTty

theorem Fields.Fresh.unreleased {v : Fields} (h : v.Fresh) :
  v.Unreleased
  := by
  intro hrestored
  rw [h.restored] at hrestored
  cases hrestored

/-- However `main` goes on, terminals that were released are not open in the end. -/
theorem afterInit_keeps (e : Env) (r : ℤ) :
  Keeps μ (fun v => v.Returned r) (Traced.afterInit e r) fun _ => Fields.Unreleased
  := by
  unfold Traced.afterInit
  split
  · apply Keeps.pure
    rintro v ((⟨-, hsetUp⟩ | ⟨-, hcleared⟩) | ⟨-, hfresh⟩)
    · exact hsetUp.unreleased
    · exact hcleared.unreleased
    · exact hfresh.unreleased
  · rename_i hr
    apply Keeps.strengthen (F := Fields.SetUp)
    · apply Spec.bind (lift_keeps ask_fields)
      intro rawfb
      split
      · apply Keeps.pure
        intro v hv
        exact hv.unreleased
      · apply Spec.bind (lift_keeps (uiLoop_fields e))
        intro g
        apply Spec.bind (cleanupDrm_keeps.strengthen fun v hv => ⟨hv.drm, hv.unreleased⟩)
        intro _
        split
        · apply Keeps.pure
          intro v hv
          exact hv.unreleased
        · apply Keeps.pure
          intro v hv
          exact hv.unreleased
    · rintro v ((⟨-, hsetUp⟩ | ⟨rfl, -⟩) | ⟨rfl, -⟩)
      · exact hsetUp
      · exact absurd (by decide) hr
      · exact absurd (by decide) hr

theorem atExit_keeps (how : Exit) :
  Keeps μ Fields.Unreleased (Traced.atExit how) fun _ _ => True
  := by
  unfold Traced.atExit
  split
  · refine ((restoreVt_keeps (F := fun _ => True) ?_).strengthen ?_).weaken ?_
    · exact ⟨fun _ _ _ _ _ => trivial, fun _ _ => trivial⟩
    · intro v hv
      exact ⟨trivial, hv⟩
    · intro _ v _
      trivial
  · apply Keeps.pure
    intro v _
    trivial

end Runs

/-! ### Runs in which an open terminal is given up -/

/-- A descriptor is used that was closed as often as it was opened. -/
def DeadUse (log : List (Deal Resource)) : Prop :=
  ∃ before after f fd, log = before ++ .use (.descriptor f fd) :: after
    ∧ (acquired before).count (.descriptor f fd) ≤ (released before).count (.descriptor f fd)

theorem DeadUse.not_noDeadDescriptor {log : List (Deal Resource)} (h : DeadUse log) :
  ¬ NoDeadDescriptor log
  := by
  obtain ⟨before, after, f, fd, rfl, hcount⟩ := h
  intro hno
  apply not_lt.mpr hcount
  apply hno before _ after f fd rfl (Or.inl rfl)

/-- Once a dead descriptor was used, it was. -/
theorem enter_deadUse (deals : Sys × Record → List (Deal Resource)) :
  Spec (fun t => DeadUse t.2.log) (Traced.enter deals) (fun _ t => DeadUse t.2.log) fun _ => True
  := by
  rintro t ⟨before, after, f, fd, hlog, hcount⟩
  refine ⟨fun _ _ => trivial, before, after ++ deals t, f, fd, ?_, hcount⟩
  have hfinal : ((Traced.enter deals).final t).2.log = t.2.log ++ deals t := rfl
  rw [hfinal, hlog, List.append_assoc, List.cons_append]

theorem lift_deadUse {α : Type} (m : Cmd α) :
  Spec (fun t : Sys × Record => DeadUse t.2.log) (lift m) (fun _ t => DeadUse t.2.log) fun _ => True
  := by
  apply (lift_record m).keeps (P := fun w : Record => DeadUse w.log)
  intro _ _
  trivial

/-- What restoring the rescue terminal leaves alone: the descriptor of the other terminal, and
how often it was opened and closed. -/
def ttyView (fd : ℤ) (t : Sys × Record) : ℤ × ℕ × ℕ :=
  (t.1.core.journal.ttyFd, (acquired t.2.log).count (.descriptor .tty fd),
    (released t.2.log).count (.descriptor .tty fd))

section Tty

variable {fd : ℤ}

theorem enter_ttyView {deals : Sys × Record → List (Deal Resource)}
    (h : ∀ t, (acquired (deals t)).count (.descriptor .tty fd) = 0
      ∧ (released (deals t)).count (.descriptor .tty fd) = 0) :
  Inert (ttyView fd) (Traced.enter deals)
  := by
  apply Inert.step
  intro t
  simp [ttyView, acquired_append, released_append, h]

theorem lift_ttyView {α : Type} {m : Cmd α} (h : Inert (fun s => s.core.journal.ttyFd) m) :
  Inert (ttyView fd) (lift m)
  := by
  intro P
  apply h.lift fun p : ℤ × Record => P (p.1, (acquired p.2.log).count (.descriptor .tty fd),
    (released p.2.log).count (.descriptor .tty fd))

theorem call_ttyView :
  Inert (ttyView fd) (lift call)
  := by
  apply lift_ttyView
  apply Inert.bind
  · apply Inert.step
    intro s
    rfl
  · intro _
    apply Inert.pure

theorem act_ttyView :
  Inert (ttyView fd) (Traced.act .rescueTty)
  := by
  apply Inert.bind
  · apply enter_ttyView
    intro t
    exact ⟨rfl, rfl⟩
  · intro _
    apply call_ttyView

theorem resetAttributes_ttyView :
  Inert (ttyView fd) Traced.resetAttributes
  := by
  apply Inert.bind
  · apply Inert.bind
    · apply enter_ttyView
      intro t
      exact ⟨rfl, rfl⟩
    · intro _
      apply lift_ttyView
      apply Inert.step
      intro s
      rfl
  · intro got
    apply enter_ttyView
    intro t
    split
    · exact ⟨rfl, rfl⟩
    · exact ⟨rfl, rfl⟩

theorem releaseRescueTty_ttyView :
  Inert (ttyView fd) Traced.releaseRescueTty
  := by
  apply Inert.bind
  · apply lift_ttyView
    apply Inert.step
    intro s
    rfl
  intro rescueFd
  split
  · apply Inert.bind act_ttyView
    intro _
    apply Inert.bind act_ttyView
    intro _
    apply Inert.bind resetAttributes_ttyView
    intro _
    apply Inert.bind act_ttyView
    intro _
    apply Inert.bind call_ttyView
    intro _
    apply Inert.bind
    · apply enter_ttyView
      intro t
      refine ⟨rfl, ?_⟩
      simp [released]
    · intro _
      apply lift_ttyView
      apply Inert.step
      intro s
      rfl
  · apply Inert.pure

/-- The terminal in the journal was closed as often as it was opened. -/
def Doomed (fd : ℤ) (t : Sys × Record) : Prop :=
  (ttyView fd t).1 = fd ∧ (ttyView fd t).2.1 ≤ (ttyView fd t).2.2

/-- A terminal that was closed is used to switch back. -/
theorem releaseTty_deadUse (hfd : 0 ≤ fd) :
  Spec (Doomed fd) Traced.releaseTty (fun _ t => DeadUse t.2.log) fun _ => True
  := by
  have hread : Spec (Doomed fd) (lift (Prog.read fun s : Sys => s.core.journal.ttyFd))
      (fun r t => r = fd ∧ Doomed fd t) fun _ => True := by
    rintro ⟨s, w⟩ ht
    exact ⟨fun _ _ => trivial, ht.1, ht⟩
  have hklogctl : Spec (Doomed fd) (lift (klogctl 7)) (fun _ => Doomed fd) fun _ => True := by
    apply (lift_ttyView _).keeps (P := fun p => p.1 = fd ∧ p.2.1 ≤ p.2.2) fun _ _ => trivial
    apply Inert.step
    intro s
    rfl
  have huse : Spec (Doomed fd)
      (Traced.enter fun t => [.use (.descriptor .tty (Fd.tty.value t.1))])
      (fun _ t => DeadUse t.2.log) fun _ => True := by
    rintro ⟨s, w⟩ ⟨htty, hcount⟩
    refine ⟨fun _ _ => trivial, w.log, [], .tty, fd, ?_, hcount⟩
    have hvalue : Fd.tty.value s = fd := htty
    have hfinal : ((Traced.enter fun t => [.use (.descriptor .tty (Fd.tty.value t.1))]).final
        (s, w)).2.log = w.log ++ [.use (.descriptor .tty (Fd.tty.value s))] := rfl
    rw [hfinal, hvalue]
  apply Spec.bind hread
  intro r
  split
  · apply Spec.strengthen (p := Doomed fd) _ fun t ht => ht.2
    apply Spec.bind hklogctl
    intro _
    apply Spec.bind huse
    intro _
    apply Spec.bind (lift_deadUse _)
    intro _
    apply Spec.bind
    · apply Spec.bind (enter_deadUse _)
      intro _
      apply lift_deadUse
    intro _
    apply Spec.bind (lift_deadUse _)
    intro _
    apply Spec.bind (lift_deadUse _)
    intro _
    apply Spec.bind (lift_deadUse _)
    intro _
    apply Spec.bind (enter_deadUse _)
    intro _
    apply lift_deadUse
  · rename_i hclosed
    apply Spec.pure
    rintro t ⟨rfl, -⟩
    exact absurd hfd hclosed

theorem Shut.doomed {μ : ℤ → ℤ} {t : Sys × Record} (h : Shut μ fd t) :
  Doomed fd t
  := by
  obtain ⟨⟨lost, hlost, hheld⟩, htty, -⟩ := h
  refine ⟨htty, ?_⟩
  have hbalance := heldFrom_balance hheld
  rw [zero_add, zero_add, acquired_measuredLog, released_measuredLog] at hbalance
  have hcount := congrArg (Multiset.count (.descriptor .tty fd)) hbalance
  have hnone : lost.count (.descriptor .tty fd) = 0 := by
    apply Multiset.count_eq_zero_of_notMem
    intro hmem
    apply hlost _ hmem
  rw [Multiset.count_add, count_measured, count_measured, hnone, zero_add] at hcount
  exact hcount.le

theorem restoreVt_deadUse {μ : ℤ → ℤ} (hfd : 0 ≤ fd) :
  Spec (Shut μ fd) Traced.restoreVt (fun _ t => DeadUse t.2.log) fun _ => True
  := by
  have hmark : Spec (Shut μ fd)
      (lift (Prog.step fun s : Sys => (s.core.vtRestored, { s with core.vtRestored := true })))
      (fun restored t => restored = false ∧ Doomed fd t) fun _ => True := by
    rintro ⟨s, w⟩ ht
    exact ⟨fun _ _ => trivial, ht.restored, ht.doomed⟩
  apply Spec.bind hmark
  intro restored
  split
  · rename_i hrestored
    apply Spec.pure
    rintro t ⟨hfirst, -⟩
    rw [hfirst] at hrestored
    cases hrestored
  · apply Spec.strengthen (p := Doomed fd) _ fun t ht => ht.2
    apply Spec.bind (releaseRescueTty_ttyView.keeps (P := fun p => p.1 = fd ∧ p.2.1 ≤ p.2.2)
      fun _ _ => trivial)
    intro _
    apply releaseTty_deadUse hfd

end Tty

/-! ### Every run -/

theorem initDrm_of_failed {e : Env} {t : Sys × Record} (sizes : Fin 2 → ℤ)
    (h : (Traced.stealVt e).result t = -1) :
  (Traced.initDrm e sizes).result t = -1
    ∧ (Traced.initDrm e sizes).final t = (Traced.stealVt e).final t
  := by
  rw [Traced.initDrm, result_bind, final_bind, h]
  exact ⟨rfl, rfl⟩

/-- Where `steal_vt` closes a terminal it has opened, `restore_vt` uses it. -/
theorem process_deadUse {e : Env} {s : Sys} (sizes : Fin 2 → ℤ)
    (hs : Books unmeasured Fields.Fresh (beforeInit e s, {}))
    (h : ¬ KeepsTerminal e (beforeInit e s)) :
  DeadUse ((Traced.process e sizes).final (s, {})).2.log
  := by
  rw [keepsTerminal_iff, ← (Traced.stealVt_annotates e (beforeInit e s, {})).1] at h
  obtain ⟨hzero, -⟩ | ⟨-, hclosed, -⟩ | ⟨hfailed, hfd, hshut⟩ := (stealVt_stolen e _ hs).2
  · exact absurd (Or.inr hzero) h
  · exact absurd (Or.inl hclosed) h
  · obtain ⟨hresult, hfinal⟩ := initDrm_of_failed sizes hfailed
    have hprocess : (Traced.process e sizes).final (s, {})
        = Traced.restoreVt.final ((Traced.stealVt e).final (beforeInit e s, {})) := by
      rw [← hfinal]
      have hsplit : (Traced.process e sizes).final (s, {})
          = (do
              let how ← Traced.afterInit e ((Traced.initDrm e sizes).result (beforeInit e s, {}))
              Traced.atExit how).final ((Traced.initDrm e sizes).final (beforeInit e s, {})) := rfl
      rw [hsplit, hresult]
      rfl
    rw [hprocess]
    apply (restoreVt_deadUse hfd _ hshut).2

theorem process_noDeadDescriptor {e : Env} {s : Sys} (sizes : Fin 2 → ℤ)
    (hs : Books unmeasured Fields.Fresh (beforeInit e s, {}))
    (h : KeepsTerminal e (beforeInit e s)) :
  NoDeadDescriptor ((Traced.process e sizes).final (s, {})).2.log
  := by
  have hsizes : unmeasured (sizes 0) = unmeasured (sizes 1) := rfl
  have hreturned := (initDrm_kept e hsizes _ ⟨hs, h⟩).2
  have hafter := (afterInit_keeps e _ _ hreturned).2
  obtain ⟨⟨lost, -, hheld⟩, -⟩ := (atExit_keeps _ _ hafter).2
  apply noDeadDescriptor_of_held hheld

/-- In a run of the process no descriptor of the journal is used or closed after it was closed,
exactly if `steal_vt` does not give up a terminal it has opened. -/
theorem process_noDeadDescriptor_iff (e : Env) (sizes : Fin 2 → ℤ) (sysrq : Int32)
    (brightness : Bytes → Int32) (answers : ℕ → ℤ) :
  NoDeadDescriptor
      ((Traced.process e sizes).final (boot sysrq brightness answers, {})).2.log
    ↔ KeepsTerminal e (beforeInit e (boot sysrq brightness answers))
  := by
  have hbooks := (unopened_beforeInit e sysrq brightness answers).books unmeasured
  constructor
  · intro hno
    by_contra hgiven
    apply (process_deadUse sizes hbooks hgiven).not_noDeadDescriptor hno
  · intro hkeeps
    apply process_noDeadDescriptor sizes hbooks hkeeps

/-- The answers of a kernel that refuses to bring the rescue terminal to the front. -/
def refusingAnswers (n : ℕ) : ℤ := if n = 9 then -1 else laptopAnswers n

/-- The rescue terminal and the original one are closed, and then used by `restore_vt`. -/
theorem not_noDeadDescriptor_refused :
  ¬ NoDeadDescriptor
      ((Traced.process laptop fun _ => 800).final
        (boot 176 (fun _ => 50) refusingAnswers, {})).2.log
  := by
  apply DeadUse.not_noDeadDescriptor
  refine ⟨((Traced.process laptop fun _ => 800).final
      (boot 176 (fun _ => 50) refusingAnswers, {})).2.log.take 7,
    ((Traced.process laptop fun _ => 800).final
      (boot 176 (fun _ => 50) refusingAnswers, {})).2.log.drop 8, .rescueTty, 4, ?_, ?_⟩
  · decide +kernel
  · decide +kernel

end Vt

end LnxCad
