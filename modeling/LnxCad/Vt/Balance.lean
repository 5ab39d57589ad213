import LnxCad.Vt.Bookkeeping

/-!
# The graphics card is given back as it was taken

Whatever the kernel answers, `init_drm` either fails with everything released that it
acquired, each once, or succeeds and holds exactly what the fields say; then `cleanup_drm`
releases that, each once, and a second `cleanup_drm` does nothing.

Mappings are known by their address.  Both buffers are created by the same request; if
the kernel gives both the same size, the mappings are released with the length they were
made with as well.
-/

namespace LnxCad

namespace Vt

open Prog Custody

section Balance

variable {μ : ℤ → ℤ}

/-! ### The terminal -/

/-- Without a card only the terminals are held. -/
theorem owned_of_idle {v : Fields} (h : v.Idle) :
  owned μ v = content μ v (.fd .rescueTty) + content μ v (.fd .tty)
  := by
  have huniv : (Finset.univ : Finset Place) = {.fd .tty, .fd .rescueTty, .fd .drm, .buffer 0,
      .buffer 1, .framebuffer 0, .framebuffer 1, .dumb 0, .dumb 1} := rfl
  obtain ⟨hdrm, -, hvacant⟩ := h
  obtain ⟨hhandle, hfb, hbuffer⟩ := hvacant 0
  obtain ⟨hhandle', hfb', hbuffer'⟩ := hvacant 1
  rw [owned, huniv]
  simp [content, not_le.mpr hdrm, hhandle, hfb, hbuffer, hhandle', hfb', hbuffer']
  rw [add_comm]

/-- A descriptor is released, if there is one, and the field keeps it. -/
theorem Outstanding.close {v : Fields} {f : Fd} {M : Multiset Resource} {log : List (Deal Resource)}
    (h : Outstanding μ (content μ v (.fd f) + M) log) :
  Outstanding μ M
    (log ++ if 0 ≤ v.fd f then [.release (.descriptor f (v.fd f))] else [])
  := by
  obtain ⟨lost, hlost, hheld⟩ := h
  refine ⟨lost, hlost, ?_⟩
  rw [measuredLog_append, held, heldFrom_append, ← held, hheld, content, add_assoc]
  split
  · simp [measuredLog, heldFrom, Deal.map, Deal.perform, Resource.measured]
  · simp [measuredLog, heldFrom]

/-- Nothing was taken yet. -/
structure Fields.Fresh (v : Fields) : Prop where
  fd : ∀ f, v.fd f < 0
  restored : v.vtRestored = false
  vacant : ∀ i, v.Vacant i

/-- The terminals were closed, but the journal has the descriptor. -/
structure Shut (μ : ℤ → ℤ) (fd : ℤ) (t : Sys × Record) : Prop where
  settled : Outstanding μ 0 t.2.log
  tty : t.1.core.journal.ttyFd = fd
  restored : t.1.core.vtRestored = false

/-- The terminal `fd` is open, and no card. -/
structure Fields.Entered (fd : ℤ) (v : Fields) : Prop extends v.Idle where
  tty : v.fd .tty = fd

theorem switchToRescue_spec {fd : ℤ} (hfd : 0 ≤ fd) :
  Spec (Books μ fun v => v.Entered fd ∧ v.fd .rescueTty < 0) Traced.switchToRescue
    (fun r t => r = 0 ∧ Books μ Fields.Idle t ∨ r = -1 ∧ Shut μ fd t) fun _ => True
  := by
  have hopen : ∀ v : Fields, v.Entered fd → 0 ≤ v.fd .tty := by
    intro v hv
    rw [hv.tty]
    apply hfd
  apply Spec.bind (ioctl_keeps fun v hv => hopen v hv.1)
  intro query
  apply Spec.bind (lift_keeps ask_fields)
  intro free
  apply Spec.bind
  · apply lift_keeps
    apply setCore_fields
    intro c
    exact ⟨rfl, rfl, rfl⟩
  intro _
  apply Spec.bind (lift_keeps ask_fields)
  intro rescueFd
  refine Spec.bind (opened_keeps (H := fun v => v.Entered fd)
    (fun s w => fields_setRescueTty s w rescueFd) (fun v hv => hv.2) ?_) ?_
  · rintro v P ⟨⟨⟨hdrm, hrestored, hvacant⟩, htty⟩, -⟩ _
    exact ⟨⟨hdrm, hrestored, hvacant⟩, htty⟩
  intro _
  apply Spec.bind (use_keeps hopen)
  intro _
  apply Spec.bind (lift_keeps (vtActivate_fields _))
  intro activated
  split
  · rintro ⟨s, w⟩ ⟨haccounts, hv⟩
    refine ⟨fun _ _ => trivial, Or.inr ⟨rfl, ?_, hv.tty, hv.restored⟩⟩
    have howned : owned μ (fields s w)
        = content μ (fields s w) (.fd .rescueTty) + (content μ (fields s w) (.fd .tty) + 0) := by
      rw [add_zero]
      apply owned_of_idle hv.toIdle
    rw [Accounts, howned] at haccounts
    apply haccounts.close.close
  · apply Spec.weaken (q := fun r => Books μ fun v => r = 0 ∧ v.Idle)
    · apply Spec.bind (act_keeps hopen)
      intro _
      apply Spec.bind (actIfOpen_keeps _)
      intro _
      apply Spec.bind (actIfOpen_keeps _)
      intro _
      apply Keeps.pure
      intro v hv
      exact ⟨rfl, hv.toIdle⟩
    · intro r t ht
      exact Or.inl ⟨ht.2.1, ht.1, ht.2.2⟩

/-- The outcome of `steal_vt`: the terminal is taken, could not be opened, or was closed
again. -/
def Stolen (μ : ℤ → ℤ) (e : Env) (r : ℤ) (t : Sys × Record) : Prop :=
  r = 0 ∧ Books μ Fields.Idle t ∨ r = -1 ∧ e.ttyOpen < 0 ∧ Books μ Fields.Fresh t
    ∨ r = -1 ∧ 0 ≤ e.ttyOpen ∧ Shut μ e.ttyOpen t

theorem stealVt_stolen (e : Env) :
  Spec (Books μ Fields.Fresh) (Traced.stealVt e) (Stolen μ e) fun _ => True
  := by
  refine Spec.bind (opened_keeps
    (H := fun v => v.Entered e.ttyOpen ∧ v.fd .rescueTty < 0)
    (fun s w => fields_setTty s w e.ttyOpen) (fun v hv => hv.fd .tty) ?_) ?_
  · rintro v P ⟨hfd, hrestored, hvacant⟩ _
    exact ⟨⟨⟨hfd .drm, hrestored, hvacant⟩, setFd_fd_self v .tty e.ttyOpen⟩, hfd .rescueTty⟩
  intro _
  split
  · rename_i hclosed
    apply Spec.pure
    rintro t ⟨haccounts, ⟨⟨hdrm, hrestored, hvacant⟩, htty⟩, hrescue⟩
    refine Or.inr (Or.inl ⟨rfl, hclosed, haccounts, ?_, hrestored, hvacant⟩)
    intro f
    cases f with
    | tty =>
        rw [htty]
        apply hclosed
    | rescueTty => apply hrescue
    | drm => apply hdrm
  · rename_i hnonneg
    have hfd : 0 ≤ e.ttyOpen := not_lt.mp hnonneg
    refine Spec.bind (ioctl_keeps ?_) ?_
    · intro v hv
      rw [hv.1.tty]
      apply hfd
    intro state
    split
    · rintro ⟨s, w⟩ ⟨haccounts, hv, hrescue⟩
      refine ⟨fun _ _ => trivial, Or.inr (Or.inr ⟨rfl, hfd, ?_, hv.tty, hv.restored⟩)⟩
      have howned : owned μ (fields s w) = content μ (fields s w) (.fd .tty) + 0 := by
        rw [owned_of_idle hv.toIdle, content, if_neg (not_le.mpr hrescue), zero_add, add_zero]
      have hopen : 0 ≤ (fields s w).fd .tty := by
        rw [hv.tty]
        apply hfd
      rw [Accounts, howned] at haccounts
      have hclose := haccounts.close
      rw [if_pos hopen] at hclose
      apply hclose
    · apply Spec.bind (lift_keeps ask_fields)
      intro active
      apply Spec.bind
      · apply lift_keeps
        apply setCore_fields
        intro c
        exact ⟨rfl, rfl, rfl⟩
      intro _
      apply Spec.weaken (switchToRescue_spec hfd)
      rintro r t (hr | ⟨rfl, hshut⟩)
      · exact Or.inl hr
      · exact Or.inr (Or.inr ⟨rfl, hfd, hshut⟩)

/-! ### The outcome of `init_drm` -/

/-- Fields that were cleared say nothing is held. -/
theorem owned_of_cleared {v : Fields} (h : v.Cleared) :
  owned μ v = 0
  := by
  apply Finset.sum_eq_zero
  intro p _
  cases p with
  | fd f =>
      apply if_neg
      cases f with
      | tty => exact not_le.mpr h.noTty.1
      | rescueTty => exact not_le.mpr h.noTty.2
      | drm => exact not_le.mpr h.drm
  | buffer i => simp [content, (h.vacant i).2.2]
  | framebuffer i => simp [content, (h.vacant i).2.1]
  | dumb i => simp [content, (h.vacant i).1]

theorem owned_of_fresh {v : Fields} (h : v.Fresh) :
  owned μ v = 0
  := owned_of_cleared ⟨h.fd .drm, ⟨h.fd .tty, h.fd .rescueTty⟩, h.vacant⟩

theorem initDrm_spec (e : Env) {sizes : Fin 2 → ℤ} (hμ : μ (sizes 0) = μ (sizes 1)) :
  Spec (Books μ Fields.Fresh) (Traced.initDrm e sizes)
    (fun r t => r = 0 ∧ Books μ Fields.SetUp t ∨ r = -1 ∧ Outstanding μ 0 t.2.log) fun _ => True
  := by
  apply Spec.bind (stealVt_stolen e)
  intro stolen
  split
  · rename_i hstolen
    apply Spec.pure
    rintro t (⟨rfl, -⟩ | ⟨-, -, haccounts, hfresh⟩ | ⟨-, -, hshut⟩)
    · cases hstolen
    · rw [Accounts, owned_of_fresh hfresh] at haccounts
      exact Or.inr ⟨rfl, haccounts⟩
    · exact Or.inr ⟨rfl, hshut.settled⟩
  · rename_i hstolen
    refine (Spec.strengthen (takeCard_keeps hμ) ?_).weaken ?_
    · rintro t (⟨-, hbooks⟩ | ⟨rfl, -⟩ | ⟨rfl, -⟩)
      · exact hbooks
      · exact absurd (by decide) hstolen
      · exact absurd (by decide) hstolen
    · rintro r t ⟨haccounts, ⟨rfl, hsetUp⟩ | ⟨rfl, hcleared⟩⟩
      · exact Or.inl ⟨rfl, haccounts, hsetUp⟩
      · rw [Accounts, owned_of_cleared hcleared] at haccounts
        exact Or.inr ⟨rfl, haccounts⟩

/-! ### `cleanup_drm` acquires nothing -/

/-- A program that acquires nothing. -/
abbrev AcquiresNothing {α : Type} (m : Traced.Cmd α) : Prop :=
  Inert (fun t : Sys × Record => acquired t.2.log) m

theorem lift_acquiresNothing {α : Type} (m : Cmd α) :
  AcquiresNothing (lift m)
  := by
  intro P
  apply lift_record m fun w : Record => P (acquired w.log)

theorem enter_acquiresNothing {deals : Sys × Record → List (Deal Resource)}
    (h : ∀ t, acquired (deals t) = 0) :
  AcquiresNothing (Traced.enter deals)
  := by
  apply Inert.step
  intro t
  simp [acquired_append, h]

theorem commit_acquiresNothing {deals : Sys × Record → List (Deal Resource)} (m : Cmd Unit)
    (h : ∀ t, acquired (deals t) = 0) :
  AcquiresNothing (Traced.commit deals m)
  := by
  apply Inert.bind (enter_acquiresNothing h)
  intro _
  apply lift_acquiresNothing

theorem closeReset_acquiresNothing (f : Fd) (reset : Cmd Unit) :
  AcquiresNothing (Traced.closeReset f reset)
  := by
  apply Inert.bind (lift_acquiresNothing _)
  intro _
  apply commit_acquiresNothing
  intro t
  rfl

theorem act_acquiresNothing (f : Fd) :
  AcquiresNothing (Traced.act f)
  := by
  apply Inert.bind
  · apply enter_acquiresNothing
    intro t
    rfl
  · intro _
    apply lift_acquiresNothing

theorem actIf_acquiresNothing (f : Fd) (b : Bool) :
  AcquiresNothing (Traced.actIf f b)
  := by
  unfold Traced.actIf
  split
  · apply act_acquiresNothing
  · apply Inert.pure

theorem acquired_release_if {r : Resource} {b : Prop} [Decidable b] :
  acquired (if b then [.release r] else []) = 0
  := by
  split
  · rfl
  · rfl

theorem releaseBuffer_acquiresNothing (i : Fin 2) :
  AcquiresNothing (Traced.releaseBuffer i)
  := by
  apply Inert.bind
  · apply Inert.bind (lift_acquiresNothing _)
    intro d
    apply Inert.bind (lift_acquiresNothing _)
    intro _
    apply commit_acquiresNothing _ fun _ => acquired_release_if
  intro _
  apply Inert.bind
  · apply Inert.bind (lift_acquiresNothing _)
    intro d
    apply Inert.bind (actIf_acquiresNothing _ _)
    intro _
    apply commit_acquiresNothing _ fun _ => acquired_release_if
  intro _
  apply Inert.bind (lift_acquiresNothing _)
  intro d
  apply Inert.bind (actIf_acquiresNothing _ _)
  intro _
  apply commit_acquiresNothing _ fun _ => acquired_release_if

theorem releaseRescueTty_acquiresNothing :
  AcquiresNothing Traced.releaseRescueTty
  := by
  apply Inert.bind (lift_acquiresNothing _)
  intro fd
  split
  · apply Inert.bind (act_acquiresNothing _)
    intro _
    apply Inert.bind (act_acquiresNothing _)
    intro _
    apply Inert.bind
    · apply Inert.bind
      · apply Inert.bind
        · apply enter_acquiresNothing
          intro t
          rfl
        · intro _
          apply lift_acquiresNothing
      · intro got
        apply enter_acquiresNothing
        intro t
        split
        · rfl
        · rfl
    intro _
    apply Inert.bind (act_acquiresNothing _)
    intro _
    apply closeReset_acquiresNothing
  · apply Inert.pure

theorem releaseTty_acquiresNothing :
  AcquiresNothing Traced.releaseTty
  := by
  apply Inert.bind (lift_acquiresNothing _)
  intro fd
  split
  · apply Inert.bind (lift_acquiresNothing _)
    intro _
    apply Inert.bind
    · apply enter_acquiresNothing
      intro t
      rfl
    intro _
    apply Inert.bind (lift_acquiresNothing _)
    intro _
    apply Inert.bind (act_acquiresNothing _)
    intro _
    apply Inert.bind (lift_acquiresNothing _)
    intro _
    apply Inert.bind (lift_acquiresNothing _)
    intro _
    apply closeReset_acquiresNothing
  · apply Inert.pure

theorem cleanupDrm_acquiresNothing :
  AcquiresNothing Traced.cleanupDrm
  := by
  apply Inert.bind (lift_acquiresNothing _)
  intro d
  split
  · apply Inert.pure
  apply Inert.bind (actIf_acquiresNothing _ _)
  intro _
  apply Inert.bind (act_acquiresNothing _)
  intro _
  apply Inert.bind (releaseBuffer_acquiresNothing 0)
  intro _
  apply Inert.bind (releaseBuffer_acquiresNothing 1)
  intro _
  apply Inert.bind (closeReset_acquiresNothing _ _)
  intro _
  apply Inert.bind (lift_acquiresNothing _)
  intro restored
  split
  · apply Inert.pure
  apply Inert.bind releaseRescueTty_acquiresNothing
  intro _
  apply releaseTty_acquiresNothing

end Balance

/-! ### What is held, by name and by length -/

/-- Lengths that are not regarded. -/
def unmeasured : ℤ → ℤ := fun _ => 0

/-- A log of names: a mapping is known by its address. -/
abbrev names (log : List (Deal Resource)) : List (Deal Resource) := measuredLog unmeasured log

/-- What a log leaves held: by name, and with the lengths if both dumb buffers have the same
size. -/
structure Holds (sizes : Fin 2 → ℤ) (log : List (Deal Resource)) (M : Multiset Resource) : Prop where
  byName : held (names log) = some (M.map (Resource.measured unmeasured))
  byLength : sizes 0 = sizes 1 → held log = some M

/-- What the fields say is held in a state. -/
def holdings (t : Sys × Record) : Multiset Resource := owned id (fields t.1 t.2)

theorem measured_id :
  Resource.measured id = id
  := by
  funext r
  cases r <;> rfl

theorem measuredLog_id (log : List (Deal Resource)) :
  measuredLog id log = log
  := by
  have hid : Deal.map (id : Resource → Resource) = id := by
    funext deal
    cases deal <;> rfl
  rw [measuredLog, measured_id, hid, List.map_id]

theorem owned_measured (μ : ℤ → ℤ) (v : Fields) :
  (owned id v).map (Resource.measured μ) = owned μ v
  := by
  rw [owned, owned, ← Multiset.coe_mapAddMonoidHom, map_sum]
  apply Finset.sum_congr rfl
  intro p _
  rw [Multiset.coe_mapAddMonoidHom]
  cases p with
  | fd f =>
      simp only [content]
      split
      · rfl
      · rfl
  | buffer i =>
      simp only [content]
      split
      · rfl
      · rfl
  | framebuffer i =>
      simp only [content]
      split
      · rfl
      · rfl
  | dumb i =>
      simp only [content]
      split
      · rfl
      · rfl

/-- Where nothing was named by zero, nothing is lost. -/
theorem Outstanding.exact {μ : ℤ → ℤ} {M : Multiset Resource} {log : List (Deal Resource)}
    (h : Outstanding μ M log) (hnonNull : NonNull log) :
  held (measuredLog μ log) = some M
  := by
  obtain ⟨lost, hlost, hheld⟩ := h
  have hnone : lost = 0 := by
    apply Multiset.eq_zero_of_forall_notMem
    intro r hr
    have hmem : r ∈ acquired (measuredLog μ log) := by
      apply Multiset.mem_of_le (le_acquired_of_held hheld)
      apply Multiset.mem_add.mpr (Or.inr hr)
    rw [acquired_measuredLog] at hmem
    obtain ⟨r', hr', rfl⟩ := Multiset.mem_map.mp hmem
    apply hnonNull r' hr'
    apply Resource.isNull_measured.mp (hlost _ hr)
  rw [hheld, hnone, add_zero]

theorem holds_of_outstanding
    {sizes : Fin 2 → ℤ} {log : List (Deal Resource)} {M : Multiset Resource}
    (h : ∀ μ : ℤ → ℤ, μ (sizes 0) = μ (sizes 1) → Outstanding μ (M.map (Resource.measured μ)) log)
    (hnonNull : NonNull log) :
  Holds sizes log M
  := by
  constructor
  · apply (h unmeasured rfl).exact hnonNull
  · intro hsizes
    have hheld := (h id hsizes).exact hnonNull
    rw [measuredLog_id, measured_id, Multiset.map_id] at hheld
    apply hheld

/-! ### Balance -/

/-- A buffer is fully set up. -/
def Drm.BufferReady (d : Drm) (i : ℕ) : Prop :=
  d.handle i ≠ 0 ∧ d.fbId i ≠ 0 ∧ d.buffer i ≠ 0 ∧ d.buffer i ≠ -1

/-- Nothing of a buffer is held; its address may be `MAP_FAILED`. -/
def Drm.BufferSpare (d : Drm) (i : ℕ) : Prop :=
  d.handle i = 0 ∧ d.fbId i = 0 ∧ (d.buffer i = 0 ∨ d.buffer i = -1)

/-- Double buffering with both buffers, or single buffering with the first. -/
def Drm.Prepared (d : Drm) : Prop :=
  d.doubleBuffered = true ∧ d.BufferReady 0 ∧ d.BufferReady 1
    ∨ d.doubleBuffered = false ∧ d.BufferReady 0 ∧ d.BufferSpare 1

/-- `cleanup_drm` acquires nothing, releases exactly what is held, and does nothing the second
time. -/
structure CleansUp (sizes : Fin 2 → ℤ) (t : Sys × Record) : Prop where
  nothingHeld : Holds sizes (Traced.cleanupDrm.final t).2.log 0
  nothingNew : acquired (Traced.cleanupDrm.final t).2.log = acquired t.2.log
  releases : released (names (Traced.cleanupDrm.final t).2.log)
    = (holdings t).map (Resource.measured unmeasured) + released (names t.2.log)
  again : Traced.cleanupDrm.final (Traced.cleanupDrm.final t) = Traced.cleanupDrm.final t

/-- The state in which `init_drm` is called: nothing was opened, created or mapped yet. -/
structure Unopened (s : Sys) : Prop where
  fd : ∀ f : Fd, f.value s < 0
  restored : s.core.vtRestored = false
  handle : ∀ i : Fin 2, s.drm.handle i = 0
  fbId : ∀ i : Fin 2, s.drm.fbId i = 0
  buffer : ∀ i : Fin 2, s.drm.buffer i = 0

theorem unopened_iff {s : Sys} :
  Unopened s ↔ (fields s {}).Fresh
  := by
  constructor
  · intro h
    exact ⟨h.fd, h.restored, fun i => ⟨h.handle i, h.fbId i, h.buffer i⟩⟩
  · intro h
    exact ⟨h.fd, h.restored, fun i => (h.vacant i).1, fun i => (h.vacant i).2.1,
      fun i => (h.vacant i).2.2⟩

theorem Unopened.books {s : Sys} (h : Unopened s) (μ : ℤ → ℤ) :
  Books μ Fields.Fresh (s, {})
  := by
  have hfresh := unopened_iff.mp h
  refine ⟨⟨0, by simp, ?_⟩, hfresh⟩
  rw [owned_of_fresh hfresh]
  rfl

/-- A card that is not open is not given up. -/
theorem cleanupDrm_of_closed {t : Sys × Record} (h : t.1.drm.drmFd < 0) :
  Traced.cleanupDrm.final t = t
  := by
  have hread : (lift (Prog.read fun s : Sys => s.drm)).result t = t.1.drm := rfl
  rw [Traced.cleanupDrm, final_bind, hread, if_pos h]
  rfl

theorem holds_holdings {sizes : Fin 2 → ℤ} {t : Sys × Record}
    (h : ∀ μ : ℤ → ℤ, μ (sizes 0) = μ (sizes 1) → Books μ Fields.SetUp t)
    (hnonNull : NonNull t.2.log) :
  Holds sizes t.2.log (holdings t)
  := by
  apply holds_of_outstanding _ hnonNull
  intro μ hμ
  rw [holdings, owned_measured]
  apply (h μ hμ).1

theorem cleanupDrm_cleansUp {sizes : Fin 2 → ℤ} {t : Sys × Record}
    (h : ∀ μ : ℤ → ℤ, μ (sizes 0) = μ (sizes 1) → Books μ Fields.SetUp t)
    (hnonNull : NonNull t.2.log) :
  CleansUp sizes t
  := by
  have hcleared : ∀ μ : ℤ → ℤ, μ (sizes 0) = μ (sizes 1) →
      Books μ Fields.Cleared (Traced.cleanupDrm.final t) := by
    intro μ hμ
    obtain ⟨haccounts, hsetUp⟩ := h μ hμ
    exact (cleanupDrm_keeps t ⟨haccounts, hsetUp.drm, hsetUp.unreleased⟩).2
  have hsettled : ∀ μ : ℤ → ℤ, μ (sizes 0) = μ (sizes 1) →
      Outstanding μ (Multiset.map (Resource.measured μ) 0) (Traced.cleanupDrm.final t).2.log := by
    intro μ hμ
    obtain ⟨haccounts, hcleared⟩ := hcleared μ hμ
    rw [Accounts, owned_of_cleared hcleared] at haccounts
    apply haccounts
  have hnew : acquired (Traced.cleanupDrm.final t).2.log = acquired t.2.log :=
    (cleanupDrm_acquiresNothing (fun M => M = acquired t.2.log) t rfl).2
  have hnonNull' : NonNull (Traced.cleanupDrm.final t).2.log := by
    rw [NonNull, hnew]
    apply hnonNull
  have hholds := holds_of_outstanding hsettled hnonNull'
  refine ⟨hholds, hnew, ?_, ?_⟩
  · have hbefore := heldFrom_balance (holds_holdings h hnonNull).byName
    have hafter := heldFrom_balance hholds.byName
    rw [acquired_measuredLog] at hbefore hafter
    rw [hnew, hbefore, Multiset.map_zero, zero_add] at hafter
    exact hafter.symm
  · apply cleanupDrm_of_closed
    apply (hcleared unmeasured rfl).2.drm

/-- The state in which `main` calls `init_drm`. -/
def beforeInit (e : Env) (s : Sys) : Sys := (forceBacklight e).final ((arm e).final s)

theorem fields_beforeInit (e : Env) (s : Sys) :
  fields (beforeInit e s) = fields s
  := by
  have harm : fields ((arm e).final s) = fields s :=
    (arm_fields e (fun v => v = fields s) s rfl).2
  have hforce : fields (beforeInit e s) = fields ((arm e).final s) :=
    (forceBacklight_fields e (fun v => v = fields ((arm e).final s)) _ rfl).2
  rw [hforce, harm]

/-- Nothing is taken when `main` calls `init_drm`. -/
theorem unopened_beforeInit (e : Env) (sysrq : Int32) (brightness : Bytes → Int32)
    (answers : ℕ → ℤ) :
  Unopened (beforeInit e (boot sysrq brightness answers))
  := by
  rw [unopened_iff, fields_beforeInit]
  refine ⟨?_, rfl, fun i => ⟨rfl, rfl, rfl⟩⟩
  have hnone : (-1 : ℤ) < 0 := by decide
  intro f
  cases f with
  | tty => exact hnone
  | rescueTty => exact hnone
  | drm => exact hnone

/-- Whatever the kernel answers: if `init_drm` fails, everything it acquired was released
exactly once; if it succeeds, the buffers are prepared, exactly what the fields say is held,
and `cleanup_drm` releases that. -/
theorem initDrm_balanced (e : Env) (sizes : Fin 2 → ℤ) {s : Sys} (hs : Unopened s) {r : ℤ}
    {t : Sys × Record} (hr : (Traced.initDrm e sizes).result (s, {}) = r)
    (ht : (Traced.initDrm e sizes).final (s, {}) = t) (hnonNull : NonNull t.2.log) :
  r = -1 ∧ Holds sizes t.2.log 0
    ∨ r = 0 ∧ t.1.drm.Prepared ∧ Holds sizes t.2.log (holdings t) ∧ CleansUp sizes t
  := by
  have houtcome : ∀ μ : ℤ → ℤ, μ (sizes 0) = μ (sizes 1) →
      r = 0 ∧ Books μ Fields.SetUp t ∨ r = -1 ∧ Outstanding μ 0 t.2.log := by
    intro μ hμ
    rw [← hr, ← ht]
    exact (initDrm_spec e hμ (s, {}) (hs.books μ)).2
  obtain ⟨hzero, -, hsetUp⟩ | ⟨hfailed, -⟩ := houtcome unmeasured rfl
  · have hbooks : ∀ μ : ℤ → ℤ, μ (sizes 0) = μ (sizes 1) → Books μ Fields.SetUp t := by
      intro μ hμ
      obtain ⟨-, hbooks⟩ | ⟨hfailed, -⟩ := houtcome μ hμ
      · exact hbooks
      · rw [hzero] at hfailed
        cases hfailed
    refine Or.inr ⟨hzero, ?_, holds_holdings hbooks hnonNull, cleanupDrm_cleansUp hbooks hnonNull⟩
    obtain ⟨hdouble, hsecond⟩ | ⟨hdouble, hsecond⟩ := hsetUp.second
    · exact Or.inl ⟨hdouble, hsetUp.ready hnonNull, hsecond hnonNull⟩
    · exact Or.inr ⟨hdouble, hsetUp.ready hnonNull, hsecond⟩
  · refine Or.inl ⟨hfailed, ?_⟩
    apply holds_of_outstanding _ hnonNull
    intro μ hμ
    obtain ⟨hzero, -⟩ | ⟨-, hsettled⟩ := houtcome μ hμ
    · rw [hzero] at hfailed
      cases hfailed
    · apply hsettled

/-- On the laptop both buffers are set up, and what `init_drm` acquired is what is held. -/
theorem initDrm_balanced_laptop :
  ((Traced.initDrm laptop fun _ => 800).final (beforeInit laptop (laptopBoot 176), {})).1.drm.Prepared
    ∧ CleansUp (fun _ => 800)
        ((Traced.initDrm laptop fun _ => 800).final (beforeInit laptop (laptopBoot 176), {}))
  := by
  have hbalanced := initDrm_balanced laptop (fun _ => 800) (unopened_beforeInit laptop _ _ _)
    (s := beforeInit laptop (laptopBoot 176)) rfl rfl (by decide +kernel)
  obtain ⟨hfailed, -⟩ | ⟨-, hprepared, -, hcleans⟩ := hbalanced
  · exact absurd hfailed (by decide +kernel)
  · exact ⟨hprepared, hcleans⟩

end Vt

end LnxCad
