import LnxCad.Vt.Accounts

/-!
# The books of the take-over

What `steal_vt`, `init_drm`, `cleanup_drm` and `restore_vt` make of the fields, as long as
these account for what is held.  A card, a terminal or a buffer is opened only into a place
that is empty, and what is given up is taken out of its place.
-/

namespace LnxCad

namespace Vt

open Prog Custody

section Bookkeeping

variable {μ : ℤ → ℤ} {F H : Fields → Prop}

/-! ### Calls on a descriptor -/

theorem use_keeps {f : Fd} (hF : ∀ v, F v → 0 ≤ v.fd f) :
  Keeps μ F (Traced.enter fun t => [.use (.descriptor f (f.value t.1))]) fun _ => F
  := by
  apply enter_keeps
  intro s w hs deal hdeal
  rw [List.mem_singleton.mp hdeal]
  exact ⟨f, rfl, hF _ hs⟩

theorem ioctl_keeps {f : Fd} (hF : ∀ v, F v → 0 ≤ v.fd f) :
  Keeps μ F (Traced.ioctl f) fun _ => F
  := by
  apply Spec.bind (use_keeps hF)
  intro _
  apply lift_keeps ask_fields

theorem act_keeps {f : Fd} (hF : ∀ v, F v → 0 ≤ v.fd f) :
  Keeps μ F (Traced.act f) fun _ => F
  := by
  apply Spec.bind (use_keeps hF)
  intro _
  apply lift_keeps call_fields

theorem actIf_keeps {f : Fd} (b : Bool) (hF : ∀ v, F v → 0 ≤ v.fd f) :
  Keeps μ F (Traced.actIf f b) fun _ => F
  := by
  unfold Traced.actIf
  split
  · apply act_keeps hF
  · apply Keeps.pure
    intro v hv
    apply hv

theorem actIfOpen_keeps (f : Fd) :
  Keeps μ F (Traced.actIfOpen f) fun _ => F
  := by
  apply Spec.bind
  · apply enter_keeps
    intro s w hs deal hdeal
    split at hdeal
    · rename_i hopen
      rw [List.mem_singleton.mp hdeal]
      exact ⟨f, rfl, hopen⟩
    · cases hdeal
  · intro _
    apply lift_keeps call_fields

/-! ### Descriptors opened and closed -/

/-- The fields with another descriptor in one of them. -/
def Fields.setFd (v : Fields) (f : Fd) (fd : ℤ) : Fields :=
  { v with fd := Function.update v.fd f fd }

theorem setFd_fd_self (v : Fields) (f : Fd) (fd : ℤ) :
  (v.setFd f fd).fd f = fd
  := by
  simp [Fields.setFd]

theorem setFd_fd_of_ne (v : Fields) {f g : Fd} (fd : ℤ) (h : g ≠ f) :
  (v.setFd f fd).fd g = v.fd g
  := by
  simp [Fields.setFd, h]

theorem content_setFd_of_ne {v : Fields} {f : Fd} {fd : ℤ} {q : Place} (h : q ≠ .fd f) :
  content μ (v.setFd f fd) q = content μ v q
  := by
  cases q with
  | fd f' =>
      have hne : f' ≠ f := by
        rintro rfl
        apply h rfl
      rw [content, content, setFd_fd_of_ne v fd hne]
  | buffer i => rfl
  | framebuffer i => rfl
  | dumb i => rfl

theorem opened_keeps {f : Fd} {fd : ℤ} {g : Sys → Sys}
    (hg : ∀ s w, fields (g s) w = (fields s w).setFd f fd) (hclosed : ∀ v, F v → v.fd f < 0)
    (hF : ∀ v P, F v → (P → v.nonNull) → H ((v.setFd f fd).known P)) :
  Keeps μ F (Traced.opened f fd (Prog.modify g)) fun _ => H
  := by
  apply acquire_keeps (.fd f) (r := fun _ => .descriptor f fd) (b := 0 ≤ fd)
    (G := fun v => v.setFd f fd) (fun _ _ => rfl) hg (fun _ _ => rfl)
  · intro v _ q hq
    apply content_setFd_of_ne hq
  · intro v hv
    apply if_neg (not_le.mpr (hclosed v hv))
  · intro v _ hopen _
    rw [content, setFd_fd_self, if_pos hopen]
    rfl
  · intro v _ hnone
    rw [content, setFd_fd_self]
    apply if_neg hnone
  · intro v P hv hP
    apply hF v P hv (fun h => (hP h).1)

theorem closeReset_keeps {f : Fd} {g : Sys → Sys}
    (hg : ∀ s w, fields (g s) w = (fields s w).setFd f (-1)) (hopen : ∀ v, F v → 0 ≤ v.fd f)
    (hF : ∀ v, F v → H (v.setFd f (-1))) :
  Keeps μ F (Traced.closeReset f (Prog.modify g)) fun _ => H
  := by
  apply Spec.bind (lift_keeps call_fields)
  intro _
  apply release_keeps (.fd f) (r := fun v => .descriptor f (v.fd f)) (b := True)
    (G := fun v => v.setFd f (-1)) (fun _ _ => rfl) hg (fun _ _ => rfl)
  · intro v _ q hq
    apply content_setFd_of_ne hq
  · intro v hv
    rw [content, if_pos (hopen v hv)]
    rfl
  · intro v _
    rw [content, setFd_fd_self]
    rfl
  · intro v
    rfl
  · apply hF

theorem fields_setTty (s : Sys) (w : Record) (fd : ℤ) :
  fields { s with core.journal.ttyFd := fd } w = (fields s w).setFd .tty fd
  := by
  have hvalue : (fun f : Fd => f.value { s with core.journal.ttyFd := fd })
      = Function.update (fun f : Fd => f.value s) .tty fd := by
    funext f
    cases f with
    | tty => rfl
    | rescueTty => rfl
    | drm => rfl
  simp only [fields, Fields.setFd, hvalue]

theorem fields_setRescueTty (s : Sys) (w : Record) (fd : ℤ) :
  fields { s with core.journal.rescueTtyFd := fd } w = (fields s w).setFd .rescueTty fd
  := by
  have hvalue : (fun f : Fd => f.value { s with core.journal.rescueTtyFd := fd })
      = Function.update (fun f : Fd => f.value s) .rescueTty fd := by
    funext f
    cases f with
    | tty => rfl
    | rescueTty => rfl
    | drm => rfl
  simp only [fields, Fields.setFd, hvalue]

theorem fields_setDrm (s : Sys) (w : Record) (fd : ℤ) :
  fields { s with drm.drmFd := fd } w = (fields s w).setFd .drm fd
  := by
  have hvalue : (fun f : Fd => f.value { s with drm.drmFd := fd })
      = Function.update (fun f : Fd => f.value s) .drm fd := by
    funext f
    cases f with
    | tty => rfl
    | rescueTty => rfl
    | drm => rfl
  simp only [fields, Fields.setFd, hvalue]

/-! ### The ways back to the terminal -/

theorem read_keeps {α : Type} {f : Sys → α} {R : α → Fields → Prop}
    (h : ∀ s w, R (f s) (fields s w)) :
  Keeps μ F (lift (Prog.read f)) fun a v => F v ∧ R a v
  := by
  rintro ⟨s, w⟩ ⟨haccounts, hs⟩
  exact ⟨fun _ _ => trivial, haccounts, hs, h s w⟩

theorem resetAttributes_keeps (hF : ∀ v, F v → 0 ≤ v.fd .rescueTty) :
  Keeps μ F Traced.resetAttributes fun _ => F
  := by
  apply Spec.bind (ioctl_keeps hF)
  intro got
  apply enter_keeps
  intro s w hs deal hdeal
  split at hdeal
  · rw [List.mem_singleton.mp hdeal]
    exact ⟨.rescueTty, rfl, hF _ hs⟩
  · cases hdeal

/-- The rescue terminal is closed if it is open. -/
theorem releaseRescueTty_keeps
    (hF : ∀ v, F v → 0 ≤ v.fd .rescueTty → H (v.setFd .rescueTty (-1)))
    (hH : ∀ v, F v → v.fd .rescueTty < 0 → H v) :
  Keeps μ F Traced.releaseRescueTty fun _ => H
  := by
  apply Spec.bind (read_keeps (R := fun fd v => v.fd .rescueTty = fd) fun _ _ => rfl)
  intro fd
  split
  · rename_i hfd
    have hopen : ∀ v, F v ∧ v.fd .rescueTty = fd → 0 ≤ v.fd .rescueTty := by
      rintro v ⟨-, rfl⟩
      apply hfd
    apply Spec.bind (act_keeps hopen)
    intro _
    apply Spec.bind (act_keeps hopen)
    intro _
    apply Spec.bind (resetAttributes_keeps hopen)
    intro _
    apply Spec.bind (act_keeps hopen)
    intro _
    apply closeReset_keeps (fun s w => fields_setRescueTty s w (-1)) hopen
    intro v hv
    apply hF v hv.1 (hopen v hv)
  · rename_i hfd
    apply Keeps.pure
    rintro v ⟨hv, rfl⟩
    apply hH v hv (not_le.mp hfd)

/-- The original terminal is closed if it is open. -/
theorem releaseTty_keeps
    (hF : ∀ v, F v → 0 ≤ v.fd .tty → H (v.setFd .tty (-1)))
    (hH : ∀ v, F v → v.fd .tty < 0 → H v) :
  Keeps μ F Traced.releaseTty fun _ => H
  := by
  apply Spec.bind (read_keeps (R := fun fd v => v.fd .tty = fd) fun _ _ => rfl)
  intro fd
  split
  · rename_i hfd
    have hopen : ∀ v, F v ∧ v.fd .tty = fd → 0 ≤ v.fd .tty := by
      rintro v ⟨-, rfl⟩
      apply hfd
    apply Spec.bind (lift_keeps (klogctl_fields 7))
    intro _
    apply Spec.bind (use_keeps hopen)
    intro _
    apply Spec.bind (lift_keeps (vtActivate_fields _))
    intro _
    apply Spec.bind (act_keeps hopen)
    intro _
    apply Spec.bind (lift_keeps restoreBacklight_fields)
    intro _
    apply Spec.bind (lift_keeps restoreSysrq_fields)
    intro _
    apply closeReset_keeps (fun s w => fields_setTty s w (-1)) hopen
    intro v hv
    apply hF v hv.1 (hopen v hv)
  · rename_i hfd
    apply Keeps.pure
    rintro v ⟨hv, rfl⟩
    apply hH v hv (not_le.mp hfd)

/-- Neither terminal is open. -/
def Fields.NoTty (v : Fields) : Prop := v.fd .tty < 0 ∧ v.fd .rescueTty < 0

/-- Facts that do not depend on the terminals, nor on whether they were released. -/
structure Apart (F : Fields → Prop) : Prop where
  setFd : ∀ v f fd, f ≠ .drm → F v → F (v.setFd f fd)
  restored : ∀ v, F v → F { v with vtRestored := true }

/-- Terminals that were released are not open. -/
def Fields.Unreleased (v : Fields) : Prop := v.vtRestored = true → v.NoTty

theorem markRestored_keeps (hF : Apart F) :
  Keeps μ (fun v => F v ∧ v.Unreleased)
    (lift (Prog.step fun s : Sys => (s.core.vtRestored, { s with core.vtRestored := true })))
    fun restored v => F v ∧ (restored = true → v.NoTty)
  := by
  rintro ⟨s, w⟩ ⟨haccounts, hs, hunreleased⟩
  refine ⟨fun _ _ => trivial, haccounts, hF.restored _ hs, ?_⟩
  intro hrestored
  apply hunreleased hrestored

/-- Whoever calls it, after `restore_vt` no terminal is open. -/
theorem restoreVt_keeps (hF : Apart F) :
  Keeps μ (fun v => F v ∧ v.Unreleased) Traced.restoreVt fun _ v => F v ∧ v.NoTty
  := by
  apply Spec.bind (markRestored_keeps hF)
  intro restored
  split
  · rename_i hrestored
    apply Keeps.pure
    intro v hv
    exact ⟨hv.1, hv.2 hrestored⟩
  · refine Spec.bind (releaseRescueTty_keeps (H := fun v => F v ∧ v.fd .rescueTty < 0) ?_ ?_) ?_
    · intro v hv _
      refine ⟨hF.setFd v _ _ (by decide) hv.1, ?_⟩
      rw [setFd_fd_self]
      decide
    · intro v hv hclosed
      exact ⟨hv.1, hclosed⟩
    · intro _
      apply releaseTty_keeps
      · intro v hv _
        refine ⟨hF.setFd v _ _ (by decide) hv.1, ?_, ?_⟩
        · rw [setFd_fd_self]
          decide
        · rw [setFd_fd_of_ne v _ (by decide)]
          apply hv.2
      · intro v hv hclosed
        exact ⟨hv.1, hclosed, hv.2⟩

/-! ### The search for a card -/

theorem closeDrm_keeps (hopen : ∀ v, F v → 0 ≤ v.fd .drm)
    (hF : ∀ v, F v → H (v.setFd .drm (-1))) :
  Keeps μ F Traced.closeDrm fun _ => H
  := by
  apply closeReset_keeps (fun s w => fields_setDrm s w (-1)) hopen hF

theorem pickCrtc_keeps (countCrtcs : ℤ) (hopen : ∀ v, F v → 0 ≤ v.fd .drm) :
  Keeps μ F (Traced.pickCrtc countCrtcs) fun _ => F
  := by
  have hfirst : Keeps μ F (lift (firstCrtc countCrtcs)) fun _ => F :=
    lift_keeps (firstCrtc_fields countCrtcs)
  apply checked_keeps (lift_keeps ask_fields) hfirst
  intro _
  apply checked_keeps (ioctl_keeps hopen) hfirst
  intro _
  apply checked_keeps (lift_keeps ask_fields) hfirst
  intro crtc
  apply Spec.bind
  · apply lift_keeps
    apply setDrm_fields
    intro d
    exact ⟨rfl, rfl, rfl, rfl, rfl⟩
  · intro _
    apply Keeps.pure
    intro v hv
    apply hv

theorem tryConnector_keeps (countCrtcs : ℤ) (hopen : ∀ v, F v → 0 ≤ v.fd .drm) :
  Keeps μ F (Traced.tryConnector countCrtcs) fun _ => F
  := by
  have hfalse : Keeps μ F (pure false) fun _ => F := Keeps.pure fun _ hv => hv
  apply checked_keeps (ioctl_keeps hopen) hfalse
  intro _
  apply checked_keeps (lift_keeps ask_fields) hfalse
  intro _
  apply checked_keeps (lift_keeps ask_fields) hfalse
  intro _
  apply checked_keeps (lift_keeps ask_fields) hfalse
  intro _
  apply checked_keeps (ioctl_keeps hopen) hfalse
  intro _
  apply pickCrtc_keeps _ hopen

theorem findConnector_keeps (countCrtcs : ℤ) (n : ℕ) (hopen : ∀ v, F v → 0 ≤ v.fd .drm) :
  Keeps μ F (Traced.findConnector countCrtcs n) fun _ => F
  := by
  induction n with
  | zero =>
      apply Keeps.pure
      intro v hv
      apply hv
  | succ n ih =>
      apply Spec.bind (tryConnector_keeps countCrtcs hopen)
      intro found
      split
      · apply Keeps.pure
        intro v hv
        apply hv
      · apply ih

/-- Facts that do not depend on the card, nor on what is known of the names. -/
structure Cardless (F : Fields → Prop) : Prop where
  setFd : ∀ v fd, F v → F (v.setFd .drm fd)
  known : ∀ v P, F v → F (v.known P)

/-- A card is open exactly if one was found. -/
def Fields.Found (found : Bool) (v : Fields) : Prop := if found then 0 ≤ v.fd .drm else v.fd .drm < 0

theorem dropCard_keeps (hF : Cardless F) :
  Keeps μ (fun v => F v ∧ 0 ≤ v.fd .drm) Traced.dropCard fun found v => F v ∧ v.Found found
  := by
  refine Spec.bind (closeDrm_keeps (H := fun v => F v ∧ v.Found false) ?_ ?_) ?_
  · intro v hv
    apply hv.2
  · intro v hv
    refine ⟨hF.setFd v _ hv.1, ?_⟩
    have hfd := setFd_fd_self v .drm (-1)
    simp [Fields.Found, hfd]
  · intro _
    apply Keeps.pure
    intro v hv
    apply hv

theorem selectCard_keeps (countConnectors countCrtcs : ℤ) (hF : Cardless F) :
  Keeps μ (fun v => F v ∧ 0 ≤ v.fd .drm) (Traced.selectCard countConnectors countCrtcs)
    fun found v => F v ∧ v.Found found
  := by
  have hopen : ∀ v, F v ∧ 0 ≤ v.fd .drm → 0 ≤ v.fd .drm := fun _ hv => hv.2
  apply Spec.bind (findConnector_keeps _ _ hopen)
  intro found
  split
  · apply Spec.bind (act_keeps hopen)
    intro _
    apply Keeps.pure
    intro v hv
    simpa [Fields.Found] using hv
  · apply dropCard_keeps hF

theorem tryCard_keeps (hF : Cardless F) :
  Keeps μ (fun v => F v ∧ v.fd .drm < 0) Traced.tryCard fun found v => F v ∧ v.Found found
  := by
  have hopen : ∀ v, F v ∧ 0 ≤ v.fd .drm → 0 ≤ v.fd .drm := fun _ hv => hv.2
  apply Spec.bind (lift_keeps ask_fields)
  intro fd
  refine Spec.bind (opened_keeps (H := fun v => F v ∧ v.fd .drm = fd)
    (fun s w => fields_setDrm s w fd) ?_ ?_) ?_
  · intro v hv
    apply hv.2
  · intro v P hv _
    exact ⟨hF.known _ P (hF.setFd v fd hv.1), setFd_fd_self v .drm fd⟩
  intro _
  split
  · rename_i hfd
    apply Keeps.pure
    rintro v ⟨hv, rfl⟩
    simpa [Fields.Found] using ⟨hv, hfd⟩
  · rename_i hfd
    apply Keeps.strengthen (F := fun v => F v ∧ 0 ≤ v.fd .drm)
    · apply checked_keeps (ioctl_keeps hopen) (dropCard_keeps hF)
      intro _
      apply checked_keeps (lift_keeps ask_fields) (dropCard_keeps hF)
      intro _
      apply checked_keeps (ioctl_keeps hopen) (dropCard_keeps hF)
      intro _
      apply checked_keeps (lift_keeps ask_fields) (dropCard_keeps hF)
      intro countConnectors
      apply checked_keeps (lift_keeps ask_fields) (dropCard_keeps hF)
      intro _
      apply checked_keeps (ioctl_keeps hopen) (dropCard_keeps hF)
      intro _
      apply Spec.bind (lift_keeps ask_fields)
      intro countCrtcs
      apply selectCard_keeps _ _ hF
    · rintro v ⟨hv, rfl⟩
      exact ⟨hv, not_lt.mp hfd⟩

theorem findCard_keeps (n : ℕ) (hF : Cardless F) :
  Keeps μ (fun v => F v ∧ v.fd .drm < 0) (Traced.findCard n) fun found v => F v ∧ v.Found found
  := by
  induction n with
  | zero =>
      apply Keeps.pure
      intro v hv
      simpa [Fields.Found] using hv
  | succ n ih =>
      apply Spec.bind (tryCard_keeps hF)
      intro found
      cases found with
      | true =>
          apply Keeps.pure
          intro v hv
          apply hv
      | false =>
          apply Keeps.strengthen ih
          intro v hv
          simpa [Fields.Found] using hv

/-! ### The buffers -/

/-- The fields with another mapping, framebuffer or handle for one of the buffers. -/
def Fields.setBuffer (v : Fields) (i : Fin 2) (address : ℤ) : Fields :=
  { v with buffer := Function.update v.buffer i address }

/-- The fields with another framebuffer for one of the buffers. -/
def Fields.setFb (v : Fields) (i : Fin 2) (id : ℤ) : Fields :=
  { v with fbId := Function.update v.fbId i id }

/-- The fields with another handle for one of the buffers. -/
def Fields.setHandle (v : Fields) (i : Fin 2) (handle : ℤ) : Fields :=
  { v with handle := Function.update v.handle i handle }

theorem content_setBuffer_of_ne {v : Fields} {i : Fin 2} {address : ℤ} {q : Place}
    (h : q ≠ .buffer i) :
  content μ (v.setBuffer i address) q = content μ v q
  := by
  cases q with
  | fd f => rfl
  | buffer j =>
      have hne : j ≠ i := by
        rintro rfl
        apply h rfl
      simp [content, Fields.setBuffer, hne]
  | framebuffer j => rfl
  | dumb j => rfl

theorem content_setFb_of_ne {v : Fields} {i : Fin 2} {id : ℤ} {q : Place}
    (h : q ≠ .framebuffer i) :
  content μ (v.setFb i id) q = content μ v q
  := by
  cases q with
  | fd f => rfl
  | buffer j => rfl
  | framebuffer j =>
      have hne : j ≠ i := by
        rintro rfl
        apply h rfl
      simp [content, Fields.setFb, hne]
  | dumb j => rfl

theorem content_setHandle_of_ne {v : Fields} {i : Fin 2} {handle : ℤ} {q : Place}
    (h : q ≠ .dumb i) :
  content μ (v.setHandle i handle) q = content μ v q
  := by
  cases q with
  | fd f => rfl
  | buffer j => rfl
  | framebuffer j => rfl
  | dumb j =>
      have hne : j ≠ i := by
        rintro rfl
        apply h rfl
      simp [content, Fields.setHandle, hne]

theorem fields_setBuffer (s : Sys) (w : Record) (i : Fin 2) (address : ℤ) :
  fields { s with drm.buffer := Function.update s.drm.buffer i address } w
    = (fields s w).setBuffer i address
  := by
  have hbuffer : (fun j : Fin 2 => Function.update s.drm.buffer i address j)
      = Function.update (fun j : Fin 2 => s.drm.buffer j) i address :=
    Function.update_comp_eq_of_injective s.drm.buffer Fin.val_injective i address
  simp only [fields, Fields.setBuffer, hbuffer]
  rfl

theorem fields_setFb (s : Sys) (w : Record) (i : Fin 2) (id : ℤ) :
  fields { s with drm.fbId := Function.update s.drm.fbId i id } w = (fields s w).setFb i id
  := by
  have hfb : (fun j : Fin 2 => Function.update s.drm.fbId i id j)
      = Function.update (fun j : Fin 2 => s.drm.fbId j) i id :=
    Function.update_comp_eq_of_injective s.drm.fbId Fin.val_injective i id
  simp only [fields, Fields.setFb, hfb]
  rfl

theorem fields_setHandle (s : Sys) (w : Record) (i : Fin 2) (handle : ℤ) :
  fields { s with drm.handle := Function.update s.drm.handle i handle } w
    = (fields s w).setHandle i handle
  := by
  have hhandle : (fun j : Fin 2 => Function.update s.drm.handle i handle j)
      = Function.update (fun j : Fin 2 => s.drm.handle j) i handle :=
    Function.update_comp_eq_of_injective s.drm.handle Fin.val_injective i handle
  simp only [fields, Fields.setHandle, hhandle]
  rfl

theorem unmap_keeps (i : Fin 2) (hF : ∀ v, F v → H (v.setBuffer i 0)) :
  Keeps μ F (Traced.unmap i) fun _ => H
  := by
  apply Spec.bind (read_keeps (R := fun d v => v.buffer i = d.buffer i) fun _ _ => rfl)
  intro d
  apply Spec.bind (lift_keeps (callIf_fields _))
  intro _
  apply release_keeps (.buffer i) (r := fun v => .mapping (d.buffer i) v.size)
    (b := d.buffer i ≠ 0 ∧ d.buffer i ≠ -1) (G := fun v => v.setBuffer i 0) (fun _ _ => rfl)
    (fun s w => fields_setBuffer s w i 0) (fun _ _ => rfl)
  · intro v _ q hq
    apply content_setBuffer_of_ne hq
  · intro v hv
    rw [content, hv.2]
    rfl
  · intro v _
    simp [content, Fields.setBuffer]
  · intro v
    rfl
  · intro v hv
    apply hF v hv.1

theorem rmFb_keeps (i : Fin 2) (hopen : ∀ v, F v → 0 ≤ v.fd .drm)
    (hF : ∀ v, F v → H (v.setFb i 0)) :
  Keeps μ F (Traced.rmFb i) fun _ => H
  := by
  apply Spec.bind (read_keeps (R := fun d v => v.fbId i = d.fbId i) fun _ _ => rfl)
  intro d
  refine Spec.bind (actIf_keeps _ fun v hv => hopen v hv.1) ?_
  intro _
  apply release_keeps (.framebuffer i) (r := fun _ => .framebuffer (d.fbId i))
    (b := d.fbId i ≠ 0) (G := fun v => v.setFb i 0) (fun _ _ => rfl)
    (fun s w => fields_setFb s w i 0) (fun _ _ => rfl)
  · intro v _ q hq
    apply content_setFb_of_ne hq
  · intro v hv
    rw [content, hv.2]
    rfl
  · intro v _
    simp [content, Fields.setFb]
  · intro v
    rfl
  · intro v hv
    apply hF v hv.1

theorem destroyDumb_keeps (i : Fin 2) (hopen : ∀ v, F v → 0 ≤ v.fd .drm)
    (hF : ∀ v, F v → H (v.setHandle i 0)) :
  Keeps μ F (Traced.destroyDumb i) fun _ => H
  := by
  apply Spec.bind (read_keeps (R := fun d v => v.handle i = d.handle i) fun _ _ => rfl)
  intro d
  refine Spec.bind (actIf_keeps _ fun v hv => hopen v hv.1) ?_
  intro _
  apply release_keeps (.dumb i) (r := fun _ => .dumb (d.handle i))
    (b := d.handle i ≠ 0) (G := fun v => v.setHandle i 0) (fun _ _ => rfl)
    (fun s w => fields_setHandle s w i 0) (fun _ _ => rfl)
  · intro v _ q hq
    apply content_setHandle_of_ne hq
  · intro v hv
    rw [content, hv.2]
    rfl
  · intro v _
    simp [content, Fields.setHandle]
  · intro v
    rfl
  · intro v hv
    apply hF v hv.1

theorem releaseBuffer_keeps (i : Fin 2) (hopen : ∀ v, F v → 0 ≤ v.fd .drm)
    (hF : ∀ v, F v → H (((v.setBuffer i 0).setFb i 0).setHandle i 0)) :
  Keeps μ F (Traced.releaseBuffer i) fun _ => H
  := by
  apply Spec.bind (unmap_keeps i (H := fun v => ∃ u, F u ∧ v = u.setBuffer i 0)
    fun v hv => ⟨v, hv, rfl⟩)
  intro _
  refine Spec.bind (rmFb_keeps i (H := fun v => ∃ u, F u ∧ v = (u.setBuffer i 0).setFb i 0)
    ?_ ?_) ?_
  · rintro v ⟨u, hu, rfl⟩
    apply hopen u hu
  · rintro v ⟨u, hu, rfl⟩
    exact ⟨u, hu, rfl⟩
  · intro _
    apply destroyDumb_keeps i
    · rintro v ⟨u, hu, rfl⟩
      apply hopen u hu
    · rintro v ⟨u, hu, rfl⟩
      apply hF u hu

/-- Nothing was put in the places of a buffer. -/
def Fields.Vacant (v : Fields) (i : Fin 2) : Prop :=
  v.handle i = 0 ∧ v.fbId i = 0 ∧ v.buffer i = 0

/-- Everything was given up. -/
structure Fields.Cleared (v : Fields) : Prop where
  drm : v.fd .drm < 0
  noTty : v.NoTty
  vacant : ∀ i, v.Vacant i

theorem apart_closed :
  Apart fun v => v.fd .drm < 0 ∧ ∀ i, v.Vacant i
  := by
  constructor
  · intro v f fd hf hv
    refine ⟨?_, hv.2⟩
    rw [setFd_fd_of_ne v fd hf.symm]
    apply hv.1
  · intro v hv
    apply hv

/-- An open card is given up with everything of it, and then the terminals. -/
theorem cleanupDrm_keeps :
  Keeps μ (fun v => 0 ≤ v.fd .drm ∧ v.Unreleased) Traced.cleanupDrm fun _ => Fields.Cleared
  := by
  apply Spec.bind (read_keeps (R := fun d v => v.fd .drm = d.drmFd) fun _ _ => rfl)
  intro d
  split
  · rename_i hfd
    apply Keeps.pure
    intro v hv
    have hneg := hv.2 ▸ hfd
    exact absurd hv.1.1 (not_le.mpr hneg)
  · apply Keeps.strengthen (F := fun v => 0 ≤ v.fd .drm ∧ v.Unreleased) _ fun v hv => hv.1
    apply Spec.bind (actIf_keeps _ fun v hv => hv.1)
    intro _
    apply Spec.bind (act_keeps fun v hv => hv.1)
    intro _
    refine Spec.bind (releaseBuffer_keeps 0
      (H := fun v => 0 ≤ v.fd .drm ∧ v.Unreleased ∧ v.Vacant 0) (fun v hv => hv.1) ?_) ?_
    · intro v hv
      refine ⟨hv.1, hv.2, ?_⟩
      simp [Fields.Vacant, Fields.setBuffer, Fields.setFb, Fields.setHandle]
    intro _
    refine Spec.bind (releaseBuffer_keeps 1
      (H := fun v => 0 ≤ v.fd .drm ∧ v.Unreleased ∧ ∀ i, v.Vacant i) (fun v hv => hv.1) ?_) ?_
    · intro v hv
      refine ⟨hv.1, hv.2.1, ?_⟩
      obtain ⟨hhandle, hfb, hbuffer⟩ := hv.2.2
      intro i
      fin_cases i
      · simp [Fields.Vacant, Fields.setBuffer, Fields.setFb, Fields.setHandle, hhandle, hfb, hbuffer]
      · simp [Fields.Vacant, Fields.setBuffer, Fields.setFb, Fields.setHandle]
    intro _
    refine Spec.bind (closeDrm_keeps
      (H := fun v => (v.fd .drm < 0 ∧ ∀ i, v.Vacant i) ∧ v.Unreleased) (fun v hv => hv.1) ?_) ?_
    · intro v hv
      refine ⟨⟨?_, hv.2.2⟩, ?_⟩
      · rw [setFd_fd_self]
        decide
      · intro hrestored
        obtain ⟨htty, hrescue⟩ := hv.2.1 hrestored
        refine ⟨?_, ?_⟩
        · rw [setFd_fd_of_ne v _ (by decide)]
          apply htty
        · rw [setFd_fd_of_ne v _ (by decide)]
          apply hrescue
    intro _
    apply Keeps.weaken (restoreVt_keeps apart_closed)
    intro _ v hv
    exact ⟨hv.1.1, hv.2, hv.1.2⟩

/-- Nothing of a buffer is held. -/
def Fields.Spare (v : Fields) (i : Fin 2) : Prop :=
  v.handle i = 0 ∧ v.fbId i = 0 ∧ (v.buffer i = 0 ∨ v.buffer i = -1)

/-- A buffer is set up, provided that the kernel named nothing by zero. -/
def Fields.Ready (v : Fields) (i : Fin 2) : Prop :=
  v.nonNull → v.handle i ≠ 0 ∧ v.fbId i ≠ 0 ∧ v.buffer i ≠ 0 ∧ v.buffer i ≠ -1

/-- Without the first buffer everything is given up. -/
theorem bufferFailed_zero_keeps :
  Keeps μ (fun v => 0 ≤ v.fd .drm ∧ v.Unreleased) (Traced.bufferFailed 0)
    fun ok v => ok = false ∧ v.Cleared
  := by
  apply Spec.bind cleanupDrm_keeps
  intro _
  apply Keeps.pure
  intro v hv
  exact ⟨rfl, hv⟩

/-- What is known once the first buffer is set up, and while the second one is. -/
structure Fields.First (v : Fields) : Prop where
  drm : 0 ≤ v.fd .drm
  unreleased : v.Unreleased
  ready : v.Ready 0

/-- The buffers are set up, both or the first only. -/
structure Fields.SetUp (v : Fields) : Prop extends v.First where
  second : v.doubleBuffered = true ∧ v.Ready 1 ∨ v.doubleBuffered = false ∧ v.Spare 1

theorem setDoubleBuffered_keeps (b : Bool) (hF : ∀ v, F v → H { v with doubleBuffered := b }) :
  Keeps μ F (lift (setDrm fun d => { d with doubleBuffered := b })) fun _ => H
  := by
  rintro ⟨s, w⟩ ⟨haccounts, hs⟩
  exact ⟨fun _ _ => trivial, haccounts, hF _ hs⟩

/-- Without the second buffer there is single buffering. -/
theorem bufferFailed_one_keeps :
  Keeps μ (fun v => v.First ∧ (v.buffer 1 = 0 ∨ v.buffer 1 = -1)) (Traced.bufferFailed 1)
    fun ok v => ok = true ∧ v.SetUp
  := by
  refine Spec.bind (rmFb_keeps 1
    (H := fun v => v.First ∧ (v.buffer 1 = 0 ∨ v.buffer 1 = -1) ∧ v.fbId 1 = 0)
    (fun v hv => hv.1.drm) ?_) ?_
  · intro v hv
    obtain ⟨⟨hdrm, hunreleased, hready⟩, hbuffer⟩ := hv
    refine ⟨⟨hdrm, hunreleased, ?_⟩, hbuffer, ?_⟩
    · simpa [Fields.Ready, Fields.setFb] using hready
    · simp [Fields.setFb]
  intro _
  refine Spec.bind (destroyDumb_keeps 1 (H := fun v => v.First ∧ v.Spare 1)
    (fun v hv => hv.1.drm) ?_) ?_
  · intro v hv
    obtain ⟨⟨hdrm, hunreleased, hready⟩, hbuffer, hfb⟩ := hv
    refine ⟨⟨hdrm, hunreleased, ?_⟩, ?_, hfb, hbuffer⟩
    · simpa [Fields.Ready, Fields.setHandle] using hready
    · simp [Fields.setHandle]
  intro _
  refine Spec.bind (setDoubleBuffered_keeps false (H := Fields.SetUp) ?_) ?_
  · intro v hv
    obtain ⟨⟨hdrm, hunreleased, hready⟩, hspare⟩ := hv
    exact ⟨⟨hdrm, hunreleased, hready⟩, Or.inr ⟨rfl, hspare⟩⟩
  · intro _
    apply Keeps.pure
    intro v hv
    exact ⟨rfl, hv⟩

/-- Facts that do not depend on one of the buffers, and hold no less when less is known of the
names. -/
structure Around (i : Fin 2) (F : Fields → Prop) : Prop where
  setHandle : ∀ v handle, F v → F (v.setHandle i handle)
  setFb : ∀ v id, F v → F (v.setFb i id)
  setBuffer : ∀ v address, F v → F (v.setBuffer i address)
  size : ∀ v size, F v → F { v with size := size }
  known : ∀ v P, F v → (P → v.nonNull) → F (v.known P)

/-- `drm.size` is written; mappings must not change their length by it. -/
theorem setSize_keeps {size : ℤ}
    (hsize : ∀ v, F v → ∀ i, v.buffer i = 0 ∨ v.buffer i = -1 ∨ μ v.size = μ size)
    (hF : ∀ v, F v → H { v with size := size }) :
  Keeps μ F (note fun t => { t.2 with size := size }) fun _ => H
  := by
  rintro ⟨s, w⟩ ⟨⟨lost, hlost, hheld⟩, hs⟩
  have howned : owned μ { fields s w with size := size } = owned μ (fields s w) := by
    apply Finset.sum_congr rfl
    intro p _
    cases p with
    | fd f => rfl
    | buffer i =>
        obtain hnone | hnone | heq := hsize _ hs i
        · simp [content, hnone]
        · simp [content, hnone]
        · simp [content, heq]
    | framebuffer i => rfl
    | dumb i => rfl
  refine ⟨fun _ _ => trivial, ⟨lost, hlost, ?_⟩, hF _ hs⟩
  refine hheld.trans ?_
  rw [← howned]
  rfl

section Setup

variable {S K : Fields → Prop} {sizes : Fin 2 → ℤ} {i : Fin 2} {Q : Bool → Fields → Prop}

theorem createDumb_keeps (hS : Around i S) (handle : ℤ) :
  Keeps μ (fun v => S v ∧ v.Vacant i ∧ v.size = sizes i)
    (Traced.commit (fun _ => [.acquire (.dumb handle)])
      (setDrm fun d => { d with handle := Function.update d.handle i handle }))
    fun _ v => S v ∧ v.fbId i = 0 ∧ v.buffer i = 0 ∧ v.size = sizes i
      ∧ (v.nonNull → v.handle i ≠ 0)
  := by
  apply acquire_keeps (.dumb i) (r := fun _ => .dumb handle) (b := True)
    (G := fun v => v.setHandle i handle) (fun _ _ => rfl)
    (fun s w => fields_setHandle s w i handle) (fun _ _ => rfl)
  · intro v _ q hq
    apply content_setHandle_of_ne hq
  · intro v hv
    simp [content, hv.2.1.1]
  · intro v _ _ hname
    have hne : handle ≠ 0 := hname
    simp [content, Fields.setHandle, hne, Resource.measured]
  · intro v _ hnull
    have heq : handle = 0 := hnull trivial
    simp [content, Fields.setHandle, heq]
  · intro v P hv hP
    refine ⟨hS.known _ P (hS.setHandle v handle hv.1) (fun h => (hP h).1), hv.2.1.2.1,
      hv.2.1.2.2, hv.2.2, ?_⟩
    intro h
    simpa [Fields.known, Fields.setHandle, Resource.IsNull] using (hP h).2 trivial

theorem addFb_keeps (hS : Around i S) (id : ℤ) :
  Keeps μ
    (fun v => S v ∧ v.fbId i = 0 ∧ v.buffer i = 0 ∧ v.size = sizes i
      ∧ (v.nonNull → v.handle i ≠ 0))
    (Traced.commit (fun _ => [.acquire (.framebuffer id)])
      (setDrm fun d => { d with fbId := Function.update d.fbId i id }))
    fun _ v => S v ∧ v.buffer i = 0 ∧ v.size = sizes i
      ∧ (v.nonNull → v.handle i ≠ 0 ∧ v.fbId i ≠ 0)
  := by
  apply acquire_keeps (.framebuffer i) (r := fun _ => .framebuffer id) (b := True)
    (G := fun v => v.setFb i id) (fun _ _ => rfl) (fun s w => fields_setFb s w i id)
    (fun _ _ => rfl)
  · intro v _ q hq
    apply content_setFb_of_ne hq
  · intro v hv
    simp [content, hv.2.1]
  · intro v _ _ hname
    have hne : id ≠ 0 := hname
    simp [content, Fields.setFb, hne, Resource.measured]
  · intro v _ hnull
    have heq : id = 0 := hnull trivial
    simp [content, Fields.setFb, heq]
  · intro v P hv hP
    refine ⟨hS.known _ P (hS.setFb v id hv.1) (fun h => (hP h).1), hv.2.2.1, hv.2.2.2.1, ?_⟩
    intro h
    refine ⟨hv.2.2.2.2 (hP h).1, ?_⟩
    simpa [Fields.known, Fields.setFb, Resource.IsNull] using (hP h).2 trivial

theorem mapBuffer_keeps (hS : Around i S) (address : ℤ) :
  Keeps μ
    (fun v => S v ∧ v.buffer i = 0 ∧ v.size = sizes i
      ∧ (v.nonNull → v.handle i ≠ 0 ∧ v.fbId i ≠ 0))
    (Traced.commit
      (fun t => if address ≠ -1 then [.acquire (.mapping address t.2.size)] else [])
      (setDrm fun d => { d with buffer := Function.update d.buffer i address }))
    fun _ v => S v ∧ v.buffer i = address ∧ v.size = sizes i
      ∧ (v.nonNull → v.handle i ≠ 0 ∧ v.fbId i ≠ 0 ∧ (address ≠ -1 → address ≠ 0))
  := by
  apply acquire_keeps (.buffer i) (r := fun v => .mapping address v.size) (b := address ≠ -1)
    (G := fun v => v.setBuffer i address) (fun _ _ => rfl)
    (fun s w => fields_setBuffer s w i address) (fun _ _ => rfl)
  · intro v _ q hq
    apply content_setBuffer_of_ne hq
  · intro v hv
    simp [content, hv.2.1]
  · intro v _ hmapped hname
    have hne : address ≠ 0 := hname
    simp [content, Fields.setBuffer, hne, hmapped, Resource.measured]
  · intro v _ hnull
    have hnone : ¬ (address ≠ 0 ∧ address ≠ -1) := by
      rintro ⟨hne, hmapped⟩
      apply hne (hnull hmapped)
    simp [content, Fields.setBuffer, hnone]
  · intro v P hv hP
    refine ⟨hS.known _ P (hS.setBuffer v address hv.1) (fun h => (hP h).1), ?_, hv.2.2.1, ?_⟩
    · simp [Fields.known, Fields.setBuffer]
    · intro h
      obtain ⟨hhandle, hfb⟩ := hv.2.2.2 (hP h).1
      exact ⟨hhandle, hfb, (hP h).2⟩

/-- A buffer is set up in empty places; if a step fails, `bufferFailed` finds no mapping. -/
theorem setupBuffer_keeps (hS : Around i S) (hopen : ∀ v, S v → 0 ≤ v.fd .drm)
    (hfail : Keeps μ (fun v => S v ∧ (v.buffer i = 0 ∨ v.buffer i = -1)) (Traced.bufferFailed i) Q)
    (hQ : ∀ v, S v → v.Ready i → v.size = sizes i → Q true v) :
  Keeps μ
    (fun v => S v ∧ v.Vacant i ∧
      ∀ j, v.buffer j = 0 ∨ v.buffer j = -1 ∨ μ v.size = μ (sizes i))
    (Traced.setupBuffer sizes i) Q
  := by
  refine checked_keeps (ioctl_keeps fun v hv => hopen v hv.1)
    (hfail.strengthen fun v hv => ⟨hv.1, Or.inl hv.2.1.2.2⟩) ?_
  intro _
  apply Spec.bind (lift_keeps ask_fields)
  intro handle
  refine Spec.bind (setSize_keeps (H := fun v => S v ∧ v.Vacant i ∧ v.size = sizes i)
    (fun v hv => hv.2.2) fun v hv => ⟨hS.size v _ hv.1, hv.2.1, rfl⟩) ?_
  intro _
  apply Spec.bind (createDumb_keeps hS handle)
  intro _
  refine checked_keeps (ioctl_keeps fun v hv => hopen v hv.1)
    (hfail.strengthen fun v hv => ⟨hv.1, Or.inl hv.2.2.1⟩) ?_
  intro _
  apply Spec.bind (lift_keeps ask_fields)
  intro fb
  apply Spec.bind (addFb_keeps hS fb)
  intro _
  refine checked_keeps (ioctl_keeps fun v hv => hopen v hv.1)
    (hfail.strengthen fun v hv => ⟨hv.1, Or.inl hv.2.1⟩) ?_
  intro _
  apply Spec.bind (ioctl_keeps fun v hv => hopen v hv.1)
  intro address
  apply Spec.bind (mapBuffer_keeps hS address)
  intro _
  split
  · rename_i hfailed
    apply hfail.strengthen
    intro v hv
    exact ⟨hv.1, Or.inr (hv.2.1.trans hfailed)⟩
  · rename_i hmapped
    apply Keeps.pure
    intro v hv
    obtain ⟨hv, hbuffer, hsize, hnamed⟩ := hv
    apply hQ v hv _ hsize
    intro hnonNull
    obtain ⟨hhandle, hfb, haddress⟩ := hnamed hnonNull
    rw [hbuffer]
    exact ⟨hhandle, hfb, haddress hmapped, hmapped⟩

end Setup

/-! ### The card, once the terminal is taken -/

/-- No card was opened yet. -/
structure Fields.Idle (v : Fields) : Prop where
  drm : v.fd .drm < 0
  restored : v.vtRestored = false
  vacant : ∀ i, v.Vacant i

/-- The outcome of `init_drm` after the terminal was taken. -/
def Fields.Taken (r : ℤ) (v : Fields) : Prop := r = 0 ∧ v.SetUp ∨ r = -1 ∧ v.Cleared

theorem showFirst_keeps :
  Keeps μ Fields.SetUp Traced.showFirst fun r v => v.Taken r
  := by
  apply Spec.bind
  · apply lift_keeps
    apply setDrm_fields
    intro d
    exact ⟨rfl, rfl, rfl, rfl, rfl⟩
  intro _
  apply Spec.bind (act_keeps fun v hv => hv.drm)
  intro _
  apply Spec.bind (ioctl_keeps fun v hv => hv.drm)
  intro shown
  split
  · refine Spec.bind (cleanupDrm_keeps.strengthen ?_) ?_
    · intro v hv
      exact ⟨hv.drm, hv.unreleased⟩
    · intro _
      apply Keeps.pure
      intro v hv
      exact Or.inr ⟨rfl, hv⟩
  · apply Keeps.pure
    intro v hv
    exact Or.inl ⟨rfl, hv⟩

/-- The state between the two buffers. -/
structure Fields.Halfway (size : ℤ) (v : Fields) : Prop extends v.First where
  double : v.doubleBuffered = true
  vacant : v.Vacant 1
  size : v.size = size

/-- What is known while the first buffer is set up. -/
structure Fields.Starting (v : Fields) : Prop where
  drm : 0 ≤ v.fd .drm
  unreleased : v.Unreleased
  double : v.doubleBuffered = true
  vacant : v.Vacant 1

theorem around_starting :
  Around 0 Fields.Starting
  := by
  constructor
  · rintro v handle ⟨hdrm, hunreleased, hdouble, hvacant⟩
    refine ⟨hdrm, hunreleased, hdouble, ?_⟩
    simpa [Fields.Vacant, Fields.setHandle] using hvacant
  · rintro v id ⟨hdrm, hunreleased, hdouble, hvacant⟩
    refine ⟨hdrm, hunreleased, hdouble, ?_⟩
    simpa [Fields.Vacant, Fields.setFb] using hvacant
  · rintro v address ⟨hdrm, hunreleased, hdouble, hvacant⟩
    refine ⟨hdrm, hunreleased, hdouble, ?_⟩
    simpa [Fields.Vacant, Fields.setBuffer] using hvacant
  · rintro v size ⟨hdrm, hunreleased, hdouble, hvacant⟩
    exact ⟨hdrm, hunreleased, hdouble, hvacant⟩
  · rintro v P ⟨hdrm, hunreleased, hdouble, hvacant⟩ _
    exact ⟨hdrm, hunreleased, hdouble, hvacant⟩

theorem setupFirst_keeps (sizes : Fin 2 → ℤ) :
  Keeps μ (fun v => v.Starting ∧ v.Vacant 0) (Traced.setupBuffer sizes 0)
    fun ok v => if ok then v.Halfway (sizes 0) else v.Cleared
  := by
  refine Keeps.strengthen (setupBuffer_keeps around_starting (fun v hv => hv.drm) ?_ ?_) ?_
  · refine (bufferFailed_zero_keeps.strengthen fun v hv => ⟨hv.1.drm, hv.1.unreleased⟩).weaken ?_
    rintro ok v ⟨rfl, hv⟩
    simpa using hv
  · rintro v ⟨hdrm, hunreleased, hdouble, hvacant⟩ hready hsize
    simpa using Fields.Halfway.mk ⟨hdrm, hunreleased, hready⟩ hdouble hvacant hsize
  · rintro v ⟨hv, hvacant⟩
    refine ⟨hv, hvacant, ?_⟩
    intro j
    fin_cases j
    · exact Or.inl hvacant.2.2
    · exact Or.inl hv.vacant.2.2

theorem around_first :
  Around 1 fun v => v.First ∧ v.doubleBuffered = true
  := by
  constructor
  · rintro v handle ⟨⟨hdrm, hunreleased, hready⟩, hdouble⟩
    refine ⟨⟨hdrm, hunreleased, ?_⟩, hdouble⟩
    simpa [Fields.Ready, Fields.setHandle] using hready
  · rintro v id ⟨⟨hdrm, hunreleased, hready⟩, hdouble⟩
    refine ⟨⟨hdrm, hunreleased, ?_⟩, hdouble⟩
    simpa [Fields.Ready, Fields.setFb] using hready
  · rintro v address ⟨⟨hdrm, hunreleased, hready⟩, hdouble⟩
    refine ⟨⟨hdrm, hunreleased, ?_⟩, hdouble⟩
    simpa [Fields.Ready, Fields.setBuffer] using hready
  · rintro v size ⟨⟨hdrm, hunreleased, hready⟩, hdouble⟩
    exact ⟨⟨hdrm, hunreleased, hready⟩, hdouble⟩
  · rintro v P ⟨⟨hdrm, hunreleased, hready⟩, hdouble⟩ hP
    exact ⟨⟨hdrm, hunreleased, fun h => hready (hP h)⟩, hdouble⟩

theorem setupSecond_keeps {sizes : Fin 2 → ℤ} (hμ : μ (sizes 0) = μ (sizes 1)) :
  Keeps μ (fun v => v.Halfway (sizes 0)) (Traced.setupBuffer sizes 1)
    fun ok v => ok = true ∧ v.SetUp
  := by
  refine Keeps.strengthen (setupBuffer_keeps around_first (fun v hv => hv.1.drm) ?_ ?_) ?_
  · apply bufferFailed_one_keeps.strengthen
    intro v hv
    exact ⟨hv.1.1, hv.2⟩
  · intro v hv hready _
    exact ⟨rfl, hv.1, Or.inl ⟨hv.2, hready⟩⟩
  · intro v hv
    refine ⟨⟨hv.toFirst, hv.double⟩, hv.vacant, ?_⟩
    intro j
    rw [hv.size]
    exact Or.inr (Or.inr hμ)

theorem cardless_search :
  Cardless fun v => v.vtRestored = false ∧ ∀ i, v.Vacant i
  := by
  constructor
  · intro v fd hv
    apply hv
  · intro v P hv
    apply hv

/-- `init_drm` once the terminal is taken. -/
theorem takeCard_keeps {sizes : Fin 2 → ℤ} (hμ : μ (sizes 0) = μ (sizes 1)) :
  Keeps μ Fields.Idle (Traced.takeCard sizes) fun r v => v.Taken r
  := by
  apply Spec.bind ((findCard_keeps 16 cardless_search).strengthen
    fun v hv => ⟨⟨hv.restored, hv.vacant⟩, hv.drm⟩)
  intro found
  cases found with
  | true =>
      refine Spec.bind (setDoubleBuffered_keeps true
        (H := fun v => v.Starting ∧ v.Vacant 0) ?_) ?_
      · rintro v ⟨⟨hrestored, hvacant⟩, hfound⟩
        refine ⟨⟨hfound, ?_, rfl, hvacant 1⟩, hvacant 0⟩
        intro h
        rw [hrestored] at h
        cases h
      intro _
      apply Spec.bind (setupFirst_keeps sizes)
      intro first
      cases first with
      | true =>
          apply Spec.bind ((setupSecond_keeps hμ).strengthen fun v hv => hv)
          intro second
          cases second with
          | true => apply showFirst_keeps.strengthen fun v hv => hv.2
          | false =>
              apply Keeps.pure
              intro v hv
              cases hv.1
      | false =>
          apply Keeps.pure
          intro v hv
          exact Or.inr ⟨rfl, hv⟩
  | false =>
      refine Spec.bind ((restoreVt_keeps apart_closed).strengthen ?_) ?_
      · rintro v ⟨⟨hrestored, hvacant⟩, hfound⟩
        refine ⟨⟨hfound, hvacant⟩, ?_⟩
        intro h
        rw [hrestored] at h
        cases h
      · intro _
        apply Keeps.pure
        intro v hv
        exact Or.inr ⟨rfl, hv.1.1, hv.2, hv.1.2⟩

end Bookkeeping

end Vt

end LnxCad
