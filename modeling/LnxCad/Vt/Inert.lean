import LnxCad.Gui.SwitchTarget
import LnxCad.Vt.Program

/-!
# What does not touch the machine

The work on the graphics card, apart from giving up a card, changes nothing that has to be
put back.  Its calls may fail at any point; for the restoration it is as if they were not
there.
-/

namespace LnxCad

namespace Vt

open Prog

/-- A program that leaves everything but the graphics card alone. -/
abbrev CoreInert {α : Type} (m : Cmd α) : Prop := Inert Sys.core m

/-- A program that leaves the descriptor of the graphics card alone as well. -/
abbrev Still {α : Type} (m : Cmd α) : Prop := Inert (fun s : Sys => (s.core, s.drm.drmFd)) m

theorem Still.core {α : Type} {m : Cmd α} (h : Still m) :
  CoreInert m
  := by
  intro P
  apply h (fun p => P p.1)

theorem ask_still :
  Still ask
  := by
  apply Inert.step
  intro s
  rfl

theorem call_still :
  Still call
  := by
  apply Inert.bind ask_still
  intro _
  apply Inert.pure

theorem callIf_still (b : Bool) :
  Still (callIf b)
  := by
  unfold callIf
  split
  · apply call_still
  · apply Inert.pure

theorem read_still {α : Type} (f : Sys → α) :
  Still (Prog.read f)
  := by
  apply Inert.step
  intro s
  rfl

theorem setDrm_still {f : Drm → Drm} (h : ∀ d, (f d).drmFd = d.drmFd) :
  Still (setDrm f)
  := by
  apply Inert.step
  intro s
  simp [h]

theorem setDrm_inert (f : Drm → Drm) :
  CoreInert (setDrm f)
  := by
  apply Inert.step
  intro s
  rfl

/-- A check keeps what does not depend on the answers, if both branches do. -/
theorem checked_spec
    {α : Type} {good : ℤ → Bool} {otherwise : Cmd α} {next : ℤ → Cmd α} {P : Core × ℤ → Prop}
    {post : α → Sys → Prop} {during : Sys → Prop}
    (hduring : ∀ s : Sys, P (s.core, s.drm.drmFd) → during s)
    (hotherwise : Spec (fun s => P (s.core, s.drm.drmFd)) otherwise post during)
    (hnext : ∀ r, Spec (fun s => P (s.core, s.drm.drmFd)) (next r) post during) :
  Spec (fun s => P (s.core, s.drm.drmFd)) (checked good otherwise next) post during
  := by
  apply Spec.bind (ask_still.keeps hduring)
  intro r
  split
  · apply hnext
  · apply hotherwise

theorem checked_still
    {α : Type} {good : ℤ → Bool} {otherwise : Cmd α} {next : ℤ → Cmd α}
    (hotherwise : Still otherwise) (hnext : ∀ r, Still (next r)) :
  Still (checked good otherwise next)
  := by
  intro P
  apply checked_spec (fun _ h => h) (hotherwise P)
  intro r
  apply hnext r P

theorem closeDrm_inert :
  CoreInert closeDrm
  := by
  apply Inert.bind call_still.core
  intro _
  apply setDrm_inert

theorem firstCrtc_still (countCrtcs : ℤ) :
  Still (firstCrtc countCrtcs)
  := by
  unfold firstCrtc
  split
  · apply Inert.bind ask_still
    intro first
    refine Inert.bind (setDrm_still ?_) ?_
    · intro _
      rfl
    · intro _
      apply Inert.pure
  · apply Inert.pure

theorem pickCrtc_still (countCrtcs : ℤ) :
  Still (pickCrtc countCrtcs)
  := by
  apply checked_still (firstCrtc_still _)
  intro _
  apply checked_still (firstCrtc_still _)
  intro _
  apply checked_still (firstCrtc_still _)
  intro crtc
  refine Inert.bind (setDrm_still ?_) ?_
  · intro _
    rfl
  · intro _
    apply Inert.pure

theorem tryConnector_still (countCrtcs : ℤ) :
  Still (tryConnector countCrtcs)
  := by
  apply checked_still (Inert.pure _)
  intro _
  apply checked_still (Inert.pure _)
  intro _
  apply checked_still (Inert.pure _)
  intro _
  apply checked_still (Inert.pure _)
  intro _
  apply checked_still (Inert.pure _)
  intro _
  apply pickCrtc_still

theorem findConnector_still (countCrtcs : ℤ) (n : ℕ) :
  Still (findConnector countCrtcs n)
  := by
  induction n with
  | zero => apply Inert.pure
  | succ n ih =>
      apply Inert.bind (tryConnector_still countCrtcs)
      intro found
      split
      · apply Inert.pure
      · apply ih

theorem releaseBuffer_still (i : ℕ) :
  Still (releaseBuffer i)
  := by
  apply Inert.bind (read_still _)
  intro d
  apply Inert.bind (callIf_still _)
  intro _
  apply Inert.bind (callIf_still _)
  intro _
  apply Inert.bind (callIf_still _)
  intro _
  apply setDrm_still
  intro _
  rfl

/-! ### Rules for the steps that touch the machine -/

section Rules

variable {P Q D : Core → Prop}

theorem setCore_spec {f : Core → Core} (hD : ∀ c, P c → D c) (h : ∀ c, P c → Q (f c)) :
  Spec (fun s => P s.core) (setCore f) (fun _ s => Q s.core) (fun s => D s.core)
  := by
  apply Spec.step
  · intro s hs
    apply hD _ hs
  · intro s hs
    apply h _ hs

theorem readCore_spec {α : Type} (f : Core → α) (hD : ∀ c, P c → D c) :
  Spec (fun s => P s.core) (Prog.read fun s : Sys => f s.core)
    (fun a s => P s.core ∧ f s.core = a) (fun s => D s.core)
  := by
  apply Spec.step
  · intro s hs
    apply hD _ hs
  · intro s hs
    exact ⟨hs, rfl⟩

theorem vtActivate_spec {vt : Journal → ℤ} (hD : ∀ c, P c → D c)
    (h : ∀ c accepted, P c →
      Q { c with kernel.activations := c.kernel.activations ++ [(vt c.journal, accepted)] }) :
  Spec (fun s => P s.core) (vtActivate vt) (fun _ s => Q s.core) (fun s => D s.core)
  := by
  apply Spec.step
  · intro s hs
    apply hD _ hs
  · intro s hs
    apply h _ _ hs

/-- The first call of `restore_vt` releases both terminals, any other does nothing. -/
theorem restoreVt_spec {R : Core → Prop} (hD : ∀ c, P c → D c)
    (hfirst : ∀ c, P c → c.vtRestored = false → Q { c with vtRestored := true })
    (hlater : ∀ c, P c → c.vtRestored = true → R { c with vtRestored := true })
    (hrescue : Spec (fun s => Q s.core) releaseRescueTty (fun _ s => Q s.core) (fun s => D s.core))
    (htty : Spec (fun s => Q s.core) releaseTty (fun _ s => R s.core) (fun s => D s.core)) :
  Spec (fun s => P s.core) restoreVt (fun _ s => R s.core) (fun s => D s.core)
  := by
  have hset : Spec (fun s => P s.core)
      (Prog.step fun s : Sys => (s.core.vtRestored, { s with core.vtRestored := true }))
      (fun restored s => if restored then R s.core else Q s.core) (fun s => D s.core) := by
    apply Spec.step
    · intro s hs
      apply hD _ hs
    · intro s hs
      cases hr : s.core.vtRestored with
      | true => simpa [hr] using hlater _ hs hr
      | false => simpa [hr] using hfirst _ hs hr
  apply Spec.bind hset
  intro restored
  cases restored with
  | true =>
      apply Spec.pure
      intro s hs
      simpa using hs
  | false =>
      apply Spec.strengthen (p := fun s => Q s.core) _ (fun s hs => by simpa using hs)
      apply Spec.bind hrescue
      intro _
      apply htty

/-- The rescue terminal is released by inert calls and a change of its descriptor. -/
theorem releaseRescueTty_spec (hD : ∀ c, P c → D c)
    (h : ∀ c, P c → P { c with journal.rescueTtyFd := -1 }) :
  Spec (fun s => P s.core) releaseRescueTty (fun _ s => P s.core) (fun s => D s.core)
  := by
  have hcall : Spec (fun s => P s.core) call (fun _ s => P s.core) (fun s => D s.core) :=
    call_still.core.keeps fun s => hD s.core
  apply Spec.bind ((read_still _).core.keeps fun s => hD s.core)
  intro fd
  split
  · apply Spec.bind hcall
    intro _
    apply Spec.bind hcall
    intro _
    apply Spec.bind hcall
    intro _
    apply Spec.bind hcall
    intro _
    apply Spec.bind hcall
    intro _
    apply setCore_spec hD h
  · apply Spec.pure
    intro s hs
    apply hs

/-- `steal_vt` turns `P` into `Q` when opening the terminal does, and `Q` depends neither on the
rest of the journal nor on the requests made. -/
theorem stealVt_spec (e : Env) (hDP : ∀ c, P c → D c) (hDQ : ∀ c, Q c → D c)
    (hopen : ∀ c, P c → Q { c with journal.ttyFd := e.ttyOpen })
    (hjournal : ∀ c j, j.ttyFd = c.journal.ttyFd → Q c → Q { c with journal := j })
    (hactivate : ∀ c a, Q c → Q { c with kernel.activations := a }) :
  Spec (fun s => P s.core) (stealVt e) (fun _ s => Q s.core) (fun s => D s.core)
  := by
  have hask : Spec (fun s => Q s.core) ask (fun _ s => Q s.core) (fun s => D s.core) :=
    ask_still.core.keeps fun s => hDQ s.core
  have hcall : Spec (fun s => Q s.core) call (fun _ s => Q s.core) (fun s => D s.core) :=
    call_still.core.keeps fun s => hDQ s.core
  have hset : ∀ {f : Journal → Journal}, (∀ j, (f j).ttyFd = j.ttyFd) →
      Spec (fun s => Q s.core) (setJournal f) (fun _ s => Q s.core) (fun s => D s.core) := by
    intro f hf
    apply setCore_spec hDQ
    intro c hc
    apply hjournal _ _ (hf _) hc
  have htty : Spec (fun s => P s.core) (setJournal fun j => { j with ttyFd := e.ttyOpen })
      (fun _ s => Q s.core) (fun s => D s.core) := by
    apply setCore_spec hDP
    intro c hc
    apply hopen _ hc
  have hswitch : Spec (fun s => Q s.core) (vtActivate Journal.rescueVt) (fun _ s => Q s.core)
      (fun s => D s.core) := by
    apply vtActivate_spec hDQ
    intro c accepted hc
    apply hactivate _ _ hc
  have hdone : ∀ r : ℤ, Spec (fun s => Q s.core) (pure r : Cmd ℤ) (fun _ s => Q s.core)
      (fun s => D s.core) := by
    intro r
    apply Spec.pure
    intro s hs
    apply hs
  apply Spec.bind htty
  intro _
  split
  · apply hdone
  apply Spec.bind hask
  intro state
  split
  · apply Spec.bind hcall
    intro _
    apply hdone
  apply Spec.bind hask
  intro active
  refine Spec.bind (hset ?_) ?_
  · intro j
    rfl
  intro _
  apply Spec.bind hask
  intro query
  apply Spec.bind hask
  intro free
  refine Spec.bind (hset ?_) ?_
  · intro j
    rfl
  intro _
  apply Spec.bind hask
  intro fd
  refine Spec.bind (hset ?_) ?_
  · intro j
    rfl
  intro _
  apply Spec.bind hswitch
  intro activated
  split
  · apply Spec.bind hcall
    intro _
    apply Spec.bind hcall
    intro _
    apply hdone
  · apply Spec.bind hcall
    intro _
    apply Spec.bind hcall
    intro _
    apply Spec.bind hcall
    intro _
    apply hdone

theorem check_spec (hD : ∀ c, P c → D c) {good : ℤ → Bool} {next : ℤ → Cmd Unit}
    (hnext : ∀ r, Spec (fun s => P s.core) (next r) (fun _ s => P s.core) (fun s => D s.core)) :
  Spec (fun s => P s.core) (checked good (pure ()) next) (fun _ s => P s.core) (fun s => D s.core)
  := by
  apply Spec.bind (ask_still.core.keeps fun s => hD s.core)
  intro r
  split
  · apply hnext
  · apply Spec.pure
    intro s hs
    apply hs

/-- A property that no change of the brightness affects. -/
def Lightproof (P : Core → Prop) : Prop := ∀ c f, P c → P { c with kernel.brightness := f }

theorem writeBrightness_spec (hD : ∀ c, P c → D c) (hP : Lightproof P) (name : Bytes) (v : ℤ) :
  Spec (fun s => P s.core) (writeBrightness name v) (fun _ s => P s.core) (fun s => D s.core)
  := by
  apply setCore_spec hD
  intro c hc
  apply hP _ _ hc

/-- Such a property is kept by `force_backlight`, if it does not depend on the record of
backlights either. -/
theorem forceBacklight_spec (e : Env) (hD : ∀ c, P c → D c) (hP : Lightproof P)
    (hrecord : ∀ c bs, P c → P { c with backlights := bs }) :
  Spec (fun s => P s.core) (forceBacklight e) (fun _ s => P s.core) (fun s => D s.core)
  := by
  have hset : ∀ f : Core → List Backlight, Spec (fun s => P s.core)
      (setCore fun c => { c with backlights := f c }) (fun _ s => P s.core)
      (fun s => D s.core) := by
    intro f
    apply setCore_spec hD
    intro c hc
    apply hrecord _ _ hc
  apply check_spec hD
  intro _
  apply Spec.forEach
  intro name _
  apply Spec.bind ((read_still _).core.keeps fun s => hD s.core)
  intro num
  split
  · apply Spec.pure
    intro s hs
    apply hs
  · apply check_spec hD
    intro _
    apply Spec.bind (ask_still.core.keeps fun s => hD s.core)
    intro maxB
    apply check_spec hD
    intro _
    apply Spec.bind ((read_still _).core.keeps fun s => hD s.core)
    intro curB
    unfold recordBacklight
    split
    · apply Spec.bind (writeBrightness_spec hD hP _ _)
      intro _
      apply hset
    · apply hset

theorem restoreBacklight_spec (hD : ∀ c, P c → D c) (hP : Lightproof P) :
  Spec (fun s => P s.core) restoreBacklight (fun _ s => P s.core) (fun s => D s.core)
  := by
  apply Spec.bind ((read_still _).core.keeps fun s => hD s.core)
  intro backlights
  apply Spec.forEach
  intro b _
  apply writeBrightness_spec hD hP

theorem maintainOne_spec (hD : ∀ c, P c → D c) (hP : Lightproof P) (b : Backlight) :
  Spec (fun s => P s.core) (maintainOne b) (fun _ s => P s.core) (fun s => D s.core)
  := by
  have hdone : Spec (fun s => P s.core) (pure () : Cmd Unit) (fun _ s => P s.core)
      (fun s => D s.core) := by
    apply Spec.pure
    intro s hs
    apply hs
  unfold maintainOne
  split
  · apply check_spec hD
    intro _
    apply Spec.bind ((read_still _).core.keeps fun s => hD s.core)
    intro curB
    split
    · apply check_spec hD
      intro _
      apply writeBrightness_spec hD hP
    · apply hdone
  · apply hdone

/-- Such a property is kept by the main loop, if a choice in the switch-user dialog keeps
it. -/
theorem performEvent_spec (hD : ∀ c, P c → D c) (hP : Lightproof P)
    (hswitch : ∀ c vt, 1 ≤ vt → P c → P { c with journal.originalVt := vt })
    (ev : Event) (hev : ev.ToSession) :
  Spec (fun s => P s.core) (performEvent ev) (fun _ s => P s.core) (fun s => D s.core)
  := by
  cases ev with
  | maintainBacklight =>
      apply Spec.bind ((read_still _).core.keeps fun s => hD s.core)
      intro backlights
      apply Spec.forEach
      intro b _
      apply maintainOne_spec hD hP
  | switchTo vt =>
      apply setCore_spec hD
      intro c hc
      apply hswitch c vt (hev vt rfl).1 hc
  | _ =>
      apply Spec.pure
      intro s hs
      apply hs

/-- A property that does not depend on the SysRq setting is kept by `restore_sysrq`. -/
theorem restoreSysrq_spec (hD : ∀ c, P c → D c)
    (hsysrq : ∀ c v, P c → P { c with kernel.sysrq := v })
    (hsaved : ∀ c, P c → P { c with savedSysrq := -1 }) :
  Spec (fun s => P s.core) restoreSysrq (fun _ s => P s.core) (fun s => D s.core)
  := by
  apply Spec.bind ((read_still _).core.keeps fun s => hD s.core)
  intro saved
  split
  · have hwrite : Spec (fun s => P s.core) (writeSysrq saved) (fun _ s => P s.core)
        (fun s => D s.core) := by
      apply setCore_spec hD
      intro c hc
      apply hsysrq _ _ hc
    apply Spec.bind hwrite
    intro _
    apply setCore_spec hD hsaved
  · apply Spec.pure
    intro s hs
    apply hs

end Rules

/-! ### What the main loop leaves alone -/

/-- A program that leaves the descriptor of the graphics card alone. -/
abbrev DrmInert {α : Type} (m : Cmd α) : Prop := Inert (fun s : Sys => s.drm.drmFd) m

theorem Still.drm {α : Type} {m : Cmd α} (h : Still m) :
  DrmInert m
  := by
  intro P
  apply h (fun p => P p.2)

theorem setCore_drmInert (f : Core → Core) :
  DrmInert (setCore f)
  := by
  apply Inert.step
  intro s
  rfl

theorem checked_drmInert
    {good : ℤ → Bool} {next : ℤ → Cmd Unit} (hnext : ∀ r, DrmInert (next r)) :
  DrmInert (checked good (pure ()) next)
  := by
  apply Inert.bind ask_still.drm
  intro r
  split
  · apply hnext
  · apply Inert.pure

theorem maintainOne_drmInert (b : Backlight) :
  DrmInert (maintainOne b)
  := by
  unfold maintainOne
  split
  · apply checked_drmInert
    intro _
    apply Inert.bind (read_still _).drm
    intro curB
    split
    · apply checked_drmInert
      intro _
      apply setCore_drmInert
    · apply Inert.pure
  · apply Inert.pure

theorem performEvent_drmInert (ev : Event) :
  DrmInert (performEvent ev)
  := by
  cases ev with
  | maintainBacklight =>
      apply Inert.bind (read_still _).drm
      intro backlights
      apply Inert.forEach
      intro b _
      apply maintainOne_drmInert
  | switchTo vt => apply setCore_drmInert
  | _ => apply Inert.pure

/-! ### The search for a card -/

section Search

variable {P D : Core → Prop}

/-- The machine satisfies `P`, and a card that was found is open. -/
def Found (P : Core → Prop) (found : Bool) (s : Sys) : Prop :=
  P s.core ∧ (found → 0 ≤ s.drm.drmFd)

theorem dropCard_spec (hD : ∀ c, P c → D c) :
  Spec (fun s => P s.core) dropCard (Found P) (fun s => D s.core)
  := by
  apply Spec.bind (closeDrm_inert.keeps fun s => hD s.core)
  intro _
  apply Spec.pure
  intro s hs
  exact ⟨hs, by simp⟩

theorem selectCard_spec (hD : ∀ c, P c → D c) (countConnectors countCrtcs : ℤ) :
  Spec (fun s => P s.core ∧ 0 ≤ s.drm.drmFd) (selectCard countConnectors countCrtcs) (Found P)
    (fun s => D s.core)
  := by
  have hstill : ∀ {α : Type} {m : Cmd α}, Still m →
      Spec (fun s => P s.core ∧ 0 ≤ s.drm.drmFd) m (fun _ s => P s.core ∧ 0 ≤ s.drm.drmFd)
        (fun s => D s.core) := by
    intro α m hm
    apply hm.keeps (P := fun p => P p.1 ∧ 0 ≤ p.2)
    intro s hs
    apply hD _ hs.1
  apply Spec.bind (hstill (findConnector_still countCrtcs _))
  intro found
  split
  · apply Spec.bind (hstill call_still)
    intro _
    apply Spec.pure
    intro s hs
    exact ⟨hs.1, fun _ => hs.2⟩
  · apply (dropCard_spec hD).strengthen fun _ h => h.1

theorem tryCard_spec (hD : ∀ c, P c → D c) :
  Spec (fun s => P s.core) tryCard (Found P) (fun s => D s.core)
  := by
  have hduring : ∀ s : Sys, P s.core ∧ 0 ≤ s.drm.drmFd → D s.core := by
    intro s hs
    apply hD _ hs.1
  have hdrop : Spec (fun s => P s.core ∧ 0 ≤ s.drm.drmFd) dropCard (Found P)
      (fun s => D s.core) :=
    (dropCard_spec hD).strengthen fun _ h => h.1
  have hcheck : ∀ {good : ℤ → Bool} {next : ℤ → Cmd Bool},
      (∀ r, Spec (fun s => P s.core ∧ 0 ≤ s.drm.drmFd) (next r) (Found P) (fun s => D s.core)) →
      Spec (fun s => P s.core ∧ 0 ≤ s.drm.drmFd) (checked good dropCard next) (Found P)
        (fun s => D s.core) := by
    intro good next hnext
    apply checked_spec (P := fun p => P p.1 ∧ 0 ≤ p.2) hduring hdrop hnext
  apply Spec.bind (ask_still.core.keeps fun s => hD s.core)
  intro fd
  have hset : Spec (fun s => P s.core) (setDrm fun d => { d with drmFd := fd })
      (fun _ s => P s.core ∧ s.drm.drmFd = fd) (fun s => D s.core) := by
    apply Spec.step
    · intro s hs
      apply hD _ hs
    · intro s hs
      exact ⟨hs, rfl⟩
  apply Spec.bind hset
  intro _
  split
  case isTrue =>
    apply Spec.pure
    intro s hs
    exact ⟨hs.1, by simp⟩
  case isFalse hfd =>
    have hpre : ∀ s : Sys, P s.core ∧ s.drm.drmFd = fd → P s.core ∧ 0 ≤ s.drm.drmFd := by
      rintro s ⟨hs, rfl⟩
      exact ⟨hs, by omega⟩
    refine Spec.strengthen ?_ hpre
    apply hcheck
    intro _
    apply hcheck
    intro _
    apply hcheck
    intro _
    apply hcheck
    intro countConnectors
    apply hcheck
    intro _
    apply hcheck
    intro _
    apply Spec.bind (ask_still.keeps (P := fun p => P p.1 ∧ 0 ≤ p.2) hduring)
    intro countCrtcs
    apply selectCard_spec hD

/-- Nothing done while a card is searched for has to be put back. -/
theorem findCard_spec (hD : ∀ c, P c → D c) (n : ℕ) :
  Spec (fun s => P s.core) (findCard n) (Found P) (fun s => D s.core)
  := by
  induction n with
  | zero =>
      apply Spec.pure
      intro s hs
      exact ⟨hs, by simp⟩
  | succ n ih =>
      apply Spec.bind (tryCard_spec hD)
      intro found
      split
      case isTrue hfound =>
        apply Spec.pure
        intro s hs
        exact ⟨hs.1, fun _ => hs.2 hfound⟩
      case isFalse => apply ih.strengthen fun _ h => h.1

end Search

end Vt

end LnxCad
