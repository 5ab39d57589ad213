import LnxCad.Vt.Traced

/-!
# The display without the record

A program with a record returns what the program without one returns, and leaves the
machine and the answers in the same state.  Where a buffer is given back the fields are
reset one by one, and not at the end; in between nothing is asked that depends on them.
-/

namespace LnxCad

namespace Vt

namespace Traced

open Prog

theorem enter_bind_annotates
    {α : Type} {deals : Sys × Record → List (Deal Resource)} {m' : Unit → Cmd α} {m : Vt.Cmd α}
    (h : Annotates (m' ()) m) :
  Annotates (enter deals >>= m') m
  := Annotates.note_bind h

theorem commit_annotates (deals : Sys × Record → List (Deal Resource)) (m : Vt.Cmd Unit) :
  Annotates (commit deals m) m
  := enter_bind_annotates (Annotates.lift m)

theorem closeReset_annotates (f : Fd) (reset : Vt.Cmd Unit) :
  Annotates (closeReset f reset) (do call; reset)
  := by
  apply Annotates.bind (Annotates.lift _)
  intro _
  apply commit_annotates

theorem call_enter_annotates (deals : Sys × Record → List (Deal Resource)) :
  Annotates (lift call >>= fun _ => enter deals) call
  := by
  intro t
  exact ⟨rfl, rfl⟩

theorem ioctl_annotates (f : Fd) :
  Annotates (ioctl f) ask
  := enter_bind_annotates (Annotates.lift _)

theorem act_annotates (f : Fd) :
  Annotates (act f) call
  := enter_bind_annotates (Annotates.lift _)

theorem actIfOpen_annotates (f : Fd) :
  Annotates (actIfOpen f) call
  := enter_bind_annotates (Annotates.lift _)

theorem actIf_annotates (f : Fd) (b : Bool) :
  Annotates (actIf f b) (callIf b)
  := by
  unfold actIf callIf
  split
  · apply act_annotates
  · apply Annotates.pure

theorem checked_annotates
    {α : Type} {m' : Cmd ℤ} {good : ℤ → Bool} {otherwise' : Cmd α} {next' : ℤ → Cmd α}
    {otherwise : Vt.Cmd α} {next : ℤ → Vt.Cmd α} (hm : Annotates m' ask)
    (hotherwise : Annotates otherwise' otherwise) (hnext : ∀ r, Annotates (next' r) (next r)) :
  Annotates (checked m' good otherwise' next') (Vt.checked good otherwise next)
  := by
  apply Annotates.bind hm
  intro r
  split
  · apply hnext
  · apply hotherwise

theorem switchToRescue_annotates :
  Annotates switchToRescue Vt.switchToRescue
  := by
  apply Annotates.bind (ioctl_annotates _)
  intro query
  apply Annotates.bind (Annotates.lift _)
  intro free
  apply Annotates.bind (Annotates.lift _)
  intro _
  apply Annotates.bind (Annotates.lift _)
  intro fd
  apply Annotates.bind (commit_annotates _ _)
  intro _
  apply enter_bind_annotates
  apply Annotates.bind (Annotates.lift _)
  intro activated
  split
  · apply Annotates.bind (call_enter_annotates _)
    intro _
    apply Annotates.bind (call_enter_annotates _)
    intro _
    apply Annotates.pure
  · apply Annotates.bind (act_annotates _)
    intro _
    apply Annotates.bind (actIfOpen_annotates _)
    intro _
    apply Annotates.bind (actIfOpen_annotates _)
    intro _
    apply Annotates.pure

theorem stealVt_annotates (e : Env) :
  Annotates (stealVt e) (Vt.stealVt e)
  := by
  apply Annotates.bind (commit_annotates _ _)
  intro _
  split
  · apply Annotates.pure
  · apply Annotates.bind (ioctl_annotates _)
    intro state
    split
    · apply Annotates.bind (call_enter_annotates _)
      intro _
      apply Annotates.pure
    · apply Annotates.bind (Annotates.lift _)
      intro active
      apply Annotates.bind (Annotates.lift _)
      intro _
      apply switchToRescue_annotates

theorem resetAttributes_annotates :
  Annotates resetAttributes call
  := by
  intro t
  exact ⟨rfl, rfl⟩

theorem releaseRescueTty_annotates :
  Annotates releaseRescueTty Vt.releaseRescueTty
  := by
  apply Annotates.bind (Annotates.lift _)
  intro fd
  split
  · apply Annotates.bind (act_annotates _)
    intro _
    apply Annotates.bind (act_annotates _)
    intro _
    apply Annotates.bind resetAttributes_annotates
    intro _
    apply Annotates.bind (act_annotates _)
    intro _
    apply closeReset_annotates
  · apply Annotates.pure

theorem releaseTty_annotates :
  Annotates releaseTty Vt.releaseTty
  := by
  apply Annotates.bind (Annotates.lift _)
  intro fd
  split
  · apply Annotates.bind (Annotates.lift _)
    intro _
    apply enter_bind_annotates
    apply Annotates.bind (Annotates.lift _)
    intro _
    apply Annotates.bind (act_annotates _)
    intro _
    apply Annotates.bind (Annotates.lift _)
    intro _
    apply Annotates.bind (Annotates.lift _)
    intro _
    apply closeReset_annotates
  · apply Annotates.pure

theorem restoreVt_annotates :
  Annotates restoreVt Vt.restoreVt
  := by
  apply Annotates.bind (Annotates.lift _)
  intro restored
  split
  · apply Annotates.pure
  · apply Annotates.bind releaseRescueTty_annotates
    intro _
    apply releaseTty_annotates

theorem closeDrm_annotates :
  Annotates closeDrm Vt.closeDrm
  := closeReset_annotates _ _

theorem pickCrtc_annotates (countCrtcs : ℤ) :
  Annotates (pickCrtc countCrtcs) (Vt.pickCrtc countCrtcs)
  := by
  apply checked_annotates (Annotates.lift _) (Annotates.lift _)
  intro _
  apply checked_annotates (ioctl_annotates _) (Annotates.lift _)
  intro _
  apply checked_annotates (Annotates.lift _) (Annotates.lift _)
  intro crtc
  apply Annotates.bind (Annotates.lift _)
  intro _
  apply Annotates.pure

theorem tryConnector_annotates (countCrtcs : ℤ) :
  Annotates (tryConnector countCrtcs) (Vt.tryConnector countCrtcs)
  := by
  apply checked_annotates (ioctl_annotates _) (Annotates.pure _)
  intro _
  apply checked_annotates (Annotates.lift _) (Annotates.pure _)
  intro _
  apply checked_annotates (Annotates.lift _) (Annotates.pure _)
  intro _
  apply checked_annotates (Annotates.lift _) (Annotates.pure _)
  intro _
  apply checked_annotates (ioctl_annotates _) (Annotates.pure _)
  intro _
  apply pickCrtc_annotates

theorem findConnector_annotates (countCrtcs : ℤ) (n : ℕ) :
  Annotates (findConnector countCrtcs n) (Vt.findConnector countCrtcs n)
  := by
  induction n with
  | zero => apply Annotates.pure
  | succ n ih =>
      apply Annotates.bind (tryConnector_annotates _)
      intro found
      split
      · apply Annotates.pure
      · apply ih

theorem dropCard_annotates :
  Annotates dropCard Vt.dropCard
  := by
  apply Annotates.bind closeDrm_annotates
  intro _
  apply Annotates.pure

theorem selectCard_annotates (countConnectors countCrtcs : ℤ) :
  Annotates (selectCard countConnectors countCrtcs) (Vt.selectCard countConnectors countCrtcs)
  := by
  apply Annotates.bind (findConnector_annotates _ _)
  intro found
  split
  · apply Annotates.bind (act_annotates _)
    intro _
    apply Annotates.pure
  · apply dropCard_annotates

theorem tryCard_annotates :
  Annotates tryCard Vt.tryCard
  := by
  apply Annotates.bind (Annotates.lift _)
  intro fd
  apply Annotates.bind (commit_annotates _ _)
  intro _
  split
  · apply Annotates.pure
  · apply checked_annotates (ioctl_annotates _) dropCard_annotates
    intro _
    apply checked_annotates (Annotates.lift _) dropCard_annotates
    intro _
    apply checked_annotates (ioctl_annotates _) dropCard_annotates
    intro _
    apply checked_annotates (Annotates.lift _) dropCard_annotates
    intro countConnectors
    apply checked_annotates (Annotates.lift _) dropCard_annotates
    intro _
    apply checked_annotates (ioctl_annotates _) dropCard_annotates
    intro _
    apply Annotates.bind (Annotates.lift _)
    intro countCrtcs
    apply selectCard_annotates

theorem findCard_annotates (n : ℕ) :
  Annotates (findCard n) (Vt.findCard n)
  := by
  induction n with
  | zero => apply Annotates.pure
  | succ n ih =>
      apply Annotates.bind tryCard_annotates
      intro found
      split
      · apply Annotates.pure
      · apply ih

theorem callIf_final (b : Bool) (s : Sys) :
  (callIf b).final s = { s with asked := s.asked + b.toNat }
  := by
  cases b with
  | false => rfl
  | true => rfl

theorem actIf_final (f : Fd) (b : Bool) (t : Sys × Record) :
  ((actIf f b).final t).1 = { t.1 with asked := t.1.asked + b.toNat }
  := by
  rw [(actIf_annotates f b t).2, callIf_final]

theorem unmap_final (i : Fin 2) (t : Sys × Record) :
  ((unmap i).final t).1
    = { t.1 with
        drm.buffer := Function.update t.1.drm.buffer i 0
        asked :=
          t.1.asked + (decide (t.1.drm.buffer i ≠ 0 ∧ t.1.drm.buffer i ≠ -1)).toNat }
  := by
  have hcall := callIf_final (t.1.drm.buffer i ≠ 0 ∧ t.1.drm.buffer i ≠ -1) t.1
  have hset : ((unmap i).final t).1
      = (setDrm fun d => { d with buffer := Function.update d.buffer i 0 }).final
          ((callIf (t.1.drm.buffer i ≠ 0 ∧ t.1.drm.buffer i ≠ -1)).final t.1) := rfl
  rw [hset, hcall]
  rfl

theorem rmFb_final (i : Fin 2) (t : Sys × Record) :
  ((rmFb i).final t).1
    = { t.1 with
        drm.fbId := Function.update t.1.drm.fbId i 0
        asked := t.1.asked + (decide (t.1.drm.fbId i ≠ 0)).toNat }
  := by
  have hset : ((rmFb i).final t).1
      = (setDrm fun d => { d with fbId := Function.update d.fbId i 0 }).final
          ((actIf .drm (t.1.drm.fbId i ≠ 0)).final t).1 := rfl
  rw [hset, actIf_final]
  rfl

theorem destroyDumb_final (i : Fin 2) (t : Sys × Record) :
  ((destroyDumb i).final t).1
    = { t.1 with
        drm.handle := Function.update t.1.drm.handle i 0
        asked := t.1.asked + (decide (t.1.drm.handle i ≠ 0)).toNat }
  := by
  have hset : ((destroyDumb i).final t).1
      = (setDrm fun d => { d with handle := Function.update d.handle i 0 }).final
          ((actIf .drm (t.1.drm.handle i ≠ 0)).final t).1 := rfl
  rw [hset, actIf_final]
  rfl

theorem releaseBuffer_annotates (i : Fin 2) :
  Annotates (releaseBuffer i) (Vt.releaseBuffer i)
  := by
  intro t
  refine ⟨rfl, ?_⟩
  rw [releaseBuffer, final_bind, final_bind, destroyDumb_final, rmFb_final, unmap_final]
  rw [Vt.releaseBuffer, final_bind, final_bind, final_bind, final_bind, callIf_final, callIf_final,
    callIf_final]
  rfl

theorem cleanupDrm_annotates :
  Annotates cleanupDrm Vt.cleanupDrm
  := by
  apply Annotates.bind (Annotates.lift _)
  intro d
  split
  · apply Annotates.pure
  · apply Annotates.bind (actIf_annotates _ _)
    intro _
    apply Annotates.bind (act_annotates _)
    intro _
    apply Annotates.bind (releaseBuffer_annotates 0)
    intro _
    apply Annotates.bind (releaseBuffer_annotates 1)
    intro _
    apply Annotates.bind closeDrm_annotates
    intro _
    apply restoreVt_annotates

theorem bufferFailed_annotates (i : Fin 2) :
  Annotates (bufferFailed i) (Vt.bufferFailed i)
  := by
  fin_cases i
  · apply Annotates.bind cleanupDrm_annotates
    intro _
    apply Annotates.pure
  · intro t
    refine ⟨rfl, ?_⟩
    have hfailed : ((bufferFailed 1).final t).1
        = (setDrm fun d => { d with doubleBuffered := false }).final
            ((destroyDumb 1).final ((rmFb 1).final t)).1 := rfl
    have hfailed' : (Vt.bufferFailed 1).final t.1
        = (setDrm fun d => { d with
            fbId := Function.update d.fbId 1 0
            handle := Function.update d.handle 1 0
            doubleBuffered := false }).final
            ((callIf (t.1.drm.handle 1 ≠ 0)).final ((callIf (t.1.drm.fbId 1 ≠ 0)).final t.1)) := rfl
    refine hfailed.trans (Eq.trans ?_ hfailed'.symm)
    rw [destroyDumb_final, rmFb_final, callIf_final, callIf_final]
    rfl

theorem setupBuffer_annotates (sizes : Fin 2 → ℤ) (i : Fin 2) :
  Annotates (setupBuffer sizes i) (Vt.setupBuffer i)
  := by
  apply checked_annotates (ioctl_annotates _) (bufferFailed_annotates i)
  intro _
  apply Annotates.bind (Annotates.lift _)
  intro handle
  apply Annotates.note_bind
  apply Annotates.bind (commit_annotates _ _)
  intro _
  apply checked_annotates (ioctl_annotates _) (bufferFailed_annotates i)
  intro _
  apply Annotates.bind (Annotates.lift _)
  intro fb
  apply Annotates.bind (commit_annotates _ _)
  intro _
  apply checked_annotates (ioctl_annotates _) (bufferFailed_annotates i)
  intro _
  apply Annotates.bind (ioctl_annotates _)
  intro address
  apply Annotates.bind (commit_annotates _ _)
  intro _
  split
  · apply bufferFailed_annotates
  · apply Annotates.pure

theorem showFirst_annotates :
  Annotates showFirst Vt.showFirst
  := by
  apply Annotates.bind (Annotates.lift _)
  intro _
  apply Annotates.bind (act_annotates _)
  intro _
  apply Annotates.bind (ioctl_annotates _)
  intro shown
  split
  · apply Annotates.bind cleanupDrm_annotates
    intro _
    apply Annotates.pure
  · apply Annotates.pure

theorem initDrm_annotates (e : Env) (sizes : Fin 2 → ℤ) :
  Annotates (initDrm e sizes) (Vt.initDrm e)
  := by
  apply Annotates.bind (stealVt_annotates e)
  intro stolen
  split
  · apply Annotates.pure
  · apply Annotates.bind (findCard_annotates 16)
    intro found
    split
    · apply Annotates.bind (Annotates.lift _)
      intro _
      apply Annotates.bind (setupBuffer_annotates sizes 0)
      intro first
      split
      · apply Annotates.bind (setupBuffer_annotates sizes 1)
        intro second
        split
        · apply showFirst_annotates
        · apply Annotates.pure
      · apply Annotates.pure
    · apply Annotates.bind restoreVt_annotates
      intro _
      apply Annotates.pure

theorem mainArmed_annotates (e : Env) (sizes : Fin 2 → ℤ) :
  Annotates (mainArmed e sizes) (Vt.mainArmed e)
  := by
  apply Annotates.bind (Annotates.lift _)
  intro _
  apply Annotates.bind (initDrm_annotates e sizes)
  intro drm
  unfold afterInit
  split
  · apply Annotates.pure
  · apply Annotates.bind (Annotates.lift _)
    intro rawfb
    split
    · apply Annotates.pure
    · apply Annotates.bind (Annotates.lift _)
      intro g
      apply Annotates.bind cleanupDrm_annotates
      intro _
      split
      · apply Annotates.pure
      · apply Annotates.pure

/-- Without its record, the process is the one that takes the display and gives it back. -/
theorem process_annotates (e : Env) (sizes : Fin 2 → ℤ) :
  Annotates (process e sizes) (Vt.process e)
  := by
  apply Annotates.bind (Annotates.lift _)
  intro _
  apply Annotates.bind (mainArmed_annotates e sizes)
  intro how
  unfold atExit
  split
  · apply restoreVt_annotates
  · apply Annotates.pure

end Traced

end Vt

end LnxCad
