import LnxCad.Vt.Inert

/-!
# A rule for whole processes

A property of the machine goes through three phases: before the display is taken, while it
is taken, and once it is given back.  `Takeover` collects what has to be checked of the few
operations that touch the machine; from it follows what holds at the end of the process,
however many calls failed on the way, and in every state an interrupt may find.
-/

namespace LnxCad

namespace Vt

open Prog

/-- The obligations for a property `P₀` before the backlights are lit, `P₁` before the display
is taken, `P` while it is taken and `Q` once it is given back, with `D` in every state in
between. -/
structure Takeover (e : Env) (P₀ P₁ P Q D : Core → Prop) : Prop where
  light : Spec (fun s => P₀ s.core) (forceBacklight e) (fun _ s => P₁ s.core) (fun s => D s.core)
  steal : Spec (fun s => P₁ s.core) (stealVt e) (fun _ s => P s.core) (fun s => D s.core)
  event : ∀ ev : Event, ev.ToSession →
    Spec (fun s => P s.core) (performEvent ev) (fun _ s => P s.core) (fun s => D s.core)
  restore : Spec (fun s => P s.core) restoreVt (fun _ s => Q s.core) (fun s => D s.core)
  again : Spec (fun s => Q s.core) restoreVt (fun _ s => Q s.core) (fun s => D s.core)
  taken : ∀ c, P c → D c
  back : ∀ c, Q c → D c

namespace Takeover

variable {e : Env} {P₀ P₁ P Q D : Core → Prop}

/-- The display is taken, and the card is open. -/
def Held (P : Core → Prop) (s : Sys) : Prop := P s.core ∧ 0 ≤ s.drm.drmFd

theorem still (h : Takeover e P₀ P₁ P Q D) {α : Type} {m : Cmd α} (hm : Still m) :
  Spec (Held P) m (fun _ => Held P) (fun s => D s.core)
  := by
  apply hm.keeps (P := fun p => P p.1 ∧ 0 ≤ p.2)
  intro s hs
  apply h.taken _ hs.1

theorem checked (h : Takeover e P₀ P₁ P Q D) {α : Type} {good : ℤ → Bool} {otherwise : Cmd α}
    {next : ℤ → Cmd α} {post : α → Sys → Prop}
    (hotherwise : Spec (Held P) otherwise post (fun s => D s.core))
    (hnext : ∀ r, Spec (Held P) (next r) post (fun s => D s.core)) :
  Spec (Held P) (checked good otherwise next) post (fun s => D s.core)
  := by
  apply checked_spec (P := fun p => P p.1 ∧ 0 ≤ p.2) _ hotherwise hnext
  intro s hs
  apply h.taken _ hs.1

/-- An open card is given up together with the display. -/
theorem cleanupDrm (h : Takeover e P₀ P₁ P Q D) :
  Spec (Held P) cleanupDrm (fun _ s => Q s.core) (fun s => D s.core)
  := by
  have hread : Spec (Held P) (Prog.read fun s : Sys => s.drm)
      (fun d s => Held P s ∧ 0 ≤ d.drmFd) (fun s => D s.core) := by
    apply Spec.step
    · intro s hs
      apply h.taken _ hs.1
    · intro s hs
      exact ⟨hs, hs.2⟩
  apply Spec.bind hread
  intro d
  split
  case isTrue hneg =>
    intro s hs
    have := hs.2
    omega
  case isFalse =>
    apply Spec.strengthen (p := Held P) _ (fun _ hs => hs.1)
    apply Spec.bind (h.still (callIf_still _))
    intro _
    apply Spec.bind (h.still call_still)
    intro _
    apply Spec.bind (h.still (releaseBuffer_still 0))
    intro _
    apply Spec.bind (h.still (releaseBuffer_still 1))
    intro _
    have hclose : Spec (Held P) closeDrm (fun _ s => P s.core) (fun s => D s.core) := by
      apply (closeDrm_inert.keeps (P := P) fun s => h.taken s.core).strengthen
      intro s hs
      apply hs.1
    apply Spec.bind hclose
    intro _
    apply h.restore

/-- The outcome of a part of `init_drm`: it goes on with the display taken, or stops with the
display given back. -/
def Outcome (P Q : Core → Prop) (ok : Prop) (s : Sys) : Prop :=
  (ok → Held P s) ∧ (¬ ok → Q s.core)

theorem bufferFailed (h : Takeover e P₀ P₁ P Q D) (i : ℕ) :
  Spec (Held P) (bufferFailed i) (fun ok => Outcome P Q ok) (fun s => D s.core)
  := by
  unfold Vt.bufferFailed
  split
  · apply Spec.bind (h.still (read_still _))
    intro d
    apply Spec.bind (h.still (callIf_still _))
    intro _
    apply Spec.bind (h.still (callIf_still _))
    intro _
    refine Spec.bind (h.still (setDrm_still ?_)) ?_
    · intro _
      rfl
    · intro _
      apply Spec.pure
      intro s hs
      exact ⟨fun _ => hs, by simp⟩
  · apply Spec.bind h.cleanupDrm
    intro _
    apply Spec.pure
    intro s hs
    exact ⟨by simp, fun _ => hs⟩

theorem setupBuffer (h : Takeover e P₀ P₁ P Q D) (i : ℕ) :
  Spec (Held P) (setupBuffer i) (fun ok => Outcome P Q ok) (fun s => D s.core)
  := by
  apply h.checked (h.bufferFailed i)
  intro _
  apply Spec.bind (h.still ask_still)
  intro handle
  refine Spec.bind (h.still (setDrm_still ?_)) ?_
  · intro _
    rfl
  intro _
  apply h.checked (h.bufferFailed i)
  intro _
  apply Spec.bind (h.still ask_still)
  intro fb
  refine Spec.bind (h.still (setDrm_still ?_)) ?_
  · intro _
    rfl
  intro _
  apply h.checked (h.bufferFailed i)
  intro _
  apply Spec.bind (h.still ask_still)
  intro address
  refine Spec.bind (h.still (setDrm_still ?_)) ?_
  · intro _
    rfl
  intro _
  split
  · apply h.bufferFailed i
  · apply Spec.pure
    intro s hs
    exact ⟨fun _ => hs, by simp⟩

theorem showFirst (h : Takeover e P₀ P₁ P Q D) :
  Spec (Held P) showFirst (fun r => Outcome P Q (0 ≤ r)) (fun s => D s.core)
  := by
  refine Spec.bind (h.still (setDrm_still ?_)) ?_
  · intro _
    rfl
  intro _
  apply Spec.bind (h.still call_still)
  intro _
  apply Spec.bind (h.still ask_still)
  intro shown
  split
  · apply Spec.bind h.cleanupDrm
    intro _
    apply Spec.pure
    intro s hs
    exact ⟨by omega, fun _ => hs⟩
  · apply Spec.pure
    intro s hs
    exact ⟨fun _ => hs, by omega⟩

/-- `init_drm` succeeds with the display taken and the card open, or fails with the display
taken or given back. -/
theorem initDrm (h : Takeover e P₀ P₁ P Q D) :
  Spec (fun s => P₁ s.core) (initDrm e)
    (fun r s => (0 ≤ r → Held P s) ∧ (r < 0 → P s.core ∨ Q s.core)) (fun s => D s.core)
  := by
  have hfailed : ∀ {pre : Sys → Prop}, (∀ s, pre s → P s.core ∨ Q s.core) →
      Spec pre (pure (-1) : Cmd ℤ)
        (fun r s => (0 ≤ r → Held P s) ∧ (r < 0 → P s.core ∨ Q s.core)) (fun s => D s.core) := by
    intro pre hpre
    apply Spec.pure
    intro s hs
    exact ⟨by omega, fun _ => hpre s hs⟩
  apply Spec.bind h.steal
  intro stolen
  split
  · apply hfailed
    intro s hs
    left
    apply hs
  apply Spec.bind (findCard_spec (fun c => h.taken c) 16)
  intro found
  cases found with
  | false =>
      apply Spec.bind (h.restore.strengthen (fun _ hs => hs.1))
      intro _
      apply hfailed
      intro s hs
      right
      apply hs
  | true =>
      apply Spec.strengthen (p := Held P) _ (fun _ hs => ⟨hs.1, hs.2 rfl⟩)
      refine Spec.bind (h.still (setDrm_still ?_)) ?_
      · intro _
        rfl
      intro _
      apply Spec.bind (h.setupBuffer 0)
      intro first
      cases first with
      | false =>
          apply hfailed
          intro s hs
          right
          apply hs.2
          simp
      | true =>
          apply Spec.bind ((h.setupBuffer 1).strengthen (fun s hs => hs.1 rfl))
          intro second
          cases second with
          | false =>
              apply hfailed
              intro s hs
              right
              apply hs.2
              simp
          | true =>
              apply (h.showFirst.strengthen (fun s hs => hs.1 rfl)).weaken
              intro r s hs
              exact ⟨hs.1, fun hr => .inr (hs.2 (by omega))⟩

/-- The main loop keeps the display taken. -/
theorem uiLoop (h : Takeover e P₀ P₁ P Q D) :
  Spec (Held P) (uiLoop e) (fun _ => Held P) (fun s => D s.core)
  := by
  apply Spec.bind (h.still (read_still _))
  intro s
  dsimp only
  refine Spec.bind (q := fun _ => Held P) (Spec.forEach ?_) ?_
  · intro ev hev
    apply (performEvent_drmInert ev).frame (h.event ev ?_) (0 ≤ ·)
    apply Gui.runFrames_toSession _ _ _ ev hev
  · intro _
    apply Spec.pure
    intro s hs
    apply hs

/-- At the end of `main` the display is given back, or still taken if it returns. -/
theorem mainArmed (h : Takeover e P₀ P₁ P Q D) :
  Spec (fun s => P₀ s.core) (mainArmed e)
    (fun how s => Q s.core ∨ how = .returned ∧ P s.core) (fun s => D s.core)
  := by
  apply Spec.bind h.light
  intro _
  apply Spec.bind h.initDrm
  intro drm
  split
  case isTrue hneg =>
    apply Spec.pure
    intro s hs
    obtain hP | hQ := hs.2 hneg
    · exact .inr ⟨rfl, hP⟩
    · exact .inl hQ
  case isFalse hok =>
    apply Spec.strengthen (p := Held P) _ (fun s hs => hs.1 (by omega))
    apply Spec.bind (h.still ask_still)
    intro rawfb
    split
    · apply Spec.pure
      intro s hs
      exact .inr ⟨rfl, hs.1⟩
    · apply Spec.bind h.uiLoop
      intro g
      apply Spec.bind h.cleanupDrm
      intro _
      split
      · apply Spec.pure
        intro s hs
        exact .inl hs
      · apply Spec.pure
        intro s hs
        exact .inl hs

/-- At its end the process has given the display back. -/
theorem armed (h : Takeover e P₀ P₁ P Q D) :
  Spec (fun s => P₀ s.core) (armed e) (fun _ s => Q s.core) (fun s => D s.core)
  := by
  apply Spec.bind h.mainArmed
  intro how
  cases how with
  | returned =>
      apply (h.again.or h.restore).strengthen
      intro s hs
      obtain hQ | ⟨-, hP⟩ := hs
      · exact .inl hQ
      · exact .inr hP
  | exited =>
      apply Spec.pure
      intro s hs
      obtain hQ | ⟨hno, -⟩ := hs
      · apply hQ
      · cases hno

end Takeover

end Vt

end LnxCad
