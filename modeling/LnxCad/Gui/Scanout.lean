import LnxCad.Gui.Touches

/-!
# Sleep and the screen

`execute_sleep` is handed the framebuffer of `front_buf` and puts it on the screen when the
machine wakes up.  That is the framebuffer on the screen before, except in one frame: when a
flip to the second buffer fails, the screen goes back to the first, while `front_buf` names
the second until the next frame ends.
-/

namespace LnxCad

namespace Gui

/-! ### The display and the calls -/

/-- The calls of `execute_sleep`: the framebuffer handed over, and the one on the screen. -/
def sleeps (log : List Event) : List (ℕ × ℕ) :=
  log.filterMap fun e =>
    match e with
    | .executeSleep fb shown => some (fb, shown)
    | _ => none

/-- The display and the calls so far. -/
def sleepView (g : Gui) : Display × List (ℕ × ℕ) := (g.display, sleeps g.log)

/-- What a call does to the display and the calls. -/
def sleepOnce (v : Display × List (ℕ × ℕ)) : Display × List (ℕ × ℕ) :=
  ({ v.1 with scanout := v.1.frontBuf }, v.2 ++ [(v.1.frontBuf, v.1.scanout)])

/-- Some calls are made, and the display does not change otherwise. -/
def Dozes (g g' : Gui) : Prop := ∃ k, sleepView g' = sleepOnce^[k] (sleepView g)

namespace Dozes

variable {g g' g'' : Gui}

theorem refl (g : Gui) :
  Dozes g g
  := ⟨0, rfl⟩

theorem trans (h : Dozes g g') (h' : Dozes g' g'') :
  Dozes g g''
  := by
  obtain ⟨k, hk⟩ := h
  obtain ⟨k', hk'⟩ := h'
  use k' + k
  rw [hk', hk, Function.iterate_add_apply]

/-- A step that does not touch the display makes no call. -/
theorem touches {as : List Aspect} (h : Touches as g g') (has : .display ∉ as) :
  Dozes g g'
  := by
  use 0
  have hdisplay : g'.display = g.display := h.same .display has
  have hsleeps : sleeps g'.log = sleeps g.log := by
    apply h.emits.filterMap_eq
    intro e he
    cases e <;> first | rfl | exact absurd he has
  rw [sleepView, hdisplay, hsleeps]
  rfl

theorem executeSleep (g : Gui) :
  Dozes g g.executeSleep
  := by
  use 1
  simp [sleepView, sleepOnce, sleeps, Gui.executeSleep, emit]

end Dozes

variable {c : Cfg} {i : FrameIn}

theorem menuActivate_dozes (g : Gui) (code : ℕ) :
  Dozes g (g.menuActivate code)
  := by
  have hpower : Dozes g g.powerActivate := by
    unfold powerActivate
    split_ifs
    · apply (Dozes.executeSleep g).trans
      exact ⟨0, rfl⟩
    · exact ⟨0, by simp [sleepView, sleeps, emit, stop]⟩
    · exact ⟨0, by simp [sleepView, sleeps, emit, stop]⟩
    · apply Dozes.refl
  unfold menuActivate
  dsimp only
  refine Dozes.trans ?_ (Dozes.touches (touchKeyboard_touches _) (by simp))
  split_ifs
  · apply Dozes.touches (tmActivate_touches g) (by simp)
  · apply hpower
  · apply Dozes.touches (trigger_touches g _) (by simp)
  · apply Dozes.refl

theorem pressKey_dozes (g : Gui) (code unicode : ℕ) :
  Dozes g (pressKey code unicode g)
  := by
  apply pressKey_cases (P := Dozes g)
  · apply Dozes.refl
  · apply Dozes.touches (escape_touches g) (by simp)
  · intro _ _
    apply Dozes.touches (promptActivate_touches g code) (by simp)
  · apply Dozes.touches (changePasswordActivate_touches g code) (by simp)
  · exact ⟨0, rfl⟩
  · apply menuActivate_dozes
  · intros
    exact ⟨0, rfl⟩
  · exact ⟨0, by simp [sleepView, sleeps, emit]⟩

theorem readKeyboard_dozes (g : Gui) :
  Dozes g (readKeyboard c i g)
  := by
  have hstable : KeyStable (Dozes g) := by
    constructor
    case press =>
      intro g' code unicode h
      apply h.trans (pressKey_dozes g' code unicode)
    case emit =>
      intro g' e he h
      apply h.trans
      apply Dozes.touches (emitInput_touches g' he) (by simp)
    all_goals
      intros
      assumption
  unfold readKeyboard
  split
  · apply hstable.kbdLoop
    apply Dozes.touches (ptyDispatch_touches i g) (by simp)
  · apply Dozes.refl

theorem powerMenu_dozes (g : Gui) :
  Dozes g (powerMenu i g)
  := by
  unfold powerMenu window
  split_ifs
  · apply runStages_invariant (P := Dozes g) _ (Dozes.refl g)
    simp only [List.forall_mem_cons]
    refine ⟨?_, ?_, ?_, by simp⟩
    · intro g' h
      apply h.trans
      unfold sleepButton
      split
      · exact ⟨1, by simp [sleepView, sleepOnce, sleeps, Gui.executeSleep, emit]⟩
      · apply Dozes.refl
    · intro g' h
      apply h.trans
      unfold restartButton
      split
      · exact ⟨0, by simp [sleepView, sleeps, emit, stop]⟩
      · apply Dozes.refl
    · intro g' h
      apply h.trans
      unfold shutdownButton
      split
      · exact ⟨0, by simp [sleepView, sleeps, emit, stop]⟩
      · apply Dozes.refl
  · apply Dozes.refl
  · apply Dozes.refl

/-- Up to the end of a frame, the display changes by calls only. -/
theorem beforeEnd_dozes (g : Gui) :
  Dozes g (runStages ((beforeEnd c i).map Prod.fst) g)
  := by
  refine runStages_invariant (P := Dozes g) ?_ (Dozes.refl g)
  have hstages : ∀ f ∈ (beforeEnd c i).map Prod.fst, ∀ g, Dozes g (f g) := by
    refine stages_cases (beforeEnd_subset c i) [.display] ?_ ?_
    · intro f as ht has g
      apply Dozes.touches (ht g) (has .display (by simp))
    · have hloud : (beforeEnd c i).filter (fun p => [Aspect.display].any (fun a => a ∈ p.2))
          = [(readKeyboard c i, .term :: .dev :: keyAspects),
            (powerMenu i, [.panels, .display, .power, .running])] := rfl
      simp only [hloud, List.forall_mem_cons]
      exact ⟨readKeyboard_dozes, powerMenu_dozes, by simp⟩
  intro f hf g' h
  apply h.trans (hstages f hf g')

/-! ### Frames -/

theorem sleepOnce_iterate_succ (k : ℕ) (v : Display × List (ℕ × ℕ)) :
  sleepOnce^[k + 1] v = ({ v.1 with scanout := v.1.frontBuf },
    v.2 ++ (v.1.frontBuf, v.1.scanout) :: List.replicate k (v.1.frontBuf, v.1.frontBuf))
  := by
  induction k with
  | zero => rfl
  | succ k ih =>
      rw [Function.iterate_succ_apply', ih]
      simp [sleepOnce, List.replicate_succ']

/-- The frames end with what is on the screen, or with the first buffer there after the
fallback to it. -/
structure OnScreen (d : Display) : Prop where
  frontBuf : d.frontBuf ≤ 1
  double : d.doubleBuffered = true → d.scanout = d.frontBuf
  single : d.doubleBuffered = false → d.scanout = 0

/-- `front_buf` names the second buffer after a fallback to the first. -/
def Stale (d : Display) : Prop := d.doubleBuffered = false ∧ d.frontBuf = 1

theorem OnScreen.scanout {d : Display} (h : OnScreen d) (hstale : ¬ Stale d) :
  d.scanout = d.frontBuf
  := by
  cases hdouble : d.doubleBuffered with
  | true => exact h.double hdouble
  | false =>
      have := h.single hdouble
      have := h.frontBuf
      have : d.frontBuf ≠ 1 := fun h => hstale ⟨hdouble, h⟩
      omega

theorem OnScreen.present {d : Display} (h : OnScreen d) (i : FrameIn) (frameCount : ℕ) :
  OnScreen (present i frameCount d)
  := by
  have hfront := h.frontBuf
  unfold Gui.present
  cases hdouble : d.doubleBuffered with
  | true =>
      simp only [if_true]
      split
      · refine ⟨?_, fun _ => rfl, fun h => ?_⟩
        · dsimp only
          omega
        · cases h
      · refine ⟨?_, fun h => ?_, fun _ => rfl⟩
        · dsimp only
          omega
        · cases h
  | false =>
      refine ⟨by simp, fun h => ?_, fun _ => h.single hdouble⟩
      dsimp only at h
      rw [if_neg (by simp), hdouble] at h
      cases h

/-- A frame calls `execute_sleep`. -/
def CallsSleep (c : Cfg) (i : FrameIn) (g : Gui) : Prop :=
  sleeps (frame c i g).log ≠ sleeps g.log

/-- Every call is handed the framebuffer on the screen. -/
def SleepsShown (g : Gui) : Prop := ∀ p ∈ sleeps g.log, p.1 = p.2

theorem endFrame_display (g : Gui) :
  (endFrame i g).display = present i g.frameCount g.display ∧ sleeps (endFrame i g).log = sleeps g.log
  := by
  have hclose : ∀ g : Gui, g.closeCurrentPty.display = g.display
      ∧ g.closeCurrentPty.frameCount = g.frameCount ∧ sleeps g.closeCurrentPty.log = sleeps g.log := by
    intro g
    unfold closeCurrentPty
    split
    · exact ⟨rfl, rfl, by simp [sleeps, emit]⟩
    · exact ⟨rfl, rfl, rfl⟩
  obtain ⟨hdisplay, hcount, hsleeps⟩ := hclose g
  unfold endFrame
  split
  · refine ⟨?_, hsleeps⟩
    dsimp only
    rw [hdisplay, hcount]
  · exact ⟨rfl, rfl⟩

/-- A frame makes some calls, and then shows a buffer. -/
theorem frame_sleeps (c : Cfg) (i : FrameIn) (g : Gui) :
  ∃ k n, (frame c i g).display = present i n (sleepOnce^[k] (sleepView g)).1
    ∧ sleeps (frame c i g).log = (sleepOnce^[k] (sleepView g)).2
  := by
  obtain ⟨k, hk⟩ := beforeEnd_dozes (c := c) (i := i) g
  obtain ⟨hdisplay, hsleeps⟩ :=
    endFrame_display (i := i) (runStages ((beforeEnd c i).map Prod.fst) g)
  refine ⟨k, (runStages ((beforeEnd c i).map Prod.fst) g).frameCount, ?_⟩
  rw [frame_eq_endFrame, ← hk, hdisplay, hsleeps]
  exact ⟨rfl, rfl⟩

/-- The display is kept, and the calls are handed what it shows, exactly if there is no call
while `front_buf` is stale. -/
theorem frame_sleepsShown_iff {g : Gui} (h : OnScreen g.display) :
  SleepsShown (frame c i g) ↔ SleepsShown g ∧ (Stale g.display → ¬ CallsSleep c i g)
  := by
  obtain ⟨k, n, -, hsleeps⟩ := frame_sleeps c i g
  unfold SleepsShown CallsSleep
  rw [hsleeps]
  cases k with
  | zero => simp [sleepView]
  | succ k =>
      rw [sleepOnce_iterate_succ]
      by_cases hstale : Stale g.display
      · have hne : ¬ g.display.frontBuf = g.display.scanout := by
          rw [hstale.2, h.single hstale.1]
          omega
        have hcalls : g.sleepView.2 ++ (g.sleepView.1.frontBuf, g.sleepView.1.scanout)
            :: List.replicate k (g.sleepView.1.frontBuf, g.sleepView.1.frontBuf) ≠ sleeps g.log := by
          simp [sleepView]
        refine iff_of_false ?_ (fun hboth => hboth.2 hstale hcalls)
        intro hshown
        exact hne (hshown (g.display.frontBuf, g.display.scanout) (by simp [sleepView]))
      · have heq := h.scanout hstale
        simp only [sleepView, hstale, heq, false_implies, and_true, List.mem_append, List.mem_cons,
          List.mem_replicate]
        grind

theorem frame_onScreen {g : Gui} (h : OnScreen g.display)
    (hcalls : Stale g.display → ¬ CallsSleep c i g) :
  OnScreen (frame c i g).display
  := by
  obtain ⟨k, n, hdisplay, hsleeps⟩ := frame_sleeps c i g
  rw [hdisplay]
  apply OnScreen.present
  cases k with
  | zero => exact h
  | succ k =>
      rw [sleepOnce_iterate_succ] at hsleeps ⊢
      by_cases hstale : Stale g.display
      · exfalso
        apply hcalls hstale
        rw [CallsSleep, hsleeps]
        simp [sleepView]
      · have heq := h.scanout hstale
        refine ⟨h.frontBuf, fun _ => rfl, ?_⟩
        intro hsingle
        exact heq.symm.trans (h.single hsingle)

/-! ### Runs -/

theorem start_display (c : Cfg) (s : Start) :
  OnScreen (start c s).display ∧ SleepsShown (start c s)
  := by
  unfold start
  dsimp only
  have hlaunch : ∀ (g : Gui) i site mode, (g.launchTerminalShell i site mode).display = g.display
      ∧ sleeps (g.launchTerminalShell i site mode).log = sleeps g.log := by
    intro g i site mode
    unfold launchTerminalShell
    split
    · exact ⟨rfl, by simp [sleeps, emit]⟩
    · exact ⟨rfl, rfl⟩
  have hinit : ∀ b, OnScreen { doubleBuffered := b } := fun b => ⟨by simp, fun _ => rfl, fun _ => rfl⟩
  split
  · rw [(hlaunch _ _ _ _).1, SleepsShown, (hlaunch _ _ _ _).2]
    exact ⟨hinit _, by simp [sleeps]⟩
  · exact ⟨hinit _, by simp [SleepsShown, sleeps]⟩

/-- In every run, every call of `execute_sleep` is handed the framebuffer on the screen,
exactly if none is made in a frame that begins with a single buffer and `front_buf` naming
the second, which is the frame after a failed flip to the second. -/
theorem sleepsShown_iff (c : Cfg) (s : Start) (is : List FrameIn) :
  SleepsShown (runFrames c is (start c s))
    ↔ RunMeets Gui.running (frame c) (fun i g => Stale g.display → ¬ CallsSleep c i g) is (start c s)
  := by
  obtain ⟨hdisplay, hshown⟩ := start_display c s
  have hmono : ∀ i g, SleepsShown (frame c i g) → SleepsShown g := by
    intro i g h p hp
    apply h
    obtain ⟨es, hlog, -⟩ := frame_emits c i g
    rw [hlog, sleeps, List.filterMap_append]
    exact List.mem_append_left _ hp
  have hiff : SleepsShown (runFrames c is (start c s))
      ↔ SleepsShown (start c s) ∧ RunMeets Gui.running (frame c)
        (fun i g => Stale g.display → ¬ CallsSleep c i g) is (start c s) := by
    apply runWhile_iff_meets (P := fun g : Gui => OnScreen g.display) hmono
    · intro i g _ h
      exact frame_sleepsShown_iff h
    · intro i g _ hcalls h
      exact frame_onScreen h hcalls
    · exact hdisplay
  rw [hiff]
  simp [hshown]

/-- The power menu is opened with the keyboard. -/
def openPowerMenu : FrameIn := { keys := [press keyDown, press keyDown, press keyEnter] }

/-- A frame whose flip fails. -/
def flipFails : FrameIn := { flipOk := false }

/-- The flip to the second buffer fails in the third frame, and in the fourth Enter asks for
sleep: the first buffer is on the screen, and the second is handed over. -/
theorem not_sleepsShown_desktop :
  ¬ SleepsShown (runFrames desktop [openPowerMenu, {}, flipFails, pressEnter] desktopStart)
    ∧ sleeps (runFrames desktop [openPowerMenu, {}, flipFails, pressEnter] desktopStart).log = [(1, 0)]
  := by
  have hsleeps : sleeps (runFrames desktop [openPowerMenu, {}, flipFails, pressEnter]
      desktopStart).log = [(1, 0)] := by decide +kernel
  refine ⟨?_, hsleeps⟩
  intro h
  have := h (1, 0) (by simp [hsleeps])
  simp at this

end Gui

end LnxCad
