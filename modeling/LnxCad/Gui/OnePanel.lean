import LnxCad.Gui.Trigger

/-!
# One panel at a time

Six panels are opened over the main menu, each by code that closes the others by hand.  Two of
these lists are too short: the terminal icon leaves an open Run dialog, and the Task Manager
button an open power menu.  Unless one of the two is met, at most one panel is open at the end
of every frame.
-/

namespace LnxCad

/-- The panels that are opened over the main menu. -/
inductive Panel where
  | taskManager
  | terminal
  | run
  | changePassword
  | switchUser
  | powerMenu
deriving DecidableEq

namespace Panels

/-- The flag of a panel. -/
def shows (p : Panels) : Panel → Bool
  | .taskManager => p.showTaskManager
  | .terminal => p.showTerminal
  | .run => p.showRun
  | .changePassword => p.showChangePassword
  | .switchUser => p.showSwitchUser
  | .powerMenu => p.showPowerMenu

/-- At most one panel is open. -/
def AtMostOne (p : Panels) : Prop := ∀ a b, p.shows a = true → p.shows b = true → a = b

/-- No panel is open that was not. -/
def Shrinks (p p' : Panels) : Prop := ∀ a, p'.shows a = true → p.shows a = true

variable {p p' p'' : Panels}

theorem Shrinks.refl (p : Panels) :
  Shrinks p p
  := fun _ h => h

theorem Shrinks.trans (h : Shrinks p p') (h' : Shrinks p' p'') :
  Shrinks p p''
  := fun a ha => h a (h' a ha)

theorem AtMostOne.shrinks (h : AtMostOne p) (hp : Shrinks p p') :
  AtMostOne p'
  := fun a b ha hb => h a b (hp a ha) (hp b hb)

/-- A single panel may be open. -/
theorem atMostOne_of_only (x : Panel) (h : ∀ a, p.shows a = true → a = x) :
  AtMostOne p
  := by
  intro a b ha hb
  rw [h a ha, h b hb]

end Panels

open Panels

namespace Gui

/-! ### What closes panels only -/

/-- No panel is opened, and no action chosen. -/
structure Closes (g g' : Gui) : Prop where
  panels : Shrinks g.panels g'.panels
  trigger : Spent g g'

namespace Closes

variable {g g' g'' : Gui}

theorem refl (g : Gui) :
  Closes g g
  := ⟨Shrinks.refl _, Spent.refl g⟩

theorem trans {u : Gui} (h : Closes g u) (h' : Closes u g') :
  Closes g g'
  := ⟨h.panels.trans h'.panels, h.trigger.trans h'.trigger⟩

instance isPreorder : IsPreorder Gui Closes where
  refl := refl
  trans _ _ _ := trans

/-- Some panels are closed. -/
theorem close (hmenu : g'.menu = g.menu) (hpanels : Shrinks g.panels g'.panels) :
  Closes g g'
  := ⟨hpanels, Or.inl (by rw [hmenu])⟩

/-- The panels stay as they are. -/
theorem keep (hpanels : g'.panels = g.panels) (htrigger : Spent g g') :
  Closes g g'
  := by
  refine ⟨?_, htrigger⟩
  rw [hpanels]
  apply Shrinks.refl

theorem touches {as : List Aspect} (h : Touches as g g') (hpanels : .panels ∉ as)
    (hmenu : .menu ∉ as) :
  Closes g g'
  := keep (h.same .panels hpanels) (Spent.touches h hmenu)

end Closes

/-! ### The keyboard -/

variable {c : Cfg} {i : FrameIn} {g : Gui}

theorem escape_shrinks (g : Gui) :
  Shrinks g.panels g.escape.panels
  := by
  unfold escape dismissPrompt
  dsimp only
  intro a
  split_ifs
  all_goals cases a <;> simp [shows, stop]

theorem changePasswordActivate_shrinks (g : Gui) (code : ℕ) :
  Shrinks g.panels (g.changePasswordActivate code).panels
  := by
  unfold changePasswordActivate
  dsimp only
  intro a
  split_ifs
  all_goals cases a <;> simp [shows, touchKeyboard, togglePasswords, submitDialog]

theorem menuActivate_shrinks (g : Gui) (code : ℕ) :
  Shrinks g.panels (g.menuActivate code).panels
  := by
  unfold menuActivate powerActivate
  dsimp only
  intro a
  split_ifs
  all_goals cases a <;> simp [shows, touchKeyboard, tmActivate, executeSleep, trigger, emit, stop]

theorem promptActivate_shrinks (g : Gui) (code : ℕ) :
  Shrinks g.panels (g.promptActivate code).panels
  := by
  unfold promptActivate dismissPrompt
  dsimp only
  intro a
  split_ifs
  all_goals cases a <;> simp [shows, touchKeyboard, submitPrompt, emit]

theorem shrinks_keyStable (p : Panels) :
  KeyStable fun g => Shrinks p g.panels
  := by
  constructor
  case press =>
    intro g code unicode h
    apply pressKey_cases (P := fun g => Shrinks p g.panels)
    · exact h
    · exact h.trans (escape_shrinks g)
    · exact fun _ _ => h.trans (promptActivate_shrinks g code)
    · exact h.trans (changePasswordActivate_shrinks g code)
    · exact h
    · exact h.trans (menuActivate_shrinks g code)
    · exact fun _ _ _ _ _ _ _ => h
    · exact h
  case terminal =>
    intro g h
    apply h.trans
    intro a
    cases a <;> simp [shows]
  case emit => exact fun _ _ _ h => h
  case shift => exact fun _ _ h => h
  case ctrl => exact fun _ _ h => h
  case dev => exact fun _ _ h => h

theorem readKeyboard_shrinks (g : Gui) :
  Shrinks g.panels (readKeyboard c i g).panels
  := by
  have hdispatch : Shrinks g.panels (ptyDispatch i g).panels := by
    unfold ptyDispatch
    intro a
    split
    · cases a <;> simp [shows]
    · exact fun h => h
  unfold readKeyboard
  split
  · exact (shrinks_keyStable g.panels).kbdLoop _ _ hdispatch
  · apply Shrinks.refl

theorem cornerIcons_shrinks (g : Gui) :
  Shrinks g.panels (cornerIcons c g).panels
  := by
  unfold cornerIcons
  dsimp only
  intro a
  split_ifs
  all_goals cases a <;> simp [shows, trigger]

/-- The input part of a frame opens no panel. -/
theorem handOver_shrinks (g : Gui) :
  Shrinks g.panels (handOver c i g).panels
  := by
  have htouch : ∀ {as : List Aspect} {g g' : Gui}, Touches as g g' → .panels ∉ as →
      Shrinks g.panels g'.panels := by
    intro as g g' ht has
    have hp : g'.panels = g.panels := ht.same .panels has
    rw [hp]
    apply Shrinks.refl
  simp only [handOver, inputStages, runStages_cons, runStages_nil]
  refine Shrinks.trans ?_ (readKeyboard_shrinks _)
  refine Shrinks.trans ?_ (htouch (clearPasswords_touches _) (by simp))
  refine Shrinks.trans ?_ (cornerIcons_shrinks _)
  refine Shrinks.trans ?_ (htouch (filterMouse_touches _) (by simp))
  refine Shrinks.trans ?_ (htouch (readMouse_touches c _) (by simp))
  refine Shrinks.trans ?_ (htouch (periodic_touches c i _) (by simp))
  exact htouch (beginFrame_touches i g) (by simp)

/-! ### The panels -/

theorem openPrompt_closes (g : Gui) (source : PromptSource) :
  Closes g (g.openPrompt source)
  := by
  refine Closes.close rfl ?_
  intro a
  cases a <;> simp [shows, openPrompt, emit]

theorem consume_closes (g : Gui) :
  Closes g g.consume
  := by
  refine Closes.keep ?_ (consume_spent g)
  exact (consume_touches g).same .panels (by simp)

theorem terminalPanel_closes (g : Gui) :
  Closes g (terminalPanel c i g)
  := by
  have hshell : ∀ b : Bool, Closes g { g.closeCurrentPty with root.terminalRootMode := b } := by
    intro b
    exact Closes.touches (closeCurrentPty_setRoot_touches g _) (by simp) (by simp)
  apply terminalPanel_rel
  · intro _ _
    apply terminalToggle_rel
    · apply hshell
    · intro _
      apply hshell
    · intro g mode
      exact Closes.touches (launchTerminalShell_touches i g _ mode) (by simp) (by simp)
    · exact fun _ _ _ => openPrompt_closes g .terminal
  · exact fun g => Closes.touches (terminalModes_touches c i g) (by simp) (by simp)
  · intro g
    refine Closes.close rfl ?_
    intro a
    cases a <;> simp [shows]

theorem taskManagerPanel_closes (g : Gui) :
  Closes g (taskManagerPanel c i g)
  := by
  apply taskManagerPanel_rel
  · intro _ _
    apply taskManagerToggle_rel
    · exact Closes.close rfl (Shrinks.refl _)
    · exact fun _ => Closes.close rfl (Shrinks.refl _)
    · exact fun _ _ _ => openPrompt_closes g .taskManager
  · intro g
    refine Closes.keep ?_ (taskManagerBody_spent g)
    exact (taskManagerBody_touches c i g).same .panels (by simp)
  · intro g
    refine Closes.close rfl ?_
    intro a
    cases a <;> simp [shows]
  · apply consume_closes

theorem runPanel_closes (g : Gui) :
  Closes g (runPanel i g)
  := by
  apply runPanel_rel
  · intro g
    refine Closes.close rfl ?_
    intro a
    cases a <;> simp [shows]
  · exact fun g => Closes.touches (editCommand_touches i g) (by simp) (by simp)
  · intro _ _ g _ _
    apply runAsRootToggle_rel
    · exact Closes.close rfl (Shrinks.refl _)
    · exact fun _ => Closes.close rfl (Shrinks.refl _)
    · exact fun _ _ _ => openPrompt_closes g .runCommand
  · intro isEnterPressed g
    exact Closes.touches (runButton_touches i g isEnterPressed) (by simp) (by simp)

theorem dismissPrompt_closes (g : Gui) :
  Closes g g.dismissPrompt
  := by
  unfold dismissPrompt
  dsimp only
  split
  · refine Closes.close rfl ?_
    intro a
    cases a <;> simp [shows]
  · refine Closes.close rfl ?_
    intro a
    cases a <;> simp [shows]

theorem verify_closes (g : Gui) :
  Closes g (verify i g)
  := by
  have hcheck : Closes g (checkPassword i g) := Closes.close rfl (Shrinks.refl _)
  have hauthorize : Closes (checkPassword i g) (checkPassword i g).authorize := by
    refine Closes.close rfl ?_
    intro a
    cases a <;> simp [shows, authorize]
  unfold verify
  dsimp only
  split
  · refine Closes.trans (hcheck.trans hauthorize) ?_
    exact Closes.touches (grant_touches i _) (by simp) (by simp)
  · exact hcheck

theorem promptPanel_closes (g : Gui) :
  Closes g (promptPanel i g)
  := by
  apply promptPanel_rel
  · apply dismissPrompt_closes
  · exact fun g => Closes.touches (editRootPwd_touches i g) (by simp) (by simp)
  · intro g
    apply authenticate_rel
    · exact fun g => Closes.touches (submitClicked_touches i g) (by simp) (by simp)
    · apply verify_closes

theorem changePasswordPanel_closes (g : Gui) :
  Closes g (changePasswordPanel i g)
  := by
  apply changePasswordPanel_rel
  · intro g
    refine Closes.close rfl ?_
    intro a
    cases a <;> simp [shows]
  · exact fun g => Closes.touches (changePasswordBody_touches i g) (by simp) (by simp)
  · intro isEnterPressed g
    exact Closes.touches (applyPassword_touches i g isEnterPressed) (by simp) (by simp)

theorem switchUserPanel_closes (g : Gui) :
  Closes g (switchUserPanel i g)
  := by
  have hhide : ∀ (p : Panels), Shrinks p { p with showSwitchUser := false } := by
    intro p a
    cases a <;> simp [shows]
  apply switchUserPanel_rel
  · exact fun g => Closes.close rfl (hhide _)
  · intro g
    apply sessionButtons_rel
    intro s _ k g
    unfold sessionButton
    split
    · exact Closes.close rfl (hhide _)
    · apply Closes.refl
  · intro g
    unfold newSessionButton
    split
    · exact Closes.close rfl (hhide _)
    · apply Closes.refl

theorem powerMenu_closes (g : Gui) :
  Closes g (powerMenu i g)
  := by
  have hhide : ∀ (p : Panels), Shrinks p { p with showPowerMenu := false } := by
    intro p a
    cases a <;> simp [shows]
  apply powerMenu_rel
  all_goals
    intro g
    simp only [sleepButton, restartButton, shutdownButton]
    split
    · exact Closes.close rfl (hhide _)
    · apply Closes.refl

/-! ### The main menu -/

/-- What holds in the menu up to the Task Manager button. -/
structure MenuInv (i : FrameIn) (g : Gui) : Prop where
  one : g.panels.AtMostOne
  taskManager : g.panels.showTaskManager = false
  terminal : g.panels.showTerminal = false
  run : g.panels.showRun = false
  power : g.menuPressed i .taskManager 4 = true → g.panels.showPowerMenu = false

theorem MenuInv.touches {g g' : Gui} {as : List Aspect} (h : MenuInv i g) (ht : Touches as g g')
    (hpanels : .panels ∉ as) (hmenu : .menu ∉ as) :
  MenuInv i g'
  := by
  have hp : g'.panels = g.panels := ht.same .panels hpanels
  have hm : g'.menu = g.menu := ht.same .menu hmenu
  obtain ⟨h1, h2, h3, h4, h5⟩ := h
  constructor
  all_goals simpa only [hp, hm, menuPressed] using by assumption

theorem used_panels (g : Gui) (action : ℤ) :
  (g.used action).panels = g.panels
  := (used_touches g action).same .panels (by simp)

theorem menuSwitchUser_menuInv (h : MenuInv i g) :
  MenuInv i (menuSwitchUser c i g)
  := by
  unfold menuSwitchUser
  split
  · constructor
    case one =>
      apply atMostOne_of_only .switchUser
      intro a
      cases a <;> simp [shows, used_panels]
    all_goals simp [used_panels]
  · exact h

theorem menuChangePassword_menuInv (h : MenuInv i g) :
  MenuInv i (menuChangePassword i g)
  := by
  unfold menuChangePassword
  split
  · constructor
    case one =>
      apply atMostOne_of_only .changePassword
      intro a
      cases a <;> simp [shows, used_panels]
    all_goals simp [used_panels]
  · exact h

theorem menuTaskManager_atMostOne (h : MenuInv i g) :
  (menuTaskManager c i g).panels.AtMostOne ∧ (menuTaskManager c i g).panels.showRun = false
  := by
  have hscan : ∀ g : Gui, (g.scan c i .opening).panels = g.panels :=
    fun g => (scan_touches c i g .opening).same .panels (by simp)
  unfold menuTaskManager
  dsimp only
  split
  case isTrue hpressed =>
    have hpower := h.power hpressed
    refine ⟨?_, rfl⟩
    apply atMostOne_of_only .taskManager
    intro a
    split_ifs
    all_goals cases a <;> simp [shows, hscan, h.terminal, hpower]
  case isFalse => exact ⟨h.one, h.run⟩

theorem menuRunCommand_atMostOne (h : g.panels.AtMostOne) :
  (menuRunCommand i g).panels.AtMostOne
  := by
  unfold menuRunCommand
  split
  · apply atMostOne_of_only .run
    intro a
    cases a <;> simp [shows, used_panels]
  · exact h

theorem menuRunCommand_showRun (h : g.panels.showRun = false)
    (hrun : g.menu.triggerAction = 7 → i.nkButton .runCommand = false)
    (htrigger : (menuRunCommand i g).menu.triggerAction = 7) :
  (menuRunCommand i g).panels.showRun = false
  := by
  have hbefore := (menuRunCommand_spent g).before htrigger (by decide)
  unfold menuRunCommand
  simp [menuPressed, hrun hbefore, hbefore, h]

/-- What holds behind the main menu. -/
structure MenuDone (g : Gui) : Prop where
  one : g.panels.AtMostOne
  terminal : g.menu.triggerAction = 7 → g.panels.showRun = false

theorem MenuDone.closes {g g' : Gui} (h : MenuDone g) (hcloses : Closes g g') :
  MenuDone g'
  := by
  refine ⟨h.one.shrinks hcloses.panels, ?_⟩
  intro htrigger
  have hbefore := hcloses.trigger.before htrigger (by decide)
  by_contra hrun
  have hshown := hcloses.panels .run (by simpa [shows] using hrun)
  simp [shows, h.terminal hbefore] at hshown

/-! ### The corner icons -/

theorem terminalIcon_atMostOne (h : MenuDone g) :
  (terminalIcon c i g).panels.AtMostOne
  := by
  have hlaunch : ∀ (g : Gui) mode, (g.launchTerminalShell i .reopen mode).panels = g.panels :=
    fun g mode => (launchTerminalShell_touches i g .reopen mode).same .panels (by simp)
  unfold terminalIcon
  dsimp only
  split
  case isTrue htrigger =>
    have hrun := h.terminal htrigger
    apply atMostOne_of_only .terminal
    intro a
    split_ifs
    all_goals cases a <;> simp [shows, hlaunch, hrun]
  case isFalse => exact h.one

theorem powerIcon_atMostOne (h : g.panels.AtMostOne) :
  (powerIcon g).panels.AtMostOne
  := by
  unfold powerIcon
  split
  · apply atMostOne_of_only .powerMenu
    intro a
    cases a <;> simp [shows]
  · exact h

/-! ### Frames and runs -/

/-- No panel is opened by code that leaves another open: the Task Manager button is not pressed
while the power menu is open, nor the terminal icon chosen while the Run dialog is open or being
opened. -/
def OpensAlone (c : Cfg) (i : FrameIn) (g : Gui) : Prop :=
  let h := handOver c i g
  (menuDrawn i h && h.menuPressed i .taskManager 4 && h.panels.showPowerMenu) = false
    ∧ (h.menu.triggerAction == 7
        && (h.panels.showRun || menuDrawn i h && i.nkButton .runCommand)) = false

instance OpensAlone.decidable (c : Cfg) (i : FrameIn) (g : Gui) : Decidable (OpensAlone c i g) :=
  inferInstanceAs (Decidable (_ ∧ _))

theorem menuStages_menuDone
    (h : MenuInv i g) (hrun : g.menu.triggerAction = 7 → i.nkButton .runCommand = false) :
  MenuDone (runStages (menuStages c i) g)
  := by
  have hup : MenuInv i (runStages
      [menuLock c i, menuSwitchUser c i, menuSignOut i, menuChangePassword i] g) := by
    apply runStages_invariant _ h
    simp only [List.forall_mem_cons]
    refine ⟨?_, fun g h => menuSwitchUser_menuInv h, ?_, fun g h => menuChangePassword_menuInv h,
      by simp⟩
    · exact fun g h => h.touches (menuLock_touches c i g) (by simp) (by simp)
    · exact fun g h => h.touches (menuSignOut_touches i g) (by simp) (by simp)
  have hspent : Spent g (menuTaskManager c i (runStages
      [menuLock c i, menuSwitchUser c i, menuSignOut i, menuChangePassword i] g)) := by
    refine Spent.trans ?_ (Spent.touches (menuTaskManager_touches c i _) (by simp))
    apply runStages_rel
    simp only [List.forall_mem_cons]
    refine ⟨?_, menuSwitchUser_spent, ?_, menuChangePassword_spent, by simp⟩
    · exact fun g => Spent.touches (menuLock_touches c i g) (by simp)
    · exact fun g => Spent.touches (menuSignOut_touches i g) (by simp)
  obtain ⟨hone, hrunOff⟩ := menuTaskManager_atMostOne (c := c) hup
  have hdone : MenuDone (menuRunCommand i (menuTaskManager c i (runStages
      [menuLock c i, menuSwitchUser c i, menuSignOut i, menuChangePassword i] g))) := by
    refine ⟨menuRunCommand_atMostOne hone, ?_⟩
    apply menuRunCommand_showRun hrunOff
    exact fun htrigger => hrun (hspent.before htrigger (by decide))
  exact hdone.closes (Closes.touches (menuCancel_touches i _) (by simp) (by simp))

theorem mainMenu_menuDone
    (h : g.panels.AtMostOne)
    (htaskManager :
      (menuDrawn i g && g.menuPressed i .taskManager 4 && g.panels.showPowerMenu) = false)
    (hrun : (g.menu.triggerAction == 7
      && (g.panels.showRun || menuDrawn i g && i.nkButton .runCommand)) = false) :
  MenuDone (mainMenu c i g)
  := by
  have hidle : MenuDone g := by
    refine ⟨h, fun htrigger => ?_⟩
    simp only [htrigger, beq_self_eq_true, Bool.true_and, Bool.or_eq_false_iff] at hrun
    exact hrun.1
  cases hmenu : menuDrawn i g with
  | true =>
      have hdrawn := hmenu
      simp only [menuDrawn, Bool.and_eq_true, Bool.not_eq_true'] at hdrawn
      rw [mainMenu_of_drawn hmenu]
      apply menuStages_menuDone
      · refine ⟨h, by simp [hdrawn], by simp [hdrawn], by simp [hdrawn], ?_⟩
        simpa [hmenu] using htaskManager
      · intro htrigger
        simp only [htrigger, hmenu, beq_self_eq_true, Bool.true_and, Bool.or_eq_false_iff] at hrun
        exact hrun.2
  | false =>
      obtain heq | heq := mainMenu_of_not_drawn (c := c) hmenu
      · rw [heq]
        refine ⟨h, fun htrigger => ?_⟩
        cases htrigger
      · rw [heq]
        exact hidle

theorem frame_atMostOne (h : g.panels.AtMostOne) (halone : OpensAlone c i g) :
  (frame c i g).panels.AtMostOne
  := by
  have hstages : stages c i = inputStages c i ++ ([mainMenu c i]
      ++ ([terminalPanel c i, taskManagerPanel c i, runPanel i, promptPanel i,
        changePasswordPanel i, switchUserPanel i, powerMenu i]
      ++ ([terminalIcon c i, powerIcon] ++ [armCooldown, endFrame i]))) := rfl
  have hmenu : MenuDone (mainMenu c i (handOver c i g)) :=
    mainMenu_menuDone (h.shrinks (handOver_shrinks g)) halone.1 halone.2
  have hpanels : ∀ g : Gui, Closes g (runStages
      [terminalPanel c i, taskManagerPanel c i, runPanel i, promptPanel i,
        changePasswordPanel i, switchUserPanel i, powerMenu i] g) := by
    apply runStages_rel
    simp only [List.forall_mem_cons]
    exact ⟨terminalPanel_closes, taskManagerPanel_closes, runPanel_closes, promptPanel_closes,
      changePasswordPanel_closes, switchUserPanel_closes, powerMenu_closes, by simp⟩
  have hend : ∀ g : Gui, (runStages [armCooldown, endFrame i] g).panels = g.panels := by
    intro g
    exact ((armCooldown_touches g).seq (C := [.mouse, .term, .display, .screen])
      (endFrame_touches i _) (by simp) (by simp)).same .panels (by simp)
  rw [frame, hstages]
  simp only [runStages_append]
  rw [hend]
  apply powerIcon_atMostOne
  apply terminalIcon_atMostOne
  exact hmenu.closes (hpanels _)

/-- In a run in which no panel is opened by code that leaves another open, at most one panel is
open at the end of every frame. -/
theorem runFrames_atMostOne
    {is : List FrameIn} (s : Start) (h : RunMeets Gui.running (frame c) (OpensAlone c) is (start c s)) :
  (runFrames c is (start c s)).panels.AtMostOne
  := by
  have hstart : (start c s).panels.AtMostOne := by
    have hpanels : (start c s).panels = {} := by
      unfold start
      dsimp only
      split
      · exact (launchTerminalShell_touches _ _ _ _).same .panels (by simp)
      · rfl
    rw [hpanels]
    apply atMostOne_of_only .terminal
    intro a
    cases a <;> simp [shows]
  apply runWhile_invariant_of_meets (P := fun g => g.panels.AtMostOne) _ h hstart
  intro i g _ halone hg
  exact frame_atMostOne hg halone

theorem runFrames_atMostOne_taskManager :
  RunMeets Gui.running (frame desktop) (OpensAlone desktop) [openTaskManager] desktopStart
    ∧ (runFrames desktop [openTaskManager] desktopStart).panels.shows .taskManager = true
    ∧ (runFrames desktop [openTaskManager] desktopStart).panels.AtMostOne
  := by
  have hmeets : RunMeets Gui.running (frame desktop) (OpensAlone desktop) [openTaskManager]
      desktopStart := by
    decide +kernel
  refine ⟨hmeets, by decide +kernel, ?_⟩
  exact runFrames_atMostOne ⟨7, true, true⟩ hmeets

/-- The pointer is moved to the terminal icon. -/
def moveToTerminal : FrameIn :=
  { mouse := [⟨[8, 127, 129, 8, 127, 129, 8, 127, 129, 8, 127, 146, 8, 127, 0, 8, 127, 0, 8, 100, 0],
      by decide⟩] }

/-- The left button is pressed. -/
def clickMouse : FrameIn := { mouse := [⟨[9, 0, 0], by decide⟩] }

/-- The terminal icon opens the terminal beside the Run dialog. -/
theorem not_atMostOne_terminalIcon :
  ¬ (runFrames desktop [openRun, moveToTerminal, {}, {}, clickMouse] desktopStart).panels.AtMostOne
  := by
  intro h
  have hboth := h .run .terminal (by decide +kernel) (by decide +kernel)
  cases hboth

end Gui

end LnxCad
