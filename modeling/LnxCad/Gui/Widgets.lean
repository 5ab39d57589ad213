import LnxCad.Gui.Frame

/-!
# Panels, widget by widget

A relation between states that is reflexive and transitive is followed by a panel if it is
followed by what its widgets do: the windows, and the order in which they are drawn, are dealt
with here once.  A property of states is such a relation too (`Carries`).  The toggles that may
open the root prompt come with what is known where they are drawn.
-/

namespace LnxCad

namespace Gui

variable {R : Gui → Gui → Prop} [IsPreorder Gui R] {c : Cfg} {i : FrameIn} {g : Gui}

theorem window_rel {w : Window} {body : Gui → Gui} (h : i.nkBegin w = true → R g (body g)) :
  R g (window i w body g)
  := by
  unfold window
  split
  case isTrue hbegin => exact h hbegin
  case isFalse => apply refl_of R

/-! ### The main menu -/

/-- The buttons of the main menu, in the order in which they are drawn. -/
def menuStages (c : Cfg) (i : FrameIn) : List (Gui → Gui) :=
  [menuLock c i, menuSwitchUser c i, menuSignOut i, menuChangePassword i, menuTaskManager c i,
    menuRunCommand i, menuCancel i]

theorem mainMenu_rel (hbuttons : ∀ f ∈ menuStages c i, ∀ g, R g (f g))
    (hdrop : ∀ g, R g (g.trigger (-1))) :
  R g (mainMenu c i g)
  := by
  unfold mainMenu
  split
  · apply window_rel
    intro _
    unfold menuButtons
    split_ifs
    · apply runStages_rel hbuttons
    · apply hdrop
    · apply refl_of R
  · apply refl_of R

/-! ### The terminal -/

theorem terminalToggle_rel
    (hoff : R g { g.closeCurrentPty with root.terminalRootMode := false })
    (hon : g.root.rootAuthorized = true → R g { g.closeCurrentPty with root.terminalRootMode := true })
    (hlaunch : ∀ g mode, R g (g.launchTerminalShell i .toggle mode))
    (hopen : i.nkButton .terminalRoot = true → g.root.terminalRootMode = false →
      g.root.rootAuthorized = false → R g (g.openPrompt .terminal)) :
  R g (terminalToggle i g)
  := by
  unfold terminalToggle
  dsimp only
  split_ifs with hbutton hmode hauth
  · apply trans_of R hoff (hlaunch _ _)
  · apply trans_of R (hon hauth) (hlaunch _ _)
  · apply hopen hbutton
    · simpa using hmode
    · simpa using hauth
  · apply refl_of R

theorem terminalModes_rel (hmode : ∀ b mode g, R g (terminalModeButton i b mode g)) :
  R g (terminalModes c i g)
  := by
  unfold terminalModes
  dsimp only
  split
  · apply trans_of R (hmode _ _ _) (hmode _ _ _)
  · apply hmode

/-- The terminal panel is drawn. -/
def terminalDrawn (c : Cfg) (g : Gui) : Bool :=
  g.panels.showTerminal && !g.panels.showPasswordPrompt && c.termVte

theorem terminalPanel_rel
    (htoggle : terminalDrawn c g = true → i.nkBegin .terminalTitle = true → R g (terminalToggle i g))
    (hmodes : ∀ g, R g (terminalModes c i g))
    (hclose : ∀ g : Gui, R g { g with panels.showTerminal := false }) :
  R g (terminalPanel c i g)
  := by
  have hbutton : ∀ b g, R g (closeTerminal i b g) := by
    intro b g
    unfold closeTerminal
    split
    · apply hclose
    · apply refl_of R
  unfold terminalPanel
  split
  case isTrue hdrawn =>
    simp only [runStages_cons, runStages_nil]
    refine trans_of R ?_ (window_rel fun _ => hbutton _ _)
    refine trans_of R ?_ (window_rel fun _ => hmodes _)
    apply window_rel
    intro hbegin
    apply trans_of R (htoggle hdrawn hbegin) (hbutton _ _)
  case isFalse => apply refl_of R

/-! ### The task manager -/

theorem taskManagerToggle_rel
    (hoff : R g { g with root.taskmgrRootMode := false })
    (hon : g.root.rootAuthorized = true → R g { g with root.taskmgrRootMode := true })
    (hopen : i.nkButton .taskManagerRoot = true → g.root.taskmgrRootMode = false →
      g.root.rootAuthorized = false → R g (g.openPrompt .taskManager)) :
  R g (taskManagerToggle i g)
  := by
  unfold taskManagerToggle
  split_ifs with hbutton hmode hauth
  · exact hoff
  · exact hon hauth
  · apply hopen hbutton
    · simpa using hmode
    · simpa using hauth
  · apply refl_of R

/-- The task manager is drawn. -/
def taskManagerDrawn (g : Gui) : Bool := g.panels.showTaskManager && !g.panels.showPasswordPrompt

theorem taskManagerPanel_rel
    (htoggle : taskManagerDrawn g = true → i.nkBegin .taskManagerTitle = true →
      R g (taskManagerToggle i g))
    (hbody : ∀ g, R g (taskManagerBody c i g))
    (hclose : ∀ g : Gui, R g { g with panels.showTaskManager := false })
    (hconsume : ∀ g : Gui, R g g.consume) :
  R g (taskManagerPanel c i g)
  := by
  have hbar : ∀ g, R g (taskManagerBar i g) := by
    intro g
    unfold taskManagerBar closeTaskManager
    split
    · apply trans_of R (hclose g) (hconsume _)
    · apply refl_of R
  unfold taskManagerPanel
  split
  case isTrue hdrawn =>
    simp only [runStages_cons, runStages_nil]
    refine trans_of R ?_ (hconsume _)
    refine trans_of R ?_ (window_rel fun _ => hbar _)
    refine trans_of R ?_ (window_rel fun _ => hbody _)
    apply window_rel
    intro hbegin
    unfold taskManagerTitle
    dsimp only
    split
    · apply trans_of R (htoggle hdrawn hbegin) (hclose _)
    · exact htoggle hdrawn hbegin
  case isFalse => apply refl_of R

/-! ### The Run dialog -/

theorem runAsRootToggle_rel
    (hoff : R g { g with root.runAsRoot := false })
    (hon : g.root.rootAuthorized = true → R g { g with root.runAsRoot := true })
    (hopen : i.nkButton .runAsRoot = true → g.root.runAsRoot = false →
      g.root.rootAuthorized = false → R g (g.openPrompt .runCommand)) :
  R g (runAsRootToggle i g)
  := by
  unfold runAsRootToggle
  split_ifs with hbutton hmode hauth
  · exact hoff
  · exact hon hauth
  · apply hopen hbutton
    · simpa using hmode
    · simpa using hauth
  · apply refl_of R

/-- The Run dialog is drawn. -/
def runDrawn (g : Gui) : Bool :=
  g.panels.showRun && g.locals.snap.showRun && !g.panels.showPasswordPrompt

theorem runPanel_rel
    (hclose : ∀ g : Gui, R g { g with panels.showRun := false })
    (hedit : ∀ g, R g (editCommand i g))
    (htoggle : runDrawn g = true → i.nkBegin .runCommand = true → ∀ g', g'.root = g.root →
      g'.panels.showPasswordPrompt = g.panels.showPasswordPrompt → R g' (runAsRootToggle i g'))
    (hrun : ∀ isEnterPressed g, R g (runButton i isEnterPressed g)) :
  R g (runPanel i g)
  := by
  have hbutton : ∀ b g, R g (closeRun i b g) := by
    intro b g
    unfold closeRun
    split
    · apply hclose
    · apply refl_of R
  have htitle : (window i .runCommandTitle (closeRun i .runTitleClose) g).root = g.root
      ∧ (window i .runCommandTitle (closeRun i .runTitleClose) g).panels.showPasswordPrompt
        = g.panels.showPasswordPrompt := by
    unfold window closeRun
    split_ifs
    all_goals exact ⟨rfl, rfl⟩
  unfold runPanel
  split
  case isTrue hdrawn =>
    simp only [runStages_cons, runStages_nil]
    refine trans_of R ?_ (window_rel fun _ => trans_of R (hrun _ _) (hbutton _ _))
    refine trans_of R (b := window i .runCommandTitle (closeRun i .runTitleClose) g) ?_ ?_
    · exact window_rel fun _ => hbutton _ _
    · apply window_rel
      intro hbegin
      exact trans_of R (hedit _) (htoggle hdrawn hbegin _ htitle.1 htitle.2)
  case isFalse => apply refl_of R

/-! ### The root prompt -/

theorem authenticate_rel (hclick : ∀ g, R g (submitClicked i g)) (hverify : ∀ g, R g (verify i g)) :
  R g (authenticate i g)
  := by
  unfold authenticate
  split
  · apply trans_of R (hclick g) (hverify _)
  · apply refl_of R

theorem promptPanel_rel
    (hdismiss : ∀ g : Gui, R g g.dismissPrompt)
    (hedit : ∀ g, R g (editRootPwd i g))
    (hauthenticate : ∀ g, R g (authenticate i g)) :
  R g (promptPanel i g)
  := by
  have hcancel : ∀ b g, R g (cancelPrompt i b g) := by
    intro b g
    unfold cancelPrompt
    split
    · apply hdismiss
    · apply refl_of R
  unfold promptPanel
  split
  · simp only [runStages_cons, runStages_nil]
    refine trans_of R ?_ (window_rel fun _ => trans_of R (hauthenticate _) (hcancel _ _))
    refine trans_of R ?_ (window_rel fun _ => hedit _)
    exact window_rel fun _ => hcancel _ _
  · apply refl_of R

/-! ### The dialogs -/

theorem changePasswordPanel_rel
    (hclose : ∀ g : Gui, R g { g with panels.showChangePassword := false })
    (hbody : ∀ g, R g (changePasswordBody i g))
    (happly : ∀ isEnterPressed g, R g (applyPassword i isEnterPressed g)) :
  R g (changePasswordPanel i g)
  := by
  have hbutton : ∀ b g, R g (closeChangePassword i b g) := by
    intro b g
    unfold closeChangePassword
    split
    · apply hclose
    · apply refl_of R
  unfold changePasswordPanel
  split
  · simp only [runStages_cons, runStages_nil]
    refine trans_of R ?_ (window_rel fun _ => trans_of R (happly _ _) (hbutton _ _))
    refine trans_of R ?_ (window_rel fun _ => hbody _)
    exact window_rel fun _ => hbutton _ _
  · apply refl_of R

theorem sessionButtons_rel
    {sessions : List SessionInfo} (hsession : ∀ s ∈ sessions, ∀ k g, R g (sessionButton i g k s))
    (k : ℕ) :
  R g (sessionButtons i k sessions g)
  := by
  induction sessions generalizing k g with
  | nil => apply refl_of R
  | cons s sessions ih =>
      apply trans_of R (hsession s (by simp) k g)
      apply ih
      intro s' hs'
      apply hsession s' (by simp [hs'])

theorem switchUserPanel_rel
    (hclose : ∀ g : Gui, R g { g with panels.showSwitchUser := false })
    (hsessions : ∀ g, R g (sessionButtons i 0 g.su.sessions g))
    (hnew : ∀ g, R g (newSessionButton i g)) :
  R g (switchUserPanel i g)
  := by
  have hbutton : ∀ b key g, R g (closeSwitchUser i b key g) := by
    intro b key g
    unfold closeSwitchUser
    split
    · apply hclose
    · apply refl_of R
  have hbody : ∀ g, R g (switchUserBody i g) := by
    intro g
    unfold switchUserBody
    refine trans_of R ?_ (hnew _)
    exact window_rel fun _ => hsessions g
  unfold switchUserPanel
  split
  · simp only [runStages_cons, runStages_nil]
    refine trans_of R ?_ (window_rel fun _ => hbutton _ _ _)
    refine trans_of R ?_ (window_rel fun _ => hbody _)
    exact window_rel fun _ => hbutton _ _ _
  · apply refl_of R

/-! ### The power menu -/

theorem powerMenu_rel
    (hsleep : ∀ g, R g (sleepButton i g)) (hrestart : ∀ g, R g (restartButton i g))
    (hshutdown : ∀ g, R g (shutdownButton i g)) :
  R g (powerMenu i g)
  := by
  unfold powerMenu
  split
  · apply window_rel
    intro _
    apply runStages_rel
    simp only [List.forall_mem_cons]
    exact ⟨hsleep, hrestart, hshutdown, by simp⟩
  · apply refl_of R

end Gui

end LnxCad
