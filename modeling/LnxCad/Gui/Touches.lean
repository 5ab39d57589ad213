import LnxCad.Gui.Widgets
import LnxCad.Lib.Trace

/-!
# What each part of a frame touches

The state falls into aspects, one for each group of variables, and every event belongs to
one of them.  `Touches as g g'` says that going from `g` to `g'` changes only the aspects
in `as` and emits only events of theirs.  Every function of the main loop gets one lemma of
this kind; what it leaves alone then needs no further argument.
-/

namespace LnxCad

/-- The aspects of the state; the last five have events only. -/
inductive Aspect where
  | panels
  | mouse
  | keys
  | root
  | prompt
  | term
  | tm
  | focus
  | run
  | cp
  | su
  | menu
  | display
  | screen
  | dev
  | locals
  | frameCount
  | running
  | vt
  | input
  | power
  | kill
  | launch
  | execute
deriving DecidableEq

/-- The two states agree on an aspect. -/
def Same (g g' : Gui) : Aspect → Prop
  | .panels => g'.panels = g.panels
  | .mouse => g'.mouse = g.mouse
  | .keys => g'.keys = g.keys
  | .root => g'.root = g.root
  | .prompt => g'.prompt = g.prompt
  | .term => g'.term = g.term
  | .tm => g'.tm = g.tm
  | .focus => g'.focus = g.focus
  | .run => g'.run = g.run
  | .cp => g'.cp = g.cp
  | .su => g'.su = g.su
  | .menu => g'.menu = g.menu
  | .display => g'.display = g.display
  | .screen => g'.screen = g.screen
  | .dev => g'.dev = g.dev
  | .locals => g'.locals = g.locals
  | .frameCount => g'.frameCount = g.frameCount
  | .running => g'.running = g.running
  | .vt => g'.originalVt = g.originalVt
  | .input => True
  | .power => True
  | .kill => True
  | .launch => True
  | .execute => True

/-- The aspect an event belongs to. -/
def Event.aspect : Event → Aspect
  | .kbdRead _ | .kbdDispatch _ | .mouseRead _ | .mouseFeed _ => .dev
  | .nkInputKey _ _ | .nkInputUnicode _ | .vteKeyboard _ _ _ _ => .input
  | .scanProcesses => .tm
  | .kill _ => .kill
  | .closePty => .term
  | .launchShell _ _ => .launch
  | .openPrompt _ | .submitPrompt => .prompt
  | .verifyRootPassword _ _ => .root
  | .changeOwnPassword _ _ => .cp
  | .editRun _ | .runReady _ _ => .run
  | .executeCommand _ _ => .execute
  | .executeSleep _ _ => .display
  | .maintainBacklight | .executeRestart | .executeShutdown | .executeSignOut | .executeLock
  | .newSession => .power
  | .switchTo _ => .vt

/-- Only the listed aspects change, and only events of theirs are emitted. -/
structure Touches (as : List Aspect) (g g' : Gui) : Prop where
  same : ∀ a ∉ as, Same g g' a
  emits : Emits (fun e => e.aspect ∈ as) g.log g'.log

namespace Touches

variable {as bs : List Aspect} {g g' g'' : Gui}

theorem refl (as : List Aspect) (g : Gui) :
  Touches as g g
  := by
  constructor
  · intro a _
    cases a <;> trivial
  · apply Emits.refl

theorem trans (h : Touches as g g') (h' : Touches as g' g'') :
  Touches as g g''
  := by
  constructor
  · intro a ha
    have h1 := h.same a ha
    have h2 := h'.same a ha
    cases a <;> first | trivial | exact Eq.trans h2 h1
  · apply h.emits.trans h'.emits

instance isPreorder (as : List Aspect) : IsPreorder Gui (Touches as) where
  refl := refl as
  trans _ _ _ := trans

theorem mono {B : List Aspect} (h : Touches as g g') (hsub : as ⊆ B) :
  Touches B g g'
  := by
  constructor
  · intro a ha
    apply h.same a (fun h' => ha (hsub h'))
  · apply h.emits.mono
    intro e he
    apply hsub he

/-- Two steps in sequence. -/
theorem seq
    {A B C : List Aspect} (h : Touches A g g') (h' : Touches B g' g'') (hsub : A ⊆ C)
    (hsub' : B ⊆ C) :
  Touches C g g''
  := (h.mono hsub).trans (h'.mono hsub')

/-- A change without an event. -/
theorem silent (hlog : g'.log = g.log) (h : ∀ a, a ∈ as ∨ Same g g' a) :
  Touches as g g'
  := by
  constructor
  · intro a ha
    apply (h a).resolve_left ha
  · rw [hlog]
    apply Emits.refl

/-- A change with one event. -/
theorem one {e : Event} (hlog : g'.log = g.log ++ [e]) (he : e.aspect ∈ as)
    (h : ∀ a, a ∈ as ∨ Same g g' a) :
  Touches as g g'
  := by
  constructor
  · intro a ha
    apply (h a).resolve_left ha
  · rw [hlog]
    exact Emits.single he

end Touches

namespace Gui

variable (c : Cfg) (i : FrameIn) (g : Gui)

theorem emit_touches {as : List Aspect} {e : Event} (he : e.aspect ∈ as) :
  Touches as g (g.emit e)
  := by
  refine .one rfl he ?_
  intro a
  cases a <;> simp [Same, emit]

theorem emitInput_touches {e : Event} (he : e.isInput) :
  Touches [.dev, .input] g (g.emit e)
  := by
  apply emit_touches
  cases e <;> first | simp [Event.aspect]; done | cases he

theorem trigger_touches (action : ℤ) :
  Touches [.menu] g (g.trigger action)
  := by
  refine .silent rfl ?_
  intro a
  cases a <;> simp [Same, trigger]

theorem consume_touches :
  Touches [.menu] g g.consume
  := by
  unfold consume
  split
  · apply trigger_touches
  · apply Touches.refl

theorem touchKeyboard_touches :
  Touches [.keys] g g.touchKeyboard
  := by
  refine .silent rfl ?_
  intro a
  cases a <;> simp [Same, touchKeyboard]

theorem stop_touches :
  Touches [.running] g g.stop
  := by
  refine .silent rfl ?_
  intro a
  cases a <;> simp [Same, stop]

/-! ### The keyboard -/

theorem dismissPrompt_touches :
  Touches [.panels, .root] g g.dismissPrompt
  := by
  unfold dismissPrompt
  dsimp only
  split
  all_goals
    refine .silent rfl ?_
    intro a
    cases a <;> simp [Same]

theorem submitPrompt_touches :
  Touches [.prompt] g g.submitPrompt
  := by
  refine .one rfl (by simp [Event.aspect]) ?_
  intro a
  cases a <;> simp [Same, submitPrompt, emit]

theorem escape_touches :
  Touches [.panels, .root, .running] g g.escape
  := by
  unfold escape
  split_ifs
  · apply (dismissPrompt_touches g).mono
    simp
  all_goals
    refine .silent rfl ?_
    intro a
    cases a <;> simp [Same, stop]

theorem promptActivate_touches_keyboard (code : ℕ) :
  Touches [.panels, .root, .prompt] g.touchKeyboard (g.promptActivate code)
  := by
  unfold promptActivate
  dsimp only
  split_ifs
  · apply (dismissPrompt_touches _).mono
    simp
  · apply (submitPrompt_touches _).mono
    simp
  · apply (dismissPrompt_touches _).mono
    simp
  · apply (submitPrompt_touches _).mono
    simp

theorem promptActivate_touches (code : ℕ) :
  Touches [.panels, .root, .prompt, .keys] g (g.promptActivate code)
  := by
  apply (touchKeyboard_touches g).seq (promptActivate_touches_keyboard g code)
  · simp
  · simp

theorem changePasswordActivate_touches_keyboard (code : ℕ) :
  Touches [.panels, .cp, .locals] g.touchKeyboard (g.changePasswordActivate code)
  := by
  unfold changePasswordActivate
  dsimp only
  split_ifs
  all_goals
    refine .silent rfl ?_
    intro a
    cases a <;> simp [Same, togglePasswords, submitDialog]

theorem changePasswordActivate_touches (code : ℕ) :
  Touches [.panels, .cp, .locals, .keys] g (g.changePasswordActivate code)
  := by
  apply (touchKeyboard_touches g).seq (changePasswordActivate_touches_keyboard g code)
  · simp
  · simp

theorem executeSleep_touches :
  Touches [.display] g g.executeSleep
  := by
  refine .one rfl (by simp [Event.aspect]) ?_
  intro a
  cases a <;> simp [Same, executeSleep, emit]

theorem powerActivate_touches :
  Touches [.panels, .display, .power, .running] g g.powerActivate
  := by
  unfold powerActivate
  split_ifs
  · refine .one rfl (by simp [Event.aspect]) ?_
    intro a
    cases a <;> simp [Same, executeSleep, emit]
  · refine .one rfl (by simp [Event.aspect]) ?_
    intro a
    cases a <;> simp [Same, stop, emit]
  · refine .one rfl (by simp [Event.aspect]) ?_
    intro a
    cases a <;> simp [Same, stop, emit]
  · apply Touches.refl

theorem tmActivate_touches :
  Touches [.menu, .screen] g g.tmActivate
  := by
  refine .silent rfl ?_
  intro a
  cases a <;> simp [Same, tmActivate, trigger]

theorem menuActivate_touches (code : ℕ) :
  Touches [.panels, .display, .power, .running, .menu, .screen, .keys] g (g.menuActivate code)
  := by
  refine .seq (A := [.panels, .display, .power, .running, .menu, .screen]) ?_
    (touchKeyboard_touches _) (by simp) (by simp)
  split_ifs
  · apply (tmActivate_touches _).mono
    simp
  · apply (powerActivate_touches _).mono
    simp
  · apply (trigger_touches _ _).mono
    simp
  · apply Touches.refl

/-- What a key outside the terminal can touch. -/
def keyAspects : List Aspect :=
  [.panels, .root, .prompt, .keys, .cp, .su, .focus, .menu, .display, .screen, .locals,
    .running, .input, .power]

theorem keyRules_touches (code unicode : ℕ) :
  ∀ r ∈ keyRules code unicode g, Touches keyAspects g r.2
  := by
  have hescape := (escape_touches g).mono (B := keyAspects) (by simp [keyAspects])
  have hprompt := (promptActivate_touches g code).mono (B := keyAspects) (by simp [keyAspects])
  have hcp := (changePasswordActivate_touches g code).mono (B := keyAspects)
    (by simp [keyAspects])
  have hmenu := (menuActivate_touches g code).mono (B := keyAspects) (by simp [keyAspects])
  simp only [keyRules, List.forall_mem_cons]
  refine ⟨hescape, ?_, hprompt, ?_, hcp, ?_, ?_, ?_, ?_, ?_, ?_, ?_, ?_, ?_, ?_, ?_, ?_, ?_, hmenu,
    ?_, by simp⟩
  case refine_16 => apply emit_touches; simp [keyAspects, Event.aspect]
  all_goals
    refine .silent rfl ?_
    intro a
    cases a <;> simp [Same, keyAspects, touchKeyboard, submitDialog]

theorem pressKey_touches (code unicode : ℕ) :
  Touches keyAspects g (pressKey code unicode g)
  := by
  apply firstRule_cases
  · intro r hr _
    apply keyRules_touches g code unicode r hr
  · apply Touches.refl

theorem terminalKey_touches (code unicode : ℕ) :
  Touches keyAspects g (terminalKey code unicode g)
  := by
  unfold terminalKey
  split_ifs
  · refine .silent rfl ?_
    intro a
    cases a <;> simp [Same, keyAspects]
  · apply emit_touches
    simp [keyAspects, Event.aspect]
  · apply Touches.refl

theorem editKey_touches (code : ℕ) (down : Bool) :
  Touches keyAspects g (editKey code down g)
  := by
  unfold editKey
  dsimp only
  split_ifs
  all_goals
    first
      | exact Touches.refl _ _
      | exact emit_touches _ (by simp [keyAspects, Event.aspect])

theorem keyEvent_touches (ev : InputEvent) :
  Touches keyAspects g (keyEvent c ev g)
  := by
  unfold keyEvent
  dsimp only
  split_ifs
  · apply Touches.refl
  · refine .silent rfl ?_
    intro a
    cases a <;> simp [Same, keyAspects]
  · refine .silent rfl ?_
    intro a
    cases a <;> simp [Same, keyAspects]
  · apply terminalKey_touches
  · apply (editKey_touches g _ _).trans
    apply pressKey_touches
  · apply editKey_touches

theorem ptyDispatch_touches :
  Touches [.panels, .term] g (ptyDispatch i g)
  := by
  unfold ptyDispatch
  split
  · refine .silent rfl ?_
    intro a
    cases a <;> simp [Same]
  · apply Touches.refl

theorem kbdLoop_touches (pending : List InputEvent) (kbdLimit : ℕ) :
  Touches (.dev :: keyAspects) g (kbdLoop c pending kbdLimit g)
  := by
  induction pending generalizing kbdLimit g with
  | nil =>
      refine .silent rfl ?_
      intro a
      cases a <;> simp [Same, kbdLoop]
  | cons ev rest ih =>
      unfold kbdLoop
      have hread : Touches (.dev :: keyAspects) g (g.emit (.kbdRead ev)) := by
        apply emit_touches
        simp [Event.aspect]
      apply hread.trans
      dsimp only
      split
      · refine Touches.trans ?_ (ih _ _)
        refine Touches.trans (emit_touches _ (e := .kbdDispatch ev) (by simp [Event.aspect])) ?_
        apply (keyEvent_touches c _ ev).mono
        simp
      · refine .silent rfl ?_
        intro a
        cases a <;> simp [Same]

theorem readKeyboard_touches :
  Touches (.term :: .dev :: keyAspects) g (readKeyboard c i g)
  := by
  unfold readKeyboard
  split
  · apply (ptyDispatch_touches i g).seq (kbdLoop_touches c _ _ _)
    · simp [keyAspects]
    · simp
  · apply Touches.refl

/-! ### The mouse -/

theorem feedBytes_touches (bytes : Bytes) :
  Touches [.mouse, .dev] g (feedBytes c g bytes)
  := by
  unfold feedBytes
  induction bytes generalizing g with
  | nil => apply Touches.refl
  | cons b bytes ih =>
      refine Touches.trans ?_ (ih _)
      refine .one rfl (by simp [Event.aspect]) ?_
      intro a
      cases a <;> simp [Same, emit]

theorem mouseLoop_touches (pending : List MouseChunk) (mseLimit : ℕ) :
  Touches [.mouse, .dev, .locals] g (mouseLoop c pending mseLimit g)
  := by
  induction pending generalizing mseLimit g with
  | nil =>
      refine .silent rfl ?_
      intro a
      cases a <;> simp [Same, mouseLoop]
  | cons b rest ih =>
      unfold mouseLoop
      have hread : Touches [.mouse, .dev, .locals] g (g.emit (.mouseRead b.val)) := by
        apply emit_touches
        simp [Event.aspect]
      apply hread.trans
      dsimp only
      split
      · refine Touches.trans ?_ (ih _ _)
        refine Touches.seq (A := [.locals]) ?_ (feedBytes_touches c _ _) (by simp) (by simp)
        refine .silent rfl ?_
        intro a
        cases a <;> simp [Same]
      · refine .silent rfl ?_
        intro a
        cases a <;> simp [Same]

theorem readMouse_touches :
  Touches [.mouse, .dev, .locals] g (readMouse c g)
  := by
  have hprev : Touches [.mouse, .dev, .locals] g
      { g with mouse.prevMouseBtnLeft := g.mouse.mouseBtnLeft } := by
    refine .silent rfl ?_
    intro a
    cases a <;> simp [Same]
  unfold readMouse
  dsimp only
  split
  · apply hprev.trans
    apply mouseLoop_touches
  · apply hprev

theorem filterMouse_touches :
  Touches [.mouse, .keys] g (filterMouse g)
  := by
  unfold filterMouse mouseMoved
  dsimp only
  split
  all_goals
    refine .silent rfl ?_
    intro a
    cases a <;> simp [Same]

theorem cornerIcons_touches :
  Touches [.panels, .menu] g (cornerIcons c g)
  := by
  unfold cornerIcons
  dsimp only
  split_ifs
  all_goals
    refine .silent rfl ?_
    intro a
    cases a <;> simp [Same, trigger]

/-! ### The panels -/

theorem closeCurrentPty_touches :
  Touches [.term] g g.closeCurrentPty
  := by
  unfold closeCurrentPty
  split
  · refine .one rfl (by simp [Event.aspect]) ?_
    intro a
    cases a <;> simp [Same, emit]
  · apply Touches.refl

theorem launchTerminalShell_touches (site : LaunchSite) (mode : TerminalMode) :
  Touches [.term, .launch] g (g.launchTerminalShell i site mode)
  := by
  unfold launchTerminalShell
  split
  · refine .one rfl (by simp [Event.aspect]) ?_
    intro a
    cases a <;> simp [Same, emit]
  · apply Touches.refl

theorem scan_touches (site : ScanSite) :
  Touches [.tm] g (g.scan c i site)
  := by
  refine .one rfl (by simp [Event.aspect]) ?_
  intro a
  cases a <;> simp [Same, scan, emit]

theorem openPrompt_touches (source : PromptSource) :
  Touches [.panels, .prompt, .keys] g (g.openPrompt source)
  := by
  refine .one rfl (by simp [Event.aspect]) ?_
  intro a
  cases a <;> simp [Same, openPrompt, emit]

theorem used_touches (action : ℤ) :
  Touches [.menu] g (g.used action)
  := by
  unfold used
  split
  · apply trigger_touches
  · apply Touches.refl

theorem menuLock_touches :
  Touches [.power, .running] g (menuLock c i g)
  := by
  unfold menuLock
  split
  · refine .one rfl (by simp [Event.aspect]) ?_
    intro a
    cases a <;> simp [Same, emit, stop]
  · apply Touches.refl

theorem menuSwitchUser_touches :
  Touches [.panels, .su, .menu] g (menuSwitchUser c i g)
  := by
  unfold menuSwitchUser
  split
  · refine Touches.seq (A := [.panels, .su]) ?_ (used_touches _ _) (by simp) (by simp)
    refine .silent rfl ?_
    intro a
    cases a <;> simp [Same]
  · apply Touches.refl

theorem menuSignOut_touches :
  Touches [.power, .running] g (menuSignOut i g)
  := by
  unfold menuSignOut
  split
  · refine .one rfl (by simp [Event.aspect]) ?_
    intro a
    cases a <;> simp [Same, emit, stop]
  · apply Touches.refl

theorem menuChangePassword_touches :
  Touches [.panels, .cp, .menu] g (menuChangePassword i g)
  := by
  unfold menuChangePassword
  split
  · refine Touches.seq (A := [.panels, .cp]) ?_ (used_touches _ _) (by simp) (by simp)
    refine .silent rfl ?_
    intro a
    cases a <;> simp [Same]
  · apply Touches.refl

theorem setPanels_touches (p : Panels) :
  Touches [.panels] g { g with panels := p }
  := by
  refine .silent rfl ?_
  intro a
  cases a <;> simp [Same]

theorem menuTaskManager_touches :
  Touches [.panels, .tm] g (menuTaskManager c i g)
  := by
  unfold menuTaskManager
  dsimp only
  split
  · refine Touches.seq (B := [.panels]) ?_ (setPanels_touches _ _) (List.Subset.refl _) (by simp)
    split
    · apply (setPanels_touches g _).seq (scan_touches c i _ .opening)
      · simp
      · simp
    · apply (setPanels_touches g _).mono
      simp
  · apply Touches.refl

theorem menuRunCommand_touches :
  Touches [.panels, .menu] g (menuRunCommand i g)
  := by
  unfold menuRunCommand
  split
  · refine Touches.seq (setPanels_touches g _) (used_touches _ _) ?_ ?_
    · simp
    · simp
  · apply Touches.refl

theorem menuCancel_touches :
  Touches [.running] g (menuCancel i g)
  := by
  unfold menuCancel
  split
  · apply stop_touches
  · apply Touches.refl

/-- What the main menu can touch. -/
def menuAspects : List Aspect := [.panels, .su, .cp, .tm, .menu, .power, .running]

theorem mainMenu_touches :
  Touches menuAspects g (mainMenu c i g)
  := by
  apply mainMenu_rel
  · simp only [menuStages, List.forall_mem_cons]
    refine ⟨?_, ?_, ?_, ?_, ?_, ?_, ?_, by simp⟩
    · intro g
      apply (menuLock_touches c i g).mono
      simp [menuAspects]
    · intro g
      apply (menuSwitchUser_touches c i g).mono
      simp [menuAspects]
    · intro g
      apply (menuSignOut_touches i g).mono
      simp [menuAspects]
    · intro g
      apply (menuChangePassword_touches i g).mono
      simp [menuAspects]
    · intro g
      apply (menuTaskManager_touches c i g).mono
      simp [menuAspects]
    · intro g
      apply (menuRunCommand_touches i g).mono
      simp [menuAspects]
    · intro g
      apply (menuCancel_touches i g).mono
      simp [menuAspects]
  · intro g
    apply (trigger_touches g _).mono
    simp [menuAspects]

/-- What a root toggle can touch besides the shell. -/
def toggleAspects : List Aspect := [.root, .panels, .prompt, .keys]

theorem setRoot_touches (r : Root) :
  Touches [.root] g { g with root := r }
  := by
  refine .silent rfl ?_
  intro a
  cases a <;> simp [Same]

/-- The shell is closed, and the root modes set. -/
theorem closeCurrentPty_setRoot_touches (r : Root) :
  Touches [.root, .term] g { g.closeCurrentPty with root := r }
  := by
  apply (closeCurrentPty_touches g).seq (setRoot_touches _ r)
  · simp
  · simp

theorem terminalToggle_touches :
  Touches (.term :: .launch :: toggleAspects) g (terminalToggle i g)
  := by
  apply terminalToggle_rel
  · apply (closeCurrentPty_setRoot_touches g _).mono
    simp [toggleAspects]
  · intro _
    apply (closeCurrentPty_setRoot_touches g _).mono
    simp [toggleAspects]
  · intro g mode
    apply (launchTerminalShell_touches i g _ mode).mono
    simp
  · intro _ _ _
    apply (openPrompt_touches g _).mono
    simp [toggleAspects]

theorem terminalModeButton_touches (b : Button) (mode : TerminalMode) :
  Touches [.term, .launch] g (terminalModeButton i b mode g)
  := by
  unfold terminalModeButton
  split
  · refine Touches.trans ?_ (launchTerminalShell_touches i _ _ _)
    refine Touches.seq (A := [.term]) ?_ (closeCurrentPty_touches _) (by simp) (by simp)
    refine .silent rfl ?_
    intro a
    cases a <;> simp [Same]
  · apply Touches.refl

theorem terminalModes_touches :
  Touches [.term, .launch] g (terminalModes c i g)
  := by
  apply terminalModes_rel
  intro b mode g
  apply terminalModeButton_touches

theorem terminalPanel_touches :
  Touches (.term :: .launch :: toggleAspects) g (terminalPanel c i g)
  := by
  apply terminalPanel_rel
  · intro _ _
    apply terminalToggle_touches
  · intro g
    apply (terminalModes_touches c i g).mono
    simp
  · intro g
    apply (setPanels_touches g _).mono
    simp [toggleAspects]

theorem editCommand_touches :
  Touches [.run] g (editCommand i g)
  := by
  refine .one rfl (by simp [Event.aspect]) ?_
  intro a
  cases a <;> simp [Same, editCommand, emit]

theorem runAsRootToggle_touches :
  Touches toggleAspects g (runAsRootToggle i g)
  := by
  apply runAsRootToggle_rel
  · apply (setRoot_touches g _).mono
    simp [toggleAspects]
  · intro _
    apply (setRoot_touches g _).mono
    simp [toggleAspects]
  · intro _ _ _
    apply (openPrompt_touches g _).mono
    simp [toggleAspects]

theorem runButton_touches (isEnterPressed : Bool) :
  Touches [.run, .running] g (runButton i isEnterPressed g)
  := by
  unfold runButton
  split
  · refine .one rfl (by simp [Event.aspect]) ?_
    intro a
    cases a <;> simp [Same, emit, stop]
  · apply Touches.refl

theorem runPanel_touches :
  Touches (.run :: .running :: toggleAspects) g (runPanel i g)
  := by
  apply runPanel_rel
  · intro g
    apply (setPanels_touches g _).mono
    simp [toggleAspects]
  · intro g
    apply (editCommand_touches i g).mono
    simp
  · intro _ _ g _ _
    apply (runAsRootToggle_touches i g).mono
    intro a ha
    simp [ha]
  · intro isEnterPressed g
    apply (runButton_touches i g isEnterPressed).mono
    simp

theorem editRootPwd_touches :
  Touches [.prompt] g (editRootPwd i g)
  := by
  have hedit : ∀ p : Prompt, Touches [.prompt] g { g with prompt := p } := by
    intro p
    refine .silent rfl ?_
    intro a
    cases a <;> simp [Same]
  unfold editRootPwd
  dsimp only
  split
  · apply (hedit _).trans
    apply submitPrompt_touches
  · apply hedit

theorem grant_touches :
  Touches [.root, .term, .launch] g (grant i g)
  := by
  unfold grant
  split
  · apply (closeCurrentPty_setRoot_touches g _).seq (launchTerminalShell_touches i _ _ _)
    · simp
    · simp
  · apply (setRoot_touches g _).mono
    simp
  · apply (setRoot_touches g _).mono
    simp
  · apply Touches.refl

/-- What the root prompt can touch. -/
def promptAspects : List Aspect := [.prompt, .root, .term, .launch, .panels]

theorem checkPassword_touches :
  Touches [.prompt, .root] g (checkPassword i g)
  := by
  refine .one rfl (by simp [Event.aspect]) ?_
  intro a
  cases a <;> simp [Same, checkPassword, emit]

theorem authorize_touches :
  Touches [.root, .panels] g g.authorize
  := by
  refine .silent rfl ?_
  intro a
  cases a <;> simp [Same, authorize]

theorem submitClicked_touches :
  Touches [.prompt] g (submitClicked i g)
  := by
  unfold submitClicked
  split
  · apply emit_touches
    simp [Event.aspect]
  · apply Touches.refl

theorem verify_touches :
  Touches promptAspects g (verify i g)
  := by
  unfold verify
  apply ((checkPassword_touches i g).mono (by simp [promptAspects])).trans
  dsimp only
  split
  · apply (authorize_touches _).seq (grant_touches i _)
    · simp [promptAspects]
    · simp [promptAspects]
  · apply Touches.refl

theorem promptPanel_touches :
  Touches promptAspects g (promptPanel i g)
  := by
  apply promptPanel_rel
  · intro g
    apply (dismissPrompt_touches g).mono
    simp [promptAspects]
  · intro g
    apply (editRootPwd_touches i g).mono
    simp [promptAspects]
  · intro g
    apply authenticate_rel
    · intro g
      apply (submitClicked_touches i g).mono
      simp [promptAspects]
    · intro g
      apply verify_touches

theorem applyPassword_touches (isEnterPressed : Bool) :
  Touches [.cp, .locals] g (applyPassword i isEnterPressed g)
  := by
  unfold applyPassword
  dsimp only
  split_ifs
  · refine .silent rfl ?_
    intro a
    cases a <;> simp [Same]
  · refine .silent rfl ?_
    intro a
    cases a <;> simp [Same]
  · refine .one rfl (by simp [Event.aspect]) ?_
    intro a
    cases a <;> simp [Same, emit]
  · apply Touches.refl

theorem changePasswordBody_touches :
  Touches [.cp] g (changePasswordBody i g)
  := by
  unfold changePasswordBody showPasswordsToggle
  split
  all_goals
    refine .silent rfl ?_
    intro a
    cases a <;> simp [Same, togglePasswords, editConfirmPwd, editNewPwd, editOldPwd]

theorem changePasswordPanel_touches :
  Touches [.cp, .locals, .panels] g (changePasswordPanel i g)
  := by
  apply changePasswordPanel_rel
  · intro g
    apply (setPanels_touches g _).mono
    simp
  · intro g
    apply (changePasswordBody_touches i g).mono
    simp
  · intro isEnterPressed g
    apply (applyPassword_touches i g isEnterPressed).mono
    simp

/-- What the switch-user dialog can touch. -/
def switchAspects : List Aspect := [.vt, .panels, .running, .power]

theorem sessionButton_touches (k : ℕ) (s : SessionInfo) :
  Touches switchAspects g (sessionButton i g k s)
  := by
  unfold sessionButton
  split
  · refine .one rfl (by simp [switchAspects, Event.aspect]) ?_
    intro a
    cases a <;> simp [Same, emit, stop, switchAspects]
  · apply Touches.refl

theorem newSessionButton_touches :
  Touches switchAspects g (newSessionButton i g)
  := by
  unfold newSessionButton
  split
  · refine .one rfl (by simp [switchAspects, Event.aspect]) ?_
    intro a
    cases a <;> simp [Same, emit, stop, switchAspects]
  · apply Touches.refl

theorem switchUserPanel_touches :
  Touches switchAspects g (switchUserPanel i g)
  := by
  apply switchUserPanel_rel
  · intro g
    apply (setPanels_touches g _).mono
    simp [switchAspects]
  · intro g
    apply sessionButtons_rel
    intro s _ k g
    apply sessionButton_touches
  · intro g
    apply newSessionButton_touches

theorem powerMenu_touches :
  Touches [.panels, .display, .power, .running] g (powerMenu i g)
  := by
  apply powerMenu_rel
  · intro g
    unfold sleepButton
    split
    · apply (setPanels_touches g _).seq (executeSleep_touches _)
      · simp
      · simp
    · apply Touches.refl
  · intro g
    unfold restartButton
    split
    · refine .one rfl (by simp [Event.aspect]) ?_
      intro a
      cases a <;> simp [Same, emit, stop]
    · apply Touches.refl
  · intro g
    unfold shutdownButton
    split
    · refine .one rfl (by simp [Event.aspect]) ?_
      intro a
      cases a <;> simp [Same, emit, stop]
    · apply Touches.refl

/-! ### The task manager -/

theorem taskManagerToggle_touches :
  Touches toggleAspects g (taskManagerToggle i g)
  := by
  apply taskManagerToggle_rel
  · apply (setRoot_touches g _).mono
    simp [toggleAspects]
  · intro _
    apply (setRoot_touches g _).mono
    simp [toggleAspects]
  · intro _ _ _
    apply (openPrompt_touches g _).mono
    simp [toggleAspects]

theorem taskManagerTitle_touches :
  Touches toggleAspects g (taskManagerTitle i g)
  := by
  unfold taskManagerTitle
  dsimp only
  split
  · apply (taskManagerToggle_touches i g).seq (setPanels_touches _ _)
    · simp
    · simp [toggleAspects]
  · apply taskManagerToggle_touches

theorem tabButton_touches (b : Button) (tab : ℕ) (mode : SortMode) :
  Touches [.tm, .menu] g (tabButton i b tab mode g)
  := by
  unfold tabButton
  split
  · refine Touches.seq (A := [.tm]) ?_ (consume_touches _) (by simp) (by simp)
    refine .silent rfl ?_
    intro a
    cases a <;> simp [Same]
  · apply Touches.refl

theorem tabButtons_touches :
  Touches [.tm, .menu] g (tabButtons i g)
  := by
  apply runStages_rel
  simp only [List.forall_mem_cons]
  refine ⟨?_, ?_, ?_, by simp⟩
  all_goals
    intro g
    apply tabButton_touches

theorem tabs_touches :
  Touches [.tm, .menu] g (tabs c i g)
  := by
  unfold tabs
  dsimp only
  split
  · apply (tabButtons_touches i g).trans
    apply (scan_touches c i _ _).mono
    simp
  · apply tabButtons_touches

theorem searchField_touches :
  Touches [.tm] g (searchField c i g)
  := by
  unfold searchField
  dsimp only
  split_ifs
  · refine Touches.trans ?_ (scan_touches c i _ _)
    refine .silent rfl ?_
    intro a
    cases a <;> simp [Same]
  · refine .silent rfl ?_
    intro a
    cases a <;> simp [Same]
  · apply Touches.refl

theorem signalButton_touches
    (b : Button) (row col : ℕ) (alive : Bool) (signal : ProcessInfo → Signal)
    (after : ProcessInfo → ProcessInfo) :
  Touches [.tm, .kill, .menu] g (signalButton i b row col alive signal after g)
  := by
  unfold signalButton
  split
  · apply Touches.refl
  · dsimp only
    split
    · refine Touches.seq (A := [.tm, .kill]) ?_ (consume_touches _) (by simp) (by simp)
      split
      · refine .one rfl (by simp [Event.aspect]) ?_
        intro a
        cases a <;> simp [Same, emit]
      · apply Touches.refl
    · apply Touches.refl

theorem labelButton_touches (row : ℕ) :
  Touches [.menu] g (labelButton i row g)
  := by
  unfold labelButton
  split
  · apply consume_touches
  · apply Touches.refl

theorem drawRow_touches (row : ℕ) :
  Touches [.screen] g (drawRow row g)
  := by
  unfold drawRow
  split
  · apply Touches.refl
  · refine .silent rfl ?_
    intro a
    cases a <;> simp [Same]

theorem processRow_touches (row : ℕ) :
  Touches [.tm, .kill, .menu, .screen] g (processRow c i g row)
  := by
  have hsignal : ∀ g b col alive signal after, Touches [.tm, .kill, .menu, .screen] g
      (signalButton i b row col alive signal after g) := by
    intro g b col alive signal after
    apply (signalButton_touches i g b row col alive signal after).mono
    simp
  unfold processRow
  split
  · apply Touches.refl
  · dsimp only
    split
    · apply Touches.refl
    · refine Touches.trans ?_ ((drawRow_touches _ _).mono (by simp))
      refine Touches.trans ?_ ((labelButton_touches i _ _).mono (by simp))
      refine Touches.trans ?_ (hsignal _ _ _ _ _ _)
      refine Touches.trans ?_ (hsignal _ _ _ _ _ _)
      apply hsignal

theorem clampRow_touches (limit : ℕ) :
  Touches [.focus] g (clampRow limit g)
  := by
  unfold clampRow
  split
  · refine .silent rfl ?_
    intro a
    cases a <;> simp [Same]
  · apply Touches.refl

theorem processRows_touches :
  Touches [.tm, .kill, .menu, .screen, .focus] g (processRows c i g)
  := by
  unfold processRows
  apply List.foldlRecOn (motive := Touches [.tm, .kill, .menu, .screen, .focus] g)
  · apply (clampRow_touches g _).mono
    simp
  · intro g' hg' row _
    apply hg'.trans
    apply (processRow_touches c i g' row).mono
    simp

/-- What the task manager can touch. -/
def taskManagerAspects : List Aspect :=
  [.tm, .kill, .menu, .screen, .focus, .root, .panels, .prompt, .keys]

theorem taskManagerBody_touches :
  Touches [.tm, .kill, .menu, .screen, .focus] g (taskManagerBody c i g)
  := by
  refine Touches.trans ?_ (processRows_touches c i _)
  apply (tabs_touches c i g).seq (searchField_touches c i _)
  · simp
  · simp

theorem taskManagerBar_touches :
  Touches [.panels, .menu] g (taskManagerBar i g)
  := by
  unfold taskManagerBar closeTaskManager
  split
  · apply (setPanels_touches g _).seq (consume_touches _)
    · simp
    · simp
  · apply Touches.refl

theorem taskManagerPanel_touches :
  Touches taskManagerAspects g (taskManagerPanel c i g)
  := by
  apply taskManagerPanel_rel
  · intro _ _
    apply (taskManagerToggle_touches i g).mono
    simp [taskManagerAspects, toggleAspects]
  · intro g
    apply (taskManagerBody_touches c i g).mono
    simp [taskManagerAspects]
  · intro g
    apply (setPanels_touches g _).mono
    simp [taskManagerAspects]
  · intro g
    apply (consume_touches g).mono
    simp [taskManagerAspects]

/-! ### The rest of the frame -/

theorem beginFrame_touches :
  Touches [.locals, .dev, .screen] g (beginFrame i g)
  := by
  refine .silent rfl ?_
  intro a
  cases a <;> simp [Same, beginFrame]

theorem periodicScan_touches :
  Touches [.tm] g (periodicScan c i g)
  := by
  unfold periodicScan
  split
  · apply scan_touches
  · apply Touches.refl

theorem periodicBacklight_touches :
  Touches [.power] g (periodicBacklight g)
  := by
  unfold periodicBacklight
  split
  · apply emit_touches
    simp [Event.aspect]
  · apply Touches.refl

theorem periodic_touches :
  Touches [.tm, .power, .frameCount] g (periodic c i g)
  := by
  have hcount : ∀ (g : Gui) n, Touches [.tm, .power, .frameCount] g { g with frameCount := n } := by
    intro g n
    refine .silent rfl ?_
    intro a
    cases a <;> simp [Same]
  refine Touches.trans ?_ (hcount _ _)
  apply (periodicScan_touches c i g).seq (periodicBacklight_touches _)
  · simp
  · simp

theorem clearPasswords_touches :
  Touches [.cp, .prompt] g (clearPasswords g)
  := by
  unfold clearPasswords
  dsimp only
  split_ifs
  all_goals
    refine .silent rfl ?_
    intro a
    cases a <;> simp [Same]

theorem terminalIcon_touches :
  Touches [.panels, .term, .launch] g (terminalIcon c i g)
  := by
  unfold terminalIcon
  dsimp only
  split
  · split_ifs
    · apply (setPanels_touches g _).seq (launchTerminalShell_touches i _ _ _)
      · simp
      · simp
    · refine Touches.seq (A := [.panels, .term, .launch]) ?_ (setPanels_touches _ _)
        (List.Subset.refl _) (by simp)
      apply (setPanels_touches g _).seq (launchTerminalShell_touches i _ _ _)
      · simp
      · simp
    · apply (setPanels_touches g _).mono
      simp
  · apply Touches.refl

theorem powerIcon_touches :
  Touches [.panels, .menu] g (powerIcon g)
  := by
  unfold powerIcon
  split
  · refine .silent rfl ?_
    intro a
    cases a <;> simp [Same]
  · apply Touches.refl

theorem armCooldown_touches :
  Touches [.mouse] g (armCooldown g)
  := by
  unfold armCooldown
  split
  · refine .silent rfl ?_
    intro a
    cases a <;> simp [Same]
  · apply Touches.refl

theorem endFrame_touches :
  Touches [.term, .display, .screen] g (endFrame i g)
  := by
  have hclose : ∀ g, Touches [.term] g
      (if g.locals.snap.showTerminal && !g.panels.showTerminal then g.closeCurrentPty else g) := by
    intro g
    split
    · apply closeCurrentPty_touches
    · apply Touches.refl
  unfold endFrame
  refine Touches.seq (hclose g) (B := [.display, .screen]) ?_ (by simp) (by simp)
  refine .silent rfl ?_
  intro a
  cases a <;> simp [Same]

/-! ### The frame -/

/-- What the input part of a frame can touch. -/
def inputAspects : List Aspect := .tm :: .frameCount :: .mouse :: .dev :: .term :: keyAspects

theorem handOver_touches :
  Touches inputAspects g (handOver c i g)
  := by
  apply runStages_rel
  simp only [inputStages, List.forall_mem_cons]
  refine ⟨?_, ?_, ?_, ?_, ?_, ?_, ?_, by simp⟩
  · intro g
    apply (beginFrame_touches i g).mono
    simp [inputAspects, keyAspects]
  · intro g
    apply (periodic_touches c i g).mono
    simp [inputAspects, keyAspects]
  · intro g
    apply (readMouse_touches c g).mono
    simp [inputAspects, keyAspects]
  · intro g
    apply (filterMouse_touches g).mono
    simp [inputAspects, keyAspects]
  · intro g
    apply (cornerIcons_touches c g).mono
    simp [inputAspects, keyAspects]
  · intro g
    apply (clearPasswords_touches g).mono
    simp [inputAspects, keyAspects]
  · intro g
    apply (readKeyboard_touches c i g).mono
    simp [inputAspects, keyAspects]

/-- The stages of a frame, each with what it can touch. -/
def stageAspects : List ((Gui → Gui) × List Aspect) :=
  [(beginFrame i, [.locals, .dev, .screen]), (periodic c i, [.tm, .power, .frameCount]),
    (readMouse c, [.mouse, .dev, .locals]), (filterMouse, [.mouse, .keys]),
    (cornerIcons c, [.panels, .menu]), (clearPasswords, [.cp, .prompt]),
    (readKeyboard c i, .term :: .dev :: keyAspects), (mainMenu c i, menuAspects),
    (terminalPanel c i, .term :: .launch :: toggleAspects),
    (taskManagerPanel c i, taskManagerAspects), (runPanel i, .run :: .running :: toggleAspects),
    (promptPanel i, promptAspects), (changePasswordPanel i, [.cp, .locals, .panels]),
    (switchUserPanel i, switchAspects), (powerMenu i, [.panels, .display, .power, .running]),
    (terminalIcon c i, [.panels, .term, .launch]), (powerIcon, [.panels, .menu]),
    (armCooldown, [.mouse]), (endFrame i, [.term, .display, .screen])]

theorem stages_eq :
  stages c i = (stageAspects c i).map Prod.fst
  := rfl

theorem stageAspects_touches :
  ∀ p ∈ stageAspects c i, ∀ g, Touches p.2 g (p.1 g)
  := by
  simp only [stageAspects, List.forall_mem_cons]
  exact ⟨beginFrame_touches i, periodic_touches c i, readMouse_touches c, filterMouse_touches,
    cornerIcons_touches c, clearPasswords_touches, readKeyboard_touches c i, mainMenu_touches c i,
    terminalPanel_touches c i, taskManagerPanel_touches c i, runPanel_touches i,
    promptPanel_touches i, changePasswordPanel_touches i, switchUserPanel_touches i,
    powerMenu_touches i, terminalIcon_touches c i, powerIcon_touches, armCooldown_touches,
    endFrame_touches i, by simp⟩

/-- Something holds of stages if it holds of those that touch none of some aspects, and of
the others one by one. -/
theorem stages_cases
    {c : Cfg} {i : FrameIn} {Q : (Gui → Gui) → Prop} {ps : List ((Gui → Gui) × List Aspect)}
    (hps : ps ⊆ stageAspects c i) (avoid : List Aspect)
    (hquiet : ∀ f as, (∀ g, Touches as g (f g)) → (∀ a ∈ avoid, a ∉ as) → Q f)
    (hloud : ∀ p ∈ ps.filter (fun p => avoid.any (fun a => a ∈ p.2)), Q p.1) :
  ∀ f ∈ ps.map Prod.fst, Q f
  := by
  intro f hf
  obtain ⟨p, hp, rfl⟩ := List.mem_map.mp hf
  by_cases hany : avoid.any (fun a => a ∈ p.2) = true
  · apply hloud p (List.mem_filter.mpr ⟨hp, hany⟩)
  · apply hquiet p.1 p.2 (stageAspects_touches c i p (hps hp))
    intro a ha hmem
    apply hany
    rw [List.any_eq_true]
    exact ⟨a, ha, by simpa using hmem⟩

/-- The stages before the last. -/
def beforeEnd : List ((Gui → Gui) × List Aspect) := (stageAspects c i).dropLast

theorem beforeEnd_subset :
  beforeEnd c i ⊆ stageAspects c i
  := List.dropLast_subset _

theorem frame_eq_endFrame :
  frame c i g = endFrame i (runStages ((beforeEnd c i).map Prod.fst) g)
  := by
  have hstages : stages c i = (beforeEnd c i).map Prod.fst ++ [endFrame i] := rfl
  rw [frame, hstages, runStages_append, runStages_cons, runStages_nil]

/-- What comes between the Run dialog and the end of the frame. -/
def closingStages : List (Gui → Gui) :=
  [promptPanel i, changePasswordPanel i, switchUserPanel i, powerMenu i, terminalIcon c i,
    powerIcon, armCooldown]

/-- What comes between the task manager and the end of the frame. -/
def lateStages : List (Gui → Gui) := runPanel i :: closingStages c i

/-- The state in which the task manager is drawn. -/
def beforeTaskManager : Gui := terminalPanel c i (mainMenu c i (handOver c i g))

/-- A frame, cut at the task manager. -/
theorem frame_eq :
  frame c i g
    = endFrame i (runStages (lateStages c i) (taskManagerPanel c i (beforeTaskManager c i g)))
  := by
  simp only [frame, stages, drawStages, finishStages, lateStages, closingStages,
    beforeTaskManager, handOver, runStages_append, runStages_cons, runStages_nil]

/-- What is drawn before the task manager can touch. -/
def earlyAspects : List Aspect := menuAspects ++ .term :: .launch :: toggleAspects

theorem beforeTaskManager_touches :
  Touches earlyAspects (handOver c i g) (beforeTaskManager c i g)
  := by
  apply (mainMenu_touches c i _).seq (terminalPanel_touches c i _)
  · simp [earlyAspects]
  · simp [earlyAspects]

/-- What follows the Run dialog leaves it alone, and the task manager too. -/
def closingAspects : List Aspect :=
  [.running, .root, .panels, .prompt, .keys, .term, .launch, .cp, .locals, .vt, .power, .display,
    .menu, .mouse]

theorem closingStages_touches :
  Touches closingAspects g (runStages (closingStages c i) g)
  := by
  apply runStages_rel
  simp only [closingStages, List.forall_mem_cons]
  refine ⟨?_, ?_, ?_, ?_, ?_, ?_, ?_, by simp⟩
  · intro g
    apply (promptPanel_touches i g).mono
    simp [closingAspects, promptAspects]
  · intro g
    apply (changePasswordPanel_touches i g).mono
    simp [closingAspects]
  · intro g
    apply (switchUserPanel_touches i g).mono
    simp [closingAspects, switchAspects]
  · intro g
    apply (powerMenu_touches i g).mono
    simp [closingAspects]
  · intro g
    apply (terminalIcon_touches c i g).mono
    simp [closingAspects]
  · intro g
    apply (powerIcon_touches g).mono
    simp [closingAspects]
  · intro g
    apply (armCooldown_touches g).mono
    simp [closingAspects]

/-- What follows the task manager can touch neither the processes nor the list drawn, and
sends no signal. -/
def lateAspects : List Aspect :=
  [.run, .running, .root, .panels, .prompt, .keys, .term, .launch, .cp, .locals, .vt, .power,
    .display, .menu, .mouse]

theorem lateStages_touches :
  Touches lateAspects g (runStages (lateStages c i) g)
  := by
  apply (runPanel_touches i g).seq (closingStages_touches c i _)
  · simp [lateAspects, toggleAspects]
  · simp [lateAspects, closingAspects]

/-- From the task manager on, the processes stay as they are and no signal is sent. -/
theorem frame_touches_late :
  Touches (.screen :: lateAspects) (taskManagerPanel c i (beforeTaskManager c i g)) (frame c i g)
  := by
  rw [frame_eq]
  apply (lateStages_touches c i _).seq (endFrame_touches i _)
  · simp
  · simp [lateAspects]

/-- A frame continues the log. -/
theorem frame_emits :
  Emits (fun _ => True) g.log (frame c i g).log
  := by
  have htrue : ∀ {as : List Aspect} {g g' : Gui}, Touches as g g' →
      Emits (fun _ => True) g.log g'.log := by
    intro as g g' h
    apply h.emits.mono
    intro _ _
    trivial
  apply (htrue (handOver_touches c i g)).trans
  apply (htrue (beforeTaskManager_touches c i g)).trans
  apply (htrue (taskManagerPanel_touches c i _)).trans
  apply htrue (frame_touches_late c i g)

end Gui

end LnxCad
