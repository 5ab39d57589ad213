import LnxCad.Gui.Touches

/-!
# Root privileges

The terminal, the task manager and the Run dialog each have a root mode.  None of them is
ever on without an authorisation, and there is no authorisation without a password check
that succeeded.  Until the first such check, a shell is launched as the user, a signal goes
to a process of the user, and a command is executed as the user.
-/

namespace LnxCad

/-- A check of the root password that succeeded. -/
def Event.verifiedOk : Event → Prop
  | .verifyRootPassword _ verified => verified = 1
  | _ => False

/-- What the program may do without an authorisation: launch shells that drop to the user,
signal processes recorded for the user, and execute commands as the user. -/
def Event.unprivileged (c : Cfg) : Event → Prop
  | .launchShell asRoot _ => asRoot = false
  | .kill k => toInt32 k.uid = c.userUid
  | .executeCommand _ asRoot => asRoot = false
  | _ => True

/-- No root mode is on without an authorisation. -/
def Root.Gated (r : Root) : Prop :=
  r.terminalRootMode ∨ r.taskmgrRootMode ∨ r.runAsRoot → r.rootAuthorized

/-- The flags `r'` are those of `r`, with some root modes switched off. -/
structure Root.Lowered (r r' : Root) : Prop where
  authorized : r'.rootAuthorized = r.rootAuthorized
  terminal : r'.terminalRootMode → r.terminalRootMode
  taskmgr : r'.taskmgrRootMode → r.taskmgrRootMode
  run : r'.runAsRoot → r.runAsRoot

theorem Root.Lowered.refl (r : Root) :
  r.Lowered r
  := ⟨rfl, id, id, id⟩

theorem Root.Lowered.trans {r r' r'' : Root} (h : r.Lowered r') (h' : r'.Lowered r'') :
  r.Lowered r''
  := by
  constructor
  · rw [h'.authorized, h.authorized]
  · intro hr
    apply h.terminal (h'.terminal hr)
  · intro hr
    apply h.taskmgr (h'.taskmgr hr)
  · intro hr
    apply h.run (h'.run hr)

/-- The invariant of the main loop. -/
structure RootGate (c : Cfg) (g : Gui) : Prop where
  gated : g.root.Gated
  authorized : g.root.rootAuthorized → ∃ e ∈ g.log, e.verifiedOk
  until_verified : Until Event.verifiedOk (Event.unprivileged c) g.log

namespace RootGate

variable {c : Cfg} {i : FrameIn} {g g' : Gui}

/-- Before a successful check every root mode is off. -/
theorem modes_off (h : RootGate c g) (hlog : ∀ e ∈ g.log, ¬ e.verifiedOk) :
  g.root.terminalRootMode = false ∧ g.root.taskmgrRootMode = false ∧ g.root.runAsRoot = false
  := by
  have hauth : ¬ g.root.rootAuthorized := by
    intro ha
    obtain ⟨e, he, hok⟩ := h.authorized ha
    apply hlog e he hok
  have hgated := h.gated
  unfold Root.Gated at hgated
  grind

/-- Switching modes off and doing unprivileged things keeps the invariant. -/
theorem lower
    (h : RootGate c g) (hroot : g.root.Lowered g'.root)
    (hlog : Emits (Event.unprivileged c) g.log g'.log) :
  RootGate c g'
  := by
  constructor
  · intro hmodes
    rw [hroot.authorized]
    apply h.gated
    exact hmodes.imp hroot.terminal (Or.imp hroot.taskmgr hroot.run)
  · intro ha
    rw [hroot.authorized] at ha
    obtain ⟨e, he, hok⟩ := h.authorized ha
    use e, hlog.subset he
  · apply h.until_verified.emits (P := Event.unprivileged c)
    · intro e he
      apply he
    · apply hlog

/-- Only launches, signals and commands can be privileged. -/
theorem unprivileged_of_aspect
    {e : Event} (hlaunch : e.aspect ≠ .launch) (hkill : e.aspect ≠ .kill)
    (hexecute : e.aspect ≠ .execute) :
  e.unprivileged c
  := by
  cases e <;> trivial

/-- A step without a launch, a signal or a command keeps the invariant if it only switches
root modes off. -/
theorem touches_lower
    {as : List Aspect} (h : RootGate c g) (ht : Touches as g g') (hroot : g.root.Lowered g'.root)
    (has : .launch ∉ as ∧ .kill ∉ as ∧ .execute ∉ as) :
  RootGate c g'
  := by
  apply h.lower hroot
  apply ht.emits.mono
  intro e he
  apply unprivileged_of_aspect
  · rintro heq
    apply has.1 (heq ▸ he)
  · rintro heq
    apply has.2.1 (heq ▸ he)
  · rintro heq
    apply has.2.2 (heq ▸ he)

/-- A step that also leaves the flags alone keeps the invariant. -/
theorem touches
    {as : List Aspect} (h : RootGate c g) (ht : Touches as g g')
    (has : .root ∉ as ∧ .launch ∉ as ∧ .kill ∉ as ∧ .execute ∉ as) :
  RootGate c g'
  := by
  have hroot : g'.root = g.root := ht.same .root has.1
  apply h.touches_lower ht _ has.2
  rw [hroot]
  apply Root.Lowered.refl

/-- A step that leaves the flags and the log alone keeps the invariant. -/
theorem silent (h : RootGate c g) (hroot : g'.root = g.root) (hlog : g'.log = g.log) :
  RootGate c g'
  := by
  apply h.lower
  · rw [hroot]
    apply Root.Lowered.refl
  · rw [hlog]
    apply Emits.refl

/-- One event, with the flags unchanged. -/
theorem emit
    (h : RootGate c g) {e : Event} (hroot : g'.root = g.root) (hlog : g'.log = g.log ++ [e])
    (he : (∀ d ∈ g.log, ¬ d.verifiedOk) → e.unprivileged c) :
  RootGate c g'
  := by
  constructor
  · rw [hroot]
    apply h.gated
  · rw [hroot, hlog]
    intro ha
    obtain ⟨d, hd, hok⟩ := h.authorized ha
    use d
    simp [hd, hok]
  · rw [hlog]
    apply h.until_verified.concat he

/-- A root mode switched on under an authorisation. -/
theorem raise
    (h : RootGate c g) (hauth : g.root.rootAuthorized)
    (hroot : g'.root.rootAuthorized = g.root.rootAuthorized) (hlog : g'.log = g.log) :
  RootGate c g'
  := by
  constructor
  · intro _
    rw [hroot, hauth]
  · rw [hroot, hlog]
    apply h.authorized
  · rw [hlog]
    apply h.until_verified

end RootGate

namespace Gui

variable {c : Cfg} {i : FrameIn} {g : Gui}

/-! ### The keyboard only switches root modes off -/

theorem dismissPrompt_lowered (g : Gui) :
  g.root.Lowered g.dismissPrompt.root
  := by
  unfold dismissPrompt
  dsimp only
  split
  · exact ⟨rfl, id, id, by simp⟩
  · apply Root.Lowered.refl

theorem escape_lowered (g : Gui) :
  g.root.Lowered g.escape.root
  := by
  unfold escape
  split_ifs
  case pos => apply dismissPrompt_lowered
  all_goals exact Root.Lowered.refl _

theorem promptActivate_lowered (g : Gui) (code : ℕ) :
  g.root.Lowered (g.promptActivate code).root
  := by
  unfold promptActivate
  dsimp only
  split_ifs
  · exact dismissPrompt_lowered g.touchKeyboard
  · exact Root.Lowered.refl _
  · exact dismissPrompt_lowered g.touchKeyboard
  · exact Root.Lowered.refl _

theorem pressKey_lowered (g : Gui) (code unicode : ℕ) :
  g.root.Lowered (pressKey code unicode g).root
  := by
  have hcp : (g.changePasswordActivate code).root = g.root :=
    (changePasswordActivate_touches g code).same .root (by simp)
  have hmenu : (g.menuActivate code).root = g.root :=
    (menuActivate_touches g code).same .root (by simp)
  unfold pressKey
  refine firstRule_cases (P := fun g' : Gui => g.root.Lowered g'.root) ?_ ?_
  · have hrules : ∀ r ∈ keyRules code unicode g, g.root.Lowered r.2.root := by
      simp only [keyRules, List.forall_mem_cons, hcp, hmenu]
      refine ⟨escape_lowered g, ?_, promptActivate_lowered g code, ?_⟩
      · exact Root.Lowered.refl _
      · simp [Root.Lowered.refl, touchKeyboard, submitDialog, Gui.emit]
    intro r hr _
    apply hrules r hr
  · apply Root.Lowered.refl

theorem kbdLoop_lowered (pending : List InputEvent) (kbdLimit : ℕ) (g : Gui) :
  g.root.Lowered (kbdLoop c pending kbdLimit g).root
  := by
  have hstable : KeyStable (fun g' => g.root.Lowered g'.root) := by
    constructor
    case press =>
      intro g' code unicode h
      apply h.trans (pressKey_lowered g' code unicode)
    all_goals
      intros
      assumption
  apply hstable.kbdLoop
  apply Root.Lowered.refl

theorem readKeyboard_gate (h : RootGate c g) :
  RootGate c (readKeyboard c i g)
  := by
  unfold readKeyboard
  split
  · have hpty := h.touches (ptyDispatch_touches i g) (by simp)
    apply hpty.touches_lower (kbdLoop_touches c _ _ _) (kbdLoop_lowered _ _ _)
    simp [keyAspects]
  · apply h

/-! ### Shells -/

theorem closeCurrentPty_gate (h : RootGate c g) :
  RootGate c g.closeCurrentPty
  := by
  apply h.touches (closeCurrentPty_touches g)
  simp

@[simp]
theorem closeCurrentPty_root (g : Gui) :
  g.closeCurrentPty.root = g.root
  := (closeCurrentPty_touches g).same .root (by simp)

/-- A shell is launched as root only in the root mode of the terminal. -/
theorem launchTerminalShell_gate (h : RootGate c g) (site : LaunchSite) (mode : TerminalMode) :
  RootGate c (g.launchTerminalShell i site mode)
  := by
  unfold launchTerminalShell
  split
  · refine h.emit rfl rfl ?_
    intro hlog
    apply (h.modes_off hlog).1
  · apply h

theorem terminalToggle_gate (h : RootGate c g) :
  RootGate c (terminalToggle i g)
  := by
  refine terminalToggle_rel (R := Carries (RootGate c)) ?_ ?_ ?_ ?_ h
  · intro h
    exact (closeCurrentPty_gate h).lower ⟨rfl, by simp, id, id⟩ (Emits.refl _ _)
  · intro hauth h
    apply (closeCurrentPty_gate h).raise
    · rw [closeCurrentPty_root]
      apply hauth
    · rfl
    · rfl
  · intro g mode h
    apply launchTerminalShell_gate h
  · intro _ _ _ h
    apply h.touches (openPrompt_touches g _)
    simp

theorem terminalModeButton_gate (h : RootGate c g) (b : Button) (mode : TerminalMode) :
  RootGate c (terminalModeButton i b mode g)
  := by
  unfold terminalModeButton
  split
  · apply launchTerminalShell_gate
    apply closeCurrentPty_gate
    exact h.silent rfl rfl
  · apply h

theorem terminalPanel_gate (h : RootGate c g) :
  RootGate c (terminalPanel c i g)
  := by
  refine terminalPanel_rel (R := Carries (RootGate c)) ?_ ?_ ?_ h
  · intro _ _ h
    apply terminalToggle_gate h
  · intro g
    apply terminalModes_rel
    intro b mode g h
    apply terminalModeButton_gate h
  · intro g h
    exact h.silent rfl rfl

/-! ### Root modes and the password check -/

theorem runAsRootToggle_gate (h : RootGate c g) :
  RootGate c (runAsRootToggle i g)
  := by
  refine runAsRootToggle_rel (R := Carries (RootGate c)) ?_ ?_ ?_ h
  · intro h
    exact h.lower ⟨rfl, id, id, by simp⟩ (Emits.refl _ _)
  · intro hauth h
    exact h.raise hauth rfl rfl
  · intro _ _ _ h
    apply h.touches (openPrompt_touches g _)
    simp

theorem runPanel_gate (h : RootGate c g) :
  RootGate c (runPanel i g)
  := by
  refine runPanel_rel (R := Carries (RootGate c)) ?_ ?_ ?_ ?_ h
  · intro g h
    exact h.silent rfl rfl
  · intro g h
    apply h.touches (editCommand_touches i g)
    simp
  · intro _ _ g _ _ h
    apply runAsRootToggle_gate h
  · intro isEnterPressed g h
    apply h.touches (runButton_touches i g isEnterPressed)
    simp

/-- Under an authorisation, what it was asked for is granted. -/
theorem grant_gate (h : RootGate c g) (hauth : g.root.rootAuthorized) :
  RootGate c (grant i g)
  := by
  unfold grant
  split
  · apply launchTerminalShell_gate
    apply (closeCurrentPty_gate h).raise
    · rw [closeCurrentPty_root]
      apply hauth
    · rfl
    · rfl
  · exact h.raise hauth rfl rfl
  · exact h.raise hauth rfl rfl
  · apply h

theorem checkPassword_gate (h : RootGate c g) :
  RootGate c (checkPassword i g)
  := h.emit rfl rfl (fun _ => trivial)

/-- A check that succeeded is in the log when the authorisation is given. -/
theorem verify_gate (h : RootGate c g) :
  RootGate c (verify i g)
  := by
  unfold verify
  dsimp only
  split
  case isTrue hv =>
    have hcheck := checkPassword_gate (i := i) h
    apply grant_gate
    · constructor
      · intro _
        rfl
      · intro _
        use .verifyRootPassword (cstr g.prompt.rootPwd.memory) i.verified
        constructor
        · simp [authorize, checkPassword, Gui.emit]
        · exact hv
      · apply hcheck.until_verified
    · rfl
  case isFalse => apply checkPassword_gate h

theorem promptPanel_gate (h : RootGate c g) :
  RootGate c (promptPanel i g)
  := by
  refine promptPanel_rel (R := Carries (RootGate c)) ?_ ?_ ?_ h
  · intro g h
    apply h.touches_lower (dismissPrompt_touches g) (dismissPrompt_lowered g)
    simp
  · intro g h
    apply h.touches (editRootPwd_touches i g)
    simp
  · intro g
    apply authenticate_rel
    · intro g h
      apply h.touches (submitClicked_touches i g)
      simp
    · intro g h
      apply verify_gate h

/-! ### Signals -/

theorem taskManagerToggle_gate (h : RootGate c g) :
  RootGate c (taskManagerToggle i g)
  := by
  refine taskManagerToggle_rel (R := Carries (RootGate c)) ?_ ?_ ?_ h
  · intro h
    exact h.lower ⟨rfl, id, by simp, id⟩ (Emits.refl _ _)
  · intro hauth h
    exact h.raise hauth rfl rfl
  · intro _ _ _ h
    apply h.touches (openPrompt_touches g _)
    simp

/-- The buttons of a row are alive only for a process that may be managed. -/
def RowAlive (c : Cfg) (row : ℕ) (alive : Bool) (g : Gui) : Prop :=
  ∀ p, g.tm.procsList[row]? = some p → alive → canManage c g p

theorem consume_gate (h : RootGate c g) :
  RootGate c g.consume
  := by
  apply h.touches (consume_touches g)
  simp

theorem consume_rowAlive {row : ℕ} {alive : Bool} (h : RowAlive c row alive g) :
  RowAlive c row alive g.consume
  := by
  have htm : g.consume.tm = g.tm := (consume_touches g).same .tm (by simp)
  have hroot : g.consume.root = g.root := (consume_touches g).same .root (by simp)
  intro p hp halive
  rw [htm] at hp
  have := h p hp halive
  simpa [canManage, hroot] using this

/-- A signal is sent to a process of the user, or in root mode. -/
theorem signalButton_gate
    {b : Button} {row col : ℕ} {alive : Bool} {signal : ProcessInfo → Signal}
    {after : ProcessInfo → ProcessInfo} (h : RootGate c g) (halive : RowAlive c row alive g) :
  RootGate c (signalButton i b row col alive signal after g)
  := by
  apply signalButton_cases h
  · intro _ _
    apply consume_gate h
  · intro p hp _ ha
    apply consume_gate
    refine h.emit rfl rfl ?_
    intro hlog
    have hmanage := halive p hp ha
    simpa [canManage, (h.modes_off hlog).2.1, Event.unprivileged] using hmanage

/-- A signal leaves the owner of a row as it was. -/
theorem signalButton_rowAlive
    {b : Button} {row col : ℕ} {alive : Bool} {signal : ProcessInfo → Signal}
    {after : ProcessInfo → ProcessInfo} (hafter : ∀ p, (after p).uid = p.uid)
    (h : RowAlive c row alive g) :
  RowAlive c row alive (signalButton i b row col alive signal after g)
  := by
  apply signalButton_cases (P := RowAlive c row alive) h
  · intro _ _
    apply consume_rowAlive h
  · intro p hp _ _
    apply consume_rowAlive
    intro q hq ha
    have hmanage := h p hp ha
    have hrow : row < g.tm.procsList.length := by
      apply (List.getElem?_eq_some_iff.mp hp).1
    simp only [signalled, TaskManager.procsList_setRow, List.getElem?_set_self hrow,
      Option.some.injEq] at hq
    subst hq
    simpa [canManage, signalled, Gui.emit, hafter] using hmanage

theorem processRow_gate (h : RootGate c g) (row : ℕ) :
  RootGate c (processRow c i g row)
  := by
  unfold processRow
  split
  · apply h
  case h_2 p hp =>
    dsimp only
    split
    · apply h
    · have h0 : RowAlive c row (canManage c g p) g := by
        intro q hq ha
        rw [hp] at hq
        cases hq
        apply ha
      have h1 : RowAlive c row (canManage c g p) (killButton i row (canManage c g p) g) := by
        apply signalButton_rowAlive _ h0
        intro _
        rfl
      have h2 : RowAlive c row (canManage c g p)
          (terminateButton i row (canManage c g p) (killButton i row (canManage c g p) g)) := by
        apply signalButton_rowAlive _ h1
        intro _
        rfl
      have hkill : RootGate c (killButton i row (canManage c g p) g) := signalButton_gate h h0
      have hterminate : RootGate c
          (terminateButton i row (canManage c g p) (killButton i row (canManage c g p) g)) :=
        signalButton_gate hkill h1
      have hbuttons : RootGate c
          (pauseButton i row (canManage c g p)
            (terminateButton i row (canManage c g p) (killButton i row (canManage c g p) g))) :=
        signalButton_gate hterminate h2
      apply (hbuttons.touches (labelButton_touches i _ row) (by simp)).touches
        (drawRow_touches _ row)
      simp

theorem processRows_gate (h : RootGate c g) :
  RootGate c (processRows c i g)
  := by
  unfold processRows
  apply List.foldlRecOn (motive := RootGate c)
  · apply h.touches (clampRow_touches g _)
    simp
  · intro g' hg' row _
    apply processRow_gate hg'

theorem taskManagerPanel_gate (h : RootGate c g) :
  RootGate c (taskManagerPanel c i g)
  := by
  refine taskManagerPanel_rel (R := Carries (RootGate c)) ?_ ?_ ?_ ?_ h
  · intro _ _ h
    apply taskManagerToggle_gate h
  · intro g h
    apply processRows_gate
    apply (h.touches (tabs_touches c i g) (by simp)).touches (searchField_touches c i _)
    simp
  · intro g h
    exact h.silent rfl rfl
  · intro g h
    apply consume_gate h

/-! ### The main loop -/

theorem terminalIcon_gate (h : RootGate c g) :
  RootGate c (terminalIcon c i g)
  := by
  unfold terminalIcon
  dsimp only
  split
  · split_ifs
    · apply launchTerminalShell_gate
      exact h.silent rfl rfl
    · apply RootGate.touches _ (setPanels_touches _ _) (by simp)
      apply launchTerminalShell_gate
      exact h.silent rfl rfl
    · exact h.silent rfl rfl
  · apply h

/-- Every stage of a frame keeps the invariant. -/
theorem stages_gate :
  ∀ f ∈ stages c i, ∀ g, RootGate c g → RootGate c (f g)
  := by
  rw [stages_eq]
  refine stages_cases (List.Subset.refl _) [.root, .launch, .kill, .execute] ?_ ?_
  · intro f as ht has g h
    apply h.touches (ht g)
    exact ⟨has .root (by simp), has .launch (by simp), has .kill (by simp), has .execute (by simp)⟩
  · have hloud : (stageAspects c i).filter
          (fun p => [Aspect.root, .launch, .kill, .execute].any (fun a => a ∈ p.2))
        = [(readKeyboard c i, .term :: .dev :: keyAspects),
          (terminalPanel c i, .term :: .launch :: toggleAspects),
          (taskManagerPanel c i, taskManagerAspects),
          (runPanel i, .run :: .running :: toggleAspects), (promptPanel i, promptAspects),
          (terminalIcon c i, [.panels, .term, .launch])] := rfl
    simp only [hloud, List.forall_mem_cons]
    exact ⟨fun g h => readKeyboard_gate h, fun g h => terminalPanel_gate h,
      fun g h => taskManagerPanel_gate h, fun g h => runPanel_gate h, fun g h => promptPanel_gate h,
      fun g h => terminalIcon_gate h, by simp⟩

theorem start_gate (s : Start) :
  RootGate c (start c s)
  := by
  have hinit : ∀ {g : Gui}, g.root = {} → g.log = [] → RootGate c g := by
    intro g hroot hlog
    constructor
    · simp [Root.Gated, hroot]
    · simp [hroot]
    · rw [hlog]
      apply Until.nil
  unfold start
  dsimp only
  split
  · apply launchTerminalShell_gate
    exact hinit rfl rfl
  · exact hinit rfl rfl

/-- Every state of the main loop, also between two stages of a frame, satisfies the
invariant. -/
theorem visited_gate (h : Visited c g) :
  RootGate c g
  := by
  obtain ⟨g₀, i, k, hreach, -, rfl⟩ := h
  refine runStages_invariant (P := RootGate c) ?_ ?_
  · intro f hf
    apply stages_gate f (List.mem_of_mem_take hf)
  · apply hreach.invariant start_gate
    intro i g _ hg
    apply frame_invariant stages_gate hg

theorem afterLoop_gate (h : RootGate c g) :
  RootGate c g.afterLoop
  := by
  have hclose := closeCurrentPty_gate h
  unfold afterLoop
  dsimp only
  split
  · refine hclose.emit rfl rfl ?_
    intro hlog
    apply (hclose.modes_off hlog).2.2
  · apply hclose

/-- In every state of every run, a root mode is on only under an authorisation, and an
authorisation follows a successful check of the root password.  Until the first such
check, to the end of the program, shells are launched as the user, signals go to processes
of the user, and a command is executed as the user. -/
theorem root_gating (c : Cfg) (g : Gui) (h : Visited c g) :
  (g.root.terminalRootMode ∨ g.root.taskmgrRootMode ∨ g.root.runAsRoot → g.root.rootAuthorized)
    ∧ (g.root.rootAuthorized → ∃ password, .verifyRootPassword password 1 ∈ g.log)
    ∧ Until Event.verifiedOk (Event.unprivileged c) g.afterLoop.log
  := by
  have hgate := visited_gate h
  refine ⟨hgate.gated, ?_, (afterLoop_gate hgate).until_verified⟩
  intro hauth
  obtain ⟨e, he, hok⟩ := hgate.authorized hauth
  cases e with
  | verifyRootPassword password verified =>
      cases (show verified = 1 from hok)
      use password
  | _ => exact absurd hok id

/-- The root mode of the task manager is asked for, and the password given is right. -/
def askForRoot : List FrameIn :=
  [openTaskManager, { nkButton := (· = .taskManagerRoot) }]

/-- The right password, submitted with Enter. -/
def answerPrompt : FrameIn := { pressEnter with verified := 1 }

theorem root_gating_desktop :
  (frame desktop answerPrompt (runFrames desktop askForRoot desktopStart)).root.taskmgrRootMode
    ∧ (frame desktop answerPrompt (runFrames desktop askForRoot desktopStart)).root.rootAuthorized
  := by
  have hmode : (frame desktop answerPrompt
      (runFrames desktop askForRoot desktopStart)).root.taskmgrRootMode := by decide +kernel
  have hvisited : Visited desktop
      (frame desktop answerPrompt (runFrames desktop askForRoot desktopStart)) := by
    use runFrames desktop askForRoot desktopStart, answerPrompt, (stages desktop answerPrompt).length
    refine ⟨desktop_reachable _, by decide +kernel, ?_⟩
    rw [List.take_length]
    rfl
  exact ⟨hmode, (root_gating desktop _ hvisited).1 (.inr (.inl hmode))⟩

end Gui

end LnxCad
