import LnxCad.Gui.RootGate

/-!
# The shell of the terminal

A shell runs while the pseudo-terminal is open, and is replaced whenever the root mode or the
program of the terminal changes.  At most one runs at a time: whenever one is launched, those
launched before were closed or have exited.  The one that runs has the rights and the program
that the title of the terminal shows, and none is left behind by the end of the program.
-/

namespace LnxCad

/-- A shell is launched. -/
def Event.isLaunch : Event → Bool
  | .launchShell _ _ => true
  | _ => false

/-- The number of shells launched. -/
def launched (log : List Event) : ℕ := log.countP Event.isLaunch

/-- The number of shells closed. -/
def closed (log : List Event) : ℕ := log.count .closePty

/-- What is known of the shell behind an event: its rights and its program, unless it was
closed. -/
def noteShell (shell : Option (Bool × TerminalMode)) : Event → Option (Bool × TerminalMode)
  | .launchShell asRoot mode => some (asRoot, mode)
  | .closePty => none
  | _ => shell

/-- The shell launched last, unless it was closed. -/
def lastShell (log : List Event) : Option (Bool × TerminalMode) := log.foldl noteShell none

/-- Every shell launched found those before it closed, but for `exits` that had exited. -/
def LaunchedAlone (exits : ℕ) (log : List Event) : Prop :=
  Recorded (fun pre e => e.isLaunch = true → launched pre ≤ closed pre + exits) log

/-- Events that concern no shell. -/
def Event.shellless (e : Event) : Prop := e.aspect ≠ .term ∧ e.aspect ≠ .launch

theorem noteShell_shellless {e : Event} (he : e.shellless) (shell : Option (Bool × TerminalMode)) :
  noteShell shell e = shell
  := by
  cases e
  case closePty => exact absurd rfl he.1
  case launchShell => exact absurd rfl he.2
  all_goals rfl

theorem emits_shellless {log log' : List Event} (h : Emits Event.shellless log log') :
  launched log' = launched log ∧ closed log' = closed log ∧ lastShell log' = lastShell log
  := by
  obtain ⟨es, rfl, hes⟩ := h
  have hlaunched : es.countP Event.isLaunch = 0 := by
    rw [List.countP_eq_zero]
    intro e he
    have hshell := (hes e he).2
    cases e
    case launchShell => exact absurd rfl hshell
    all_goals exact Bool.false_ne_true
  have hclosed : es.count .closePty = 0 := by
    rw [List.count_eq_zero]
    intro he
    exact absurd rfl (hes _ he).1
  have hlast : ∀ shell, es.foldl noteShell shell = shell := by
    intro shell
    apply List.foldlRecOn (motive := fun s => s = shell) es
    · rfl
    · rintro _ rfl e he
      apply noteShell_shellless (hes e he)
  refine ⟨?_, ?_, ?_⟩
  · rw [launched, List.countP_append, hlaunched]
    rfl
  · rw [closed, List.count_append, hclosed]
    rfl
  · rw [lastShell, List.foldl_append, hlast]
    rfl

/-- The invariant, when `exits` shells have exited. -/
structure Shells (exits : ℕ) (g : Gui) : Prop where
  balance : launched g.log = closed g.log + exits + if g.term.termPty then 1 else 0
  label : g.term.termPty = true →
    lastShell g.log = some (g.root.terminalRootMode, g.term.terminalMode)
  alone : LaunchedAlone exits g.log

namespace Shells

variable {n : ℕ} {g g' : Gui}

/-- A step that concerns no shell keeps the invariant. -/
theorem keep (h : Shells n g) (hterm : g'.term = g.term)
    (hroot : g'.root.terminalRootMode = g.root.terminalRootMode)
    (hlog : Emits Event.shellless g.log g'.log) :
  Shells n g'
  := by
  obtain ⟨hlaunched, hclosed, hlast⟩ := emits_shellless hlog
  obtain ⟨hbalance, hlabel, halone⟩ := h
  constructor
  · rw [hlaunched, hclosed, hterm, hbalance]
  · rw [hterm, hroot, hlast]
    exact hlabel
  · apply halone.emits (P := Event.shellless) _ hlog
    intro pre e he hlaunch
    cases e
    case launchShell => exact absurd rfl he.2
    all_goals cases hlaunch

theorem touches {as : List Aspect} (h : Shells n g) (ht : Touches as g g')
    (hroot : g'.root.terminalRootMode = g.root.terminalRootMode)
    (has : .term ∉ as ∧ .launch ∉ as) :
  Shells n g'
  := by
  apply h.keep (ht.same .term has.1) hroot
  apply ht.emits.mono
  intro e he
  constructor
  · exact fun heq => has.1 (heq ▸ he)
  · exact fun heq => has.2 (heq ▸ he)

/-- A step that also leaves the privilege flags alone keeps the invariant. -/
theorem touches_keep {as : List Aspect} (h : Shells n g) (ht : Touches as g g')
    (has : .root ∉ as ∧ .term ∉ as ∧ .launch ∉ as) :
  Shells n g'
  := by
  have hroot : g'.root = g.root := ht.same .root has.1
  exact h.touches ht (by rw [hroot]) has.2

/-- The shell is closed, whatever becomes of the modes. -/
theorem close (h : Shells n g) (hterm : g'.term.termPty = false)
    (hlog : g'.log = g.closeCurrentPty.log) :
  Shells n g'
  := by
  obtain ⟨hbalance, -, halone⟩ := h
  unfold Gui.closeCurrentPty at hlog
  split at hlog
  case isTrue hopen =>
    replace hlog : g'.log = g.log ++ [.closePty] := hlog
    rw [hopen] at hbalance
    constructor
    · rw [hlog, hterm]
      simp only [launched, closed, List.countP_append, List.count_append] at hbalance ⊢
      simp [hbalance, Event.isLaunch]
      omega
    · simp [hterm]
    · rw [hlog]
      apply halone.concat
      simp [Event.isLaunch]
  case isFalse hclosed =>
    rw [Bool.not_eq_true] at hclosed
    rw [hclosed] at hbalance
    constructor
    · rw [hlog, hterm, hbalance]
    · simp [hterm]
    · rw [hlog]
      exact halone

/-- A shell is launched where none runs. -/
theorem launch (h : Shells n g) (hterm : g.term.termPty = false) (i : FrameIn)
    (site : LaunchSite) {mode : TerminalMode} (hmode : mode = g.term.terminalMode) :
  Shells n (g.launchTerminalShell i site mode)
  := by
  obtain ⟨hbalance, -, halone⟩ := h
  unfold Gui.launchTerminalShell
  split
  case isTrue =>
    rw [hterm] at hbalance
    constructor
    · simp only [Gui.emit, launched, closed, List.countP_append, List.count_append] at hbalance ⊢
      simp [hbalance, Event.isLaunch]
    · intro _
      simp [Gui.emit, lastShell, noteShell, hmode]
    · apply halone.concat
      intro _
      rw [hbalance]
      simp
  case isFalse => exact ⟨hbalance, by simp [hterm], halone⟩

end Shells

namespace Gui

variable {c : Cfg} {i : FrameIn} {n : ℕ} {g : Gui}

@[simp]
theorem closeCurrentPty_termPty (g : Gui) :
  g.closeCurrentPty.term.termPty = false
  := by
  unfold closeCurrentPty
  split
  · rfl
  case isFalse h => simpa using h

@[simp]
theorem closeCurrentPty_terminalMode (g : Gui) :
  g.closeCurrentPty.term.terminalMode = g.term.terminalMode
  := by
  unfold closeCurrentPty
  split <;> rfl

/-- The shell is replaced. -/
theorem relaunch_shells (h : Shells n g) (b : Bool) (site : LaunchSite) :
  Shells n ({ g.closeCurrentPty with root.terminalRootMode := b }.launchTerminalShell i site
    g.term.terminalMode)
  := by
  apply Shells.launch
  · exact h.close (closeCurrentPty_termPty g) rfl
  · exact closeCurrentPty_termPty g
  · exact (closeCurrentPty_terminalMode g).symm

/-! ### The keyboard -/

theorem dismissPrompt_terminalRootMode (g : Gui) :
  g.dismissPrompt.root.terminalRootMode = g.root.terminalRootMode
  := by
  unfold dismissPrompt
  dsimp only
  split <;> rfl

theorem escape_terminalRootMode (g : Gui) :
  g.escape.root.terminalRootMode = g.root.terminalRootMode
  := by
  unfold escape
  split_ifs
  case pos => apply dismissPrompt_terminalRootMode
  all_goals rfl

theorem promptActivate_terminalRootMode (g : Gui) (code : ℕ) :
  (g.promptActivate code).root.terminalRootMode = g.root.terminalRootMode
  := by
  unfold promptActivate
  dsimp only
  split_ifs
  all_goals first | exact dismissPrompt_terminalRootMode g.touchKeyboard | rfl

/-- The keyboard does not change the rights of the shell. -/
theorem pressKey_terminalRootMode (g : Gui) (code unicode : ℕ) :
  (pressKey code unicode g).root.terminalRootMode = g.root.terminalRootMode
  := by
  have hcp : (g.changePasswordActivate code).root = g.root :=
    (changePasswordActivate_touches g code).same .root (by simp)
  have hmenu : (g.menuActivate code).root = g.root :=
    (menuActivate_touches g code).same .root (by simp)
  apply pressKey_cases (P := fun g' => g'.root.terminalRootMode = g.root.terminalRootMode)
  · rfl
  · apply escape_terminalRootMode
  · exact fun _ _ => promptActivate_terminalRootMode g code
  · rw [hcp]
  · rfl
  · rw [hmenu]
  · exact fun _ _ _ _ _ _ _ => rfl
  · rfl

theorem shells_keyStable (n : ℕ) :
  KeyStable (Shells n)
  := by
  constructor
  case emit =>
    intro g e he h
    apply h.touches_keep (emitInput_touches g he)
    simp
  case press =>
    intro g code unicode h
    apply h.touches (pressKey_touches g code unicode) (pressKey_terminalRootMode g code unicode)
    simp [keyAspects]
  case shift => exact fun _ _ h => h.keep rfl rfl (Emits.refl _ _)
  case ctrl => exact fun _ _ h => h.keep rfl rfl (Emits.refl _ _)
  case terminal => exact fun _ h => h.keep rfl rfl (Emits.refl _ _)
  case dev => exact fun _ _ h => h.keep rfl rfl (Emits.refl _ _)

/-- The shells that exit in a frame: at most the one that runs. -/
def exitsIn (c : Cfg) (i : FrameIn) (g : Gui) : ℕ :=
  if c.kbdFd && (g.term.termPty && i.ptyExited) then 1 else 0

/-- A shell that has exited is counted; the rest of the keyboard concerns none. -/
theorem readKeyboard_shells (h : Shells n g) :
  Shells (n + exitsIn c i g) (readKeyboard c i g)
  := by
  have hpty : Shells (n + if g.term.termPty && i.ptyExited then 1 else 0) (ptyDispatch i g) := by
    unfold ptyDispatch
    split
    case isTrue hexit =>
      rw [Bool.and_eq_true] at hexit
      obtain ⟨hbalance, -, halone⟩ := h
      rw [hexit.1] at hbalance
      refine ⟨?_, by simp, ?_⟩
      · simpa [add_assoc] using hbalance
      · intro pre e post heq hlaunch
        exact (halone pre e post heq hlaunch).trans (by omega)
    case isFalse => exact h
  unfold readKeyboard exitsIn
  cases c.kbdFd with
  | true =>
      rw [Bool.true_and, if_pos rfl]
      apply (shells_keyStable _).kbdLoop _ _ hpty
  | false => exact h

/-! ### The panels -/

theorem terminalToggle_shells (h : Shells n g) :
  Shells n (terminalToggle i g)
  := by
  unfold terminalToggle
  dsimp only
  split_ifs
  · rw [closeCurrentPty_terminalMode]
    apply relaunch_shells h
  · rw [closeCurrentPty_terminalMode]
    apply relaunch_shells h
  · apply h.touches_keep (openPrompt_touches g _)
    simp
  · exact h

theorem terminalModeButton_shells (h : Shells n g) (b : Button) (mode : TerminalMode) :
  Shells n (terminalModeButton i b mode g)
  := by
  unfold terminalModeButton
  split
  · have hterm := closeCurrentPty_termPty { g with term.terminalMode := mode }
    have hmode := closeCurrentPty_terminalMode { g with term.terminalMode := mode }
    refine Shells.launch (h.close hterm ?_) hterm i .mode hmode.symm
    unfold closeCurrentPty
    dsimp only
    split <;> rfl
  · exact h

theorem terminalPanel_shells (h : Shells n g) :
  Shells n (terminalPanel c i g)
  := by
  refine terminalPanel_rel (R := Carries (Shells n)) ?_ ?_ ?_ h
  · intro _ _ h
    apply terminalToggle_shells h
  · intro g
    apply terminalModes_rel
    intro b mode g h
    apply terminalModeButton_shells h
  · intro g h
    exact h.keep rfl rfl (Emits.refl _ _)

theorem taskManagerPanel_shells (h : Shells n g) :
  Shells n (taskManagerPanel c i g)
  := by
  refine taskManagerPanel_rel (R := Carries (Shells n)) ?_ ?_ ?_ ?_ h
  · intro _ _
    apply taskManagerToggle_rel
    · exact fun h => h.keep rfl rfl (Emits.refl _ _)
    · exact fun _ h => h.keep rfl rfl (Emits.refl _ _)
    · intro _ _ _ h
      apply h.touches_keep (openPrompt_touches g _)
      simp
  · intro g h
    apply h.touches_keep (taskManagerBody_touches c i g)
    simp
  · intro g h
    exact h.keep rfl rfl (Emits.refl _ _)
  · intro g h
    apply h.touches_keep (consume_touches g)
    simp

theorem runPanel_shells (h : Shells n g) :
  Shells n (runPanel i g)
  := by
  refine runPanel_rel (R := Carries (Shells n)) ?_ ?_ ?_ ?_ h
  · intro g h
    exact h.keep rfl rfl (Emits.refl _ _)
  · intro g h
    apply h.touches_keep (editCommand_touches i g)
    simp
  · intro _ _ g _ _
    apply runAsRootToggle_rel
    · exact fun h => h.keep rfl rfl (Emits.refl _ _)
    · exact fun _ h => h.keep rfl rfl (Emits.refl _ _)
    · intro _ _ _ h
      apply h.touches_keep (openPrompt_touches g _)
      simp
  · intro isEnterPressed g h
    apply h.touches_keep (runButton_touches i g isEnterPressed)
    simp

theorem grant_shells (h : Shells n g) :
  Shells n (grant i g)
  := by
  unfold grant
  split
  · dsimp only
    rw [closeCurrentPty_terminalMode]
    apply relaunch_shells h
  · exact h.keep rfl rfl (Emits.refl _ _)
  · exact h.keep rfl rfl (Emits.refl _ _)
  · exact h

theorem verify_shells (h : Shells n g) :
  Shells n (verify i g)
  := by
  have hcheck : Shells n (checkPassword i g) := by
    apply h.touches (checkPassword_touches i g) rfl
    simp
  unfold verify
  dsimp only
  split
  · apply grant_shells
    exact hcheck.keep rfl rfl (Emits.refl _ _)
  · exact hcheck

theorem promptPanel_shells (h : Shells n g) :
  Shells n (promptPanel i g)
  := by
  refine promptPanel_rel (R := Carries (Shells n)) ?_ ?_ ?_ h
  · intro g h
    apply h.touches (dismissPrompt_touches g) (dismissPrompt_terminalRootMode g)
    simp
  · intro g h
    apply h.touches_keep (editRootPwd_touches i g)
    simp
  · intro g
    apply authenticate_rel
    · intro g h
      apply h.touches_keep (submitClicked_touches i g)
      simp
    · intro g h
      apply verify_shells h

/-- A terminal that is opened gets a shell only if it has none. -/
theorem terminalIcon_shells (h : Shells n g) :
  Shells n (terminalIcon c i g)
  := by
  unfold terminalIcon
  dsimp only
  split
  · have hpanels : ∀ p, Shells n { g with panels := p } :=
      fun p => h.keep rfl rfl (Emits.refl _ _)
    split
    case isTrue hopen =>
      simp only [Bool.and_eq_true, Bool.not_eq_true'] at hopen
      have hlaunch : ∀ p : Panels,
          Shells n ({ g with panels := p }.launchTerminalShell i .reopen g.term.terminalMode) :=
        fun p => (hpanels p).launch hopen.1.2 i .reopen rfl
      split
      · apply hlaunch
      · exact (hlaunch _).keep rfl rfl (Emits.refl _ _)
    case isFalse => apply hpanels
  · exact h

theorem endFrame_shells (h : Shells n g) :
  Shells n (endFrame i g)
  := by
  have hclose : Shells n
      (if g.locals.snap.showTerminal && !g.panels.showTerminal then g.closeCurrentPty else g) := by
    split
    · exact h.close (closeCurrentPty_termPty g) rfl
    · exact h
  unfold endFrame
  exact hclose.keep rfl rfl (Emits.refl _ _)

/-! ### Frames and runs -/

/-- The stages before the keyboard concern no shell. -/
theorem earlyStages_keep :
  ∀ f ∈ ((stageAspects c i).take 6).map Prod.fst, ∀ g : Gui,
    (f g).term = g.term ∧ ∀ n, Shells n g → Shells n (f g)
  := by
  refine stages_cases (List.take_subset _ _) [.root, .term, .launch] ?_ ?_
  · intro f as ht has g
    refine ⟨(ht g).same .term (has .term (by simp)), ?_⟩
    intro n h
    apply h.touches_keep (ht g)
    exact ⟨has .root (by simp), has .term (by simp), has .launch (by simp)⟩
  · have hloud : ((stageAspects c i).take 6).filter
        (fun p => [Aspect.root, .term, .launch].any (fun a => a ∈ p.2)) = [] := rfl
    rw [hloud]
    exact fun _ hp => absurd hp List.not_mem_nil

/-- The stages behind the keyboard keep the invariant. -/
theorem lateStages_shells :
  ∀ f ∈ ((stageAspects c i).drop 7).map Prod.fst, ∀ g n, Shells n g → Shells n (f g)
  := by
  refine stages_cases (List.drop_subset _ _) [.root, .term, .launch] ?_ ?_
  · intro f as ht has g n h
    apply h.touches_keep (ht g)
    exact ⟨has .root (by simp), has .term (by simp), has .launch (by simp)⟩
  · have hloud : ((stageAspects c i).drop 7).filter
          (fun p => [Aspect.root, .term, .launch].any (fun a => a ∈ p.2))
        = [(terminalPanel c i, .term :: .launch :: toggleAspects),
          (taskManagerPanel c i, taskManagerAspects),
          (runPanel i, .run :: .running :: toggleAspects), (promptPanel i, promptAspects),
          (terminalIcon c i, [.panels, .term, .launch]),
          (endFrame i, [.term, .display, .screen])] := rfl
    simp only [hloud, List.forall_mem_cons]
    exact ⟨fun _ _ h => terminalPanel_shells h, fun _ _ h => taskManagerPanel_shells h,
      fun _ _ h => runPanel_shells h, fun _ _ h => promptPanel_shells h,
      fun _ _ h => terminalIcon_shells h, fun _ _ h => endFrame_shells h, by simp⟩

theorem earlyStages_run (h : Shells n g) :
  (runStages (((stageAspects c i).take 6).map Prod.fst) g).term = g.term
    ∧ Shells n (runStages (((stageAspects c i).take 6).map Prod.fst) g)
  := by
  refine runStages_invariant (P := fun g' => g'.term = g.term ∧ Shells n g') ?_ ⟨rfl, h⟩
  rintro f hf g' ⟨hterm, hg'⟩
  obtain ⟨hsame, hkeep⟩ := earlyStages_keep f hf g'
  exact ⟨hsame.trans hterm, hkeep n hg'⟩

theorem frame_shells (h : Shells n g) :
  Shells (n + exitsIn c i g) (frame c i g)
  := by
  have hstages : stages c i = ((stageAspects c i).take 6).map Prod.fst
      ++ readKeyboard c i :: ((stageAspects c i).drop 7).map Prod.fst := rfl
  obtain ⟨hterm, hearly⟩ := earlyStages_run (c := c) (i := i) h
  rw [frame, hstages, runStages_append, runStages_cons]
  refine runStages_invariant (P := Shells _) (fun f hf g => lateStages_shells f hf g _) ?_
  have hkey := readKeyboard_shells (c := c) (i := i) hearly
  rw [exitsIn, hterm] at hkey
  exact hkey

/-- The shells that exit in a run. -/
def exits (c : Cfg) : List FrameIn → Gui → ℕ
  | [], _ => 0
  | i :: is, g => if g.running then exitsIn c i g + exits c is (frame c i g) else 0

theorem runFrames_shells (is : List FrameIn) (h : Shells n g) :
  Shells (n + exits c is g) (runFrames c is g)
  := by
  induction is generalizing n g with
  | nil => exact h
  | cons i is ih =>
      unfold exits runFrames runWhile
      split
      · rw [← add_assoc]
        exact ih (frame_shells h)
      · exact h

theorem start_shells (s : Start) :
  Shells 0 (start c s)
  := by
  have hinit : ∀ {g : Gui}, g.term.termPty = false → g.log = [] → Shells 0 g := by
    intro g hterm hlog
    constructor
    · simp [hterm, hlog, launched, closed]
    · simp [hterm]
    · rw [hlog]
      exact Recorded.nil
  unfold start
  dsimp only
  split
  · exact (hinit rfl rfl).launch rfl _ _ rfl
  · exact hinit rfl rfl

/-- Between any two stages of a frame the invariant holds. -/
theorem stages_shells (k : ℕ) (h : Shells n g) :
  ∃ m, Shells m (runStages ((stages c i).take k) g)
  := by
  refine runStages_invariant (P := fun g => ∃ m, Shells m g) ?_ ⟨n, h⟩
  rintro f hf g ⟨m, hm⟩
  have hstages : stages c i = ((stageAspects c i).take 6).map Prod.fst
      ++ readKeyboard c i :: ((stageAspects c i).drop 7).map Prod.fst := rfl
  have hmem := List.mem_of_mem_take hf
  rw [hstages, List.mem_append, List.mem_cons] at hmem
  obtain hearly | rfl | hlate := hmem
  · exact ⟨m, (earlyStages_keep f hearly g).2 m hm⟩
  · exact ⟨_, readKeyboard_shells hm⟩
  · exact ⟨m, lateStages_shells f hlate g m hm⟩

/-- Behind the loop a shell that still runs is closed. -/
theorem afterLoop_shells (h : Shells n g) :
  Shells n g.afterLoop ∧ g.afterLoop.term.termPty = false
  := by
  have hclose : Shells n g.closeCurrentPty := h.close (closeCurrentPty_termPty g) rfl
  unfold afterLoop
  dsimp only
  split
  · refine ⟨?_, closeCurrentPty_termPty g⟩
    apply hclose.touches_keep (@emit_touches _ [.execute] _ (by simp [Event.aspect]))
    simp
  · exact ⟨hclose, closeCurrentPty_termPty g⟩

/-- In every run at most one shell runs at a time: when one is launched, those before it were
closed or had exited by the keyboard stage of its frame, which comes first, and at the end every
one was closed or has exited.  While one runs, it is the one launched last, with the rights and the
program the terminal shows. -/
theorem shells_accounted (c : Cfg) (s : Start) (is : List FrameIn) :
  launched (runFrames c is (start c s)).afterLoop.log
      = closed (runFrames c is (start c s)).afterLoop.log + exits c is (start c s)
    ∧ (∀ j, LaunchedAlone (exits c (is.take j) (start c s))
      (runFrames c (is.take j) (start c s)).afterLoop.log)
    ∧ ∀ i k, let g := runStages ((stages c i).take k) (runFrames c is (start c s))
      g.term.termPty = true → lastShell g.log = some (g.root.terminalRootMode, g.term.terminalMode)
  := by
  have hrun : ∀ js : List FrameIn, Shells (exits c js (start c s)) (runFrames c js (start c s)) := by
    intro js
    have hshells := runFrames_shells (c := c) js (start_shells (c := c) s)
    rwa [zero_add] at hshells
  refine ⟨?_, ?_, ?_⟩
  · obtain ⟨hshells, hterm⟩ := afterLoop_shells (hrun is)
    have hbalance := hshells.balance
    rwa [hterm] at hbalance
  · intro j
    exact (afterLoop_shells (hrun (is.take j))).1.alone
  · intro i k
    obtain ⟨m, hm⟩ := stages_shells (c := c) (i := i) k (hrun is)
    exact hm.label

/-- The terminal is opened, and its program changed. -/
def changeShell : List FrameIn :=
  [{ keys := [press keyDown, press keyEnter] }, { nkButton := (· = .busybox) }]

theorem shells_accounted_changeShell :
  launched (runFrames desktop changeShell desktopStart).afterLoop.log = 2
    ∧ closed (runFrames desktop changeShell desktopStart).afterLoop.log = 2
  := by
  have hlaunched : launched (runFrames desktop changeShell desktopStart).afterLoop.log = 2 := by
    decide +kernel
  have hbalance := (shells_accounted desktop ⟨7, true, true⟩ changeShell).1
  have hexits : exits desktop changeShell (start desktop ⟨7, true, true⟩) = 0 := by decide +kernel
  rw [hexits] at hbalance
  exact ⟨hlaunched, hbalance.symm.trans hlaunched⟩

end Gui

end LnxCad
