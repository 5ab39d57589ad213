import LnxCad.Gui.KillSafety

/-!
# The process a key signals

The task manager keeps its selection as a row number.  A key that asks for a signal is read
before the list is drawn, so the process signalled is the one the user saw only as long as
the list stays as it was drawn in the previous frame and the selection does not move on.
-/

namespace LnxCad

/-- The number of scans in a log. -/
def scans (log : List Event) : ℕ := log.count .scanProcesses

namespace Gui

variable {c : Cfg} {i : FrameIn} {g g' g'' : Gui}

/-! ### Without a scan the list stays -/

theorem scans_of_touches {as : List Aspect} (h : Touches as g g') (has : .tm ∉ as) :
  scans g'.log = scans g.log
  := by
  obtain ⟨es, hes, has'⟩ := h.emits
  have hcount : es.count .scanProcesses = 0 := by
    apply List.count_eq_zero.mpr
    intro hmem
    apply has (has' _ hmem)
  rw [scans, hes, List.count_append, hcount]
  rfl

/-- Scans are only added, and without one the list shown stays as it was. -/
structure KeepsList (g g' : Gui) : Prop where
  le : scans g.log ≤ scans g'.log
  sortMode : scans g'.log = scans g.log → g'.tm.sortModeCpu = g.tm.sortModeCpu
  procsList : scans g'.log = scans g.log → g'.tm.procsList = g.tm.procsList

namespace KeepsList

theorem trans (h : KeepsList g g') (h' : KeepsList g' g'') :
  KeepsList g g''
  := by
  have hle := h.le
  have hle' := h'.le
  constructor
  · omega
  · intro heq
    rw [h'.sortMode (by omega), h.sortMode (by omega)]
  · intro heq
    rw [h'.procsList (by omega), h.procsList (by omega)]

theorem silent (hlog : scans g'.log = scans g.log) (hmode : g'.tm.sortModeCpu = g.tm.sortModeCpu)
    (hlist : g'.tm.procsList = g.tm.procsList) :
  KeepsList g g'
  := ⟨by omega, fun _ => hmode, fun _ => hlist⟩

theorem touches {as : List Aspect} (h : Touches as g g') (has : .tm ∉ as) :
  KeepsList g g'
  := by
  have htm : g'.tm = g.tm := h.same .tm has
  apply silent
  · apply scans_of_touches h has
  · rw [htm]
  · rw [htm]

theorem refl (g : Gui) :
  KeepsList g g
  := touches (Touches.refl [] g) (by simp)

theorem scan (g : Gui) (site : ScanSite) :
  KeepsList g (g.scan c i site)
  := by
  have hcount : scans (g.scan c i site).log = scans g.log + 1 := by
    simp [scans, Gui.scan, Gui.emit]
  constructor
  · omega
  · intro heq
    omega
  · intro heq
    omega

end KeepsList

theorem window_keepsList
    {w : Window} {body : Gui → Gui} (h : ∀ g, KeepsList g (body g)) (g : Gui) :
  KeepsList g (window i w body g)
  := by
  unfold window
  split
  · apply h
  · apply KeepsList.refl

theorem mainMenu_keepsList (g : Gui) :
  KeepsList g (mainMenu c i g)
  := by
  have htask : ∀ g, KeepsList g (menuTaskManager c i g) := by
    intro g
    unfold menuTaskManager
    dsimp only
    split_ifs
    · refine KeepsList.trans ?_ (KeepsList.touches (setPanels_touches _ _) (by simp))
      apply (KeepsList.touches (setPanels_touches g _) (by simp)).trans
      apply KeepsList.scan
    · exact KeepsList.silent rfl rfl rfl
    · apply KeepsList.refl
  have hbuttons : ∀ g, KeepsList g (menuButtons c i g) := by
    intro g
    unfold menuButtons
    split_ifs
    · apply (KeepsList.touches (menuLock_touches c i g) (by simp)).trans
      apply (KeepsList.touches (menuSwitchUser_touches c i _) (by simp)).trans
      apply (KeepsList.touches (menuSignOut_touches i _) (by simp)).trans
      apply (KeepsList.touches (menuChangePassword_touches i _) (by simp)).trans
      apply (htask _).trans
      apply (KeepsList.touches (menuRunCommand_touches i _) (by simp)).trans
      apply KeepsList.touches (menuCancel_touches i _)
      simp
    · apply KeepsList.touches (trigger_touches g _)
      simp
    · apply KeepsList.refl
  unfold mainMenu
  split
  · apply window_keepsList hbuttons
  · apply KeepsList.refl

theorem handOver_keepsList (g : Gui) :
  KeepsList g (handOver c i g)
  := by
  have hscan : ∀ g, KeepsList g (periodicScan c i g) := by
    intro g
    unfold periodicScan
    split
    · apply KeepsList.scan
    · apply KeepsList.refl
  have hperiodic : ∀ g, KeepsList g (periodic c i g) := by
    intro g
    apply (hscan g).trans
    apply (KeepsList.touches (periodicBacklight_touches _) (by simp)).trans
    exact KeepsList.silent rfl rfl rfl
  apply (KeepsList.touches (beginFrame_touches i g) (by simp)).trans
  apply (hperiodic _).trans
  apply (KeepsList.touches (readMouse_touches c _) (by simp)).trans
  apply (KeepsList.touches (filterMouse_touches _) (by simp)).trans
  apply (KeepsList.touches (cornerIcons_touches c _) (by simp)).trans
  apply (KeepsList.touches (clearPasswords_touches _) (by simp)).trans
  apply KeepsList.touches (readKeyboard_touches c i _)
  simp [keyAspects]

/-- The tabs change nothing but the list selected. -/
theorem tabButtons_tm (g : Gui) :
  ∃ mode, (tabButtons i g).tm = { g.tm with sortModeCpu := mode }
    ∧ scans (tabButtons i g).log = scans g.log
  := by
  apply runStages_invariant
    (P := fun g' : Gui => ∃ mode, g'.tm = { g.tm with sortModeCpu := mode }
      ∧ scans g'.log = scans g.log)
  · have htab : ∀ b tab m g', (∃ mode, g'.tm = { g.tm with sortModeCpu := mode }
        ∧ scans g'.log = scans g.log) →
        ∃ mode, (tabButton i b tab m g').tm = { g.tm with sortModeCpu := mode }
          ∧ scans (tabButton i b tab m g').log = scans g.log := by
      rintro b tab m g' ⟨mode, htm, hlog⟩
      unfold tabButton
      split
      · use m
        have ht := consume_touches { g' with tm.sortModeCpu := m }
        have hsame : _ = ({ g' with tm.sortModeCpu := m } : Gui).tm := ht.same .tm (by simp)
        rw [hsame, scans_of_touches ht (by simp)]
        constructor
        · simp [htm]
        · exact hlog
      · use mode
    simp only [List.forall_mem_cons]
    exact ⟨htab _ _ _, htab _ _ _, htab _ _ _, by simp⟩
  · use g.tm.sortModeCpu

theorem tabs_keepsList (g : Gui) :
  KeepsList g (tabs c i g)
  := by
  obtain ⟨mode, htm, hscans⟩ := tabButtons_tm (i := i) g
  unfold tabs
  dsimp only
  split
  · have hscan := KeepsList.scan (c := c) (i := i) (tabButtons i g) .tab
    have hcount : scans ((tabButtons i g).scan c i .tab).log = scans (tabButtons i g).log + 1 := by
      simp [scans, Gui.scan, Gui.emit]
    constructor
    · omega
    · intro heq
      omega
    · intro heq
      omega
  case isFalse hsame =>
    have hmode : mode = g.tm.sortModeCpu := by
      rw [htm] at hsame
      simpa using (not_not.mp hsame).symm
    apply KeepsList.silent hscans
    · rw [htm, hmode]
    · rw [htm, hmode]

theorem searchField_keepsList (g : Gui) :
  KeepsList g (searchField c i g)
  := by
  unfold searchField
  dsimp only
  split_ifs
  · refine KeepsList.trans ?_ (KeepsList.scan _ _)
    exact KeepsList.silent rfl rfl rfl
  · exact KeepsList.silent rfl rfl rfl
  · apply KeepsList.refl

/-! ### The picture -/

/-- A row as drawn agrees with the list. -/
def ShownIn (g : Gui) (r : ShownRow) : Prop :=
  ∃ p, g.tm.procsList[r.row]? = some p ∧ p.pid = r.pid

/-- The rows drawn so far lie above row `n` and agree with the list. -/
def DrawnTo (n : ℕ) (g : Gui) : Prop :=
  ∀ r ∈ g.screen.drawn, r.row < n ∧ ShownIn g r

theorem DrawnTo.touches
    {as : List Aspect} {n : ℕ} (h : DrawnTo n g) (ht : Touches as g g')
    (has : .tm ∉ as ∧ .screen ∉ as) :
  DrawnTo n g'
  := by
  have htm : g'.tm = g.tm := ht.same .tm has.1
  have hscreen : g'.screen = g.screen := ht.same .screen has.2
  simp only [DrawnTo, ShownIn, htm, hscreen]
  apply h

/-- A signal overwrites only its own row. -/
theorem signalButton_drawnTo
    {b : Button} {row col : ℕ} {alive : Bool} {signal : ProcessInfo → Signal}
    {after : ProcessInfo → ProcessInfo} (h : DrawnTo row g) :
  DrawnTo row (signalButton i b row col alive signal after g)
  := by
  apply signalButton_cases (P := DrawnTo row) h
  · intro _ _
    apply h.touches (consume_touches g)
    simp
  · intro p _ _ _
    refine DrawnTo.touches ?_ (consume_touches _) (by simp)
    intro r hr
    obtain ⟨hlt, q, hq, hpid⟩ := h r hr
    refine ⟨hlt, q, ?_, hpid⟩
    simp only [signalled, TaskManager.procsList_setRow]
    rw [List.getElem?_set_ne (by omega)]
    apply hq

theorem DrawnTo.mono {n m : ℕ} (h : DrawnTo n g) (hnm : n ≤ m) :
  DrawnTo m g
  := by
  intro r hr
  obtain ⟨hlt, hshown⟩ := h r hr
  exact ⟨by omega, hshown⟩

theorem drawRow_drawnTo {row : ℕ} (h : DrawnTo row g) :
  DrawnTo (row + 1) (drawRow row g)
  := by
  unfold drawRow
  split
  · apply h.mono
    omega
  case h_2 p hp =>
    intro r hr
    obtain hr | hr := List.mem_append.mp hr
    · obtain ⟨hlt, hshown⟩ := h r hr
      exact ⟨by omega, hshown⟩
    · rw [List.mem_singleton.mp hr]
      exact ⟨by simp, p, hp, rfl⟩

theorem processRow_drawnTo {row : ℕ} (h : DrawnTo row g) :
  DrawnTo (row + 1) (processRow c i g row)
  := by
  unfold processRow
  split
  · apply h.mono
    omega
  · dsimp only
    split
    · apply h.mono
      omega
    · apply drawRow_drawnTo
      refine DrawnTo.touches ?_ (labelButton_touches i _ row) (by simp)
      apply signalButton_drawnTo
      apply signalButton_drawnTo
      apply signalButton_drawnTo h

theorem processRows_drawnTo (h : DrawnTo 0 g) (n : ℕ) :
  DrawnTo n ((List.range n).foldl (processRow c i) g)
  := by
  induction n with
  | zero => apply h
  | succ n ih =>
      rw [List.range_succ, List.foldl_append]
      apply processRow_drawnTo ih

/-- The same list is shown, with as many rows. -/
def SameShape (g g' : Gui) : Prop :=
  g'.tm.sortModeCpu = g.tm.sortModeCpu ∧ g'.tm.procsList.length = g.tm.procsList.length

theorem SameShape.rowLimit_eq (h : SameShape g g') :
  rowLimit c g' = rowLimit c g
  := by
  simp only [rowLimit, maxDisplay, h.1, h.2]

theorem SameShape.touches {as : List Aspect} (ht : Touches as g g') (has : .tm ∉ as) :
  SameShape g g'
  := by
  have htm : g'.tm = g.tm := ht.same .tm has
  exact ⟨by rw [htm], by rw [htm]⟩

theorem SameShape.trans (h : SameShape g g') (h' : SameShape g' g'') :
  SameShape g g''
  := ⟨h'.1.trans h.1, h'.2.trans h.2⟩

theorem setRow_sortModeCpu (t : TaskManager) (row : ℕ) (p : ProcessInfo) :
  (t.setRow row p).sortModeCpu = t.sortModeCpu
  := by
  obtain ⟨procs, mode, search⟩ := t
  cases mode <;> rfl

theorem signalButton_sameShape
    {b : Button} {row col : ℕ} {alive : Bool} {signal : ProcessInfo → Signal}
    {after : ProcessInfo → ProcessInfo} (g : Gui) :
  SameShape g (signalButton i b row col alive signal after g)
  := by
  apply signalButton_cases (P := SameShape g)
  · exact ⟨rfl, rfl⟩
  · intro _ _
    apply SameShape.touches (consume_touches g)
    simp
  · intro p _ _ _
    refine SameShape.trans ?_ (SameShape.touches (consume_touches _) (by simp))
    constructor
    · apply setRow_sortModeCpu
    · simp [signalled, TaskManager.procsList_setRow]

theorem processRow_sameShape (g : Gui) (row : ℕ) :
  SameShape g (processRow c i g row)
  := by
  unfold processRow
  split
  · exact ⟨rfl, rfl⟩
  · dsimp only
    split
    · exact ⟨rfl, rfl⟩
    · refine SameShape.trans ?_ (SameShape.touches (drawRow_touches _ row) (by simp))
      refine SameShape.trans ?_ (SameShape.touches (labelButton_touches i _ row) (by simp))
      refine SameShape.trans ?_ (signalButton_sameShape _)
      refine SameShape.trans ?_ (signalButton_sameShape _)
      apply signalButton_sameShape

theorem processRows_sameShape (g : Gui) :
  SameShape g (processRows c i g)
  := by
  unfold processRows
  apply List.foldlRecOn (motive := SameShape g)
  · apply SameShape.touches (clampRow_touches g _)
    simp
  · intro g' hg' row _
    apply hg'.trans
    apply processRow_sameShape

/-- The picture agrees with the list: every row of it is among those the list shows now,
with the process it showed. -/
def PictureInv (c : Cfg) (g : Gui) : Prop :=
  ∀ r ∈ g.screen.picture, r.row < rowLimit c g ∧ ShownIn g r

theorem pressKey_drawn (code unicode : ℕ) (g : Gui) :
  (pressKey code unicode g).screen.drawn = g.screen.drawn
  := by
  have hescape : g.escape.screen = g.screen := (escape_touches g).same .screen (by simp)
  have hprompt : (g.promptActivate code).screen = g.screen :=
    (promptActivate_touches g code).same .screen (by simp)
  have hcp : (g.changePasswordActivate code).screen = g.screen :=
    (changePasswordActivate_touches g code).same .screen (by simp)
  have hmenu : (g.menuActivate code).screen.drawn = g.screen.drawn := by
    have hpower : g.powerActivate.screen = g.screen :=
      (powerActivate_touches g).same .screen (by simp)
    unfold menuActivate
    dsimp only
    split_ifs
    · rfl
    · exact congrArg Screen.drawn hpower
    · rfl
    · rfl
  refine firstRule_cases (P := fun g' : Gui => g'.screen.drawn = g.screen.drawn) ?_ rfl
  have hrules : ∀ r ∈ keyRules code unicode g, r.2.screen.drawn = g.screen.drawn := by
    simp only [keyRules, List.forall_mem_cons, hescape, hprompt, hcp, hmenu]
    simp [touchKeyboard, submitDialog, Gui.emit]
  intro r hr _
  apply hrules r hr

/-- Nothing is drawn of the list before its turn. -/
theorem handOver_drawn (g : Gui) :
  (handOver c i g).screen.drawn = []
  := by
  have hstable : KeyStable (fun g : Gui => g.screen.drawn = []) := by
    constructor
    case press =>
      intro g code unicode h
      rw [pressKey_drawn, h]
    all_goals
      intros
      assumption
  have hkeep : ∀ {as : List Aspect} {g g' : Gui}, Touches as g g' → .screen ∉ as →
      g.screen.drawn = [] → g'.screen.drawn = [] := by
    intro as g g' ht has h
    have hscreen : g'.screen = g.screen := ht.same .screen has
    rw [hscreen, h]
  have h1 : (beginFrame i g).screen.drawn = [] := rfl
  have h2 := hkeep (periodic_touches c i _) (by simp) h1
  have h3 := hkeep (readMouse_touches c _) (by simp) h2
  have h4 := hkeep (filterMouse_touches _) (by simp) h3
  have h5 := hkeep (cornerIcons_touches c _) (by simp) h4
  have h6 := hkeep (clearPasswords_touches _) (by simp) h5
  show (readKeyboard c i _).screen.drawn = []
  unfold readKeyboard
  split
  · apply hstable.kbdLoop
    apply hkeep (ptyDispatch_touches i _) (by simp) h6
  · apply h6

theorem taskManagerBody_drawnTo (h : g.screen.drawn = []) :
  DrawnTo (rowLimit c (taskManagerBody c i g)) (taskManagerBody c i g)
  := by
  have ht := (tabs_touches c i g).seq (searchField_touches c i (tabs c i g)) (C := [.tm, .menu])
    (by simp) (by simp)
  have hscreen : (searchField c i (tabs c i g)).screen = g.screen := ht.same .screen (by simp)
  have hzero : DrawnTo 0 (searchField c i (tabs c i g)) := by
    simp [DrawnTo, hscreen, h]
  unfold taskManagerBody
  rw [(processRows_sameShape (searchField c i (tabs c i g))).rowLimit_eq]
  apply processRows_drawnTo
  apply hzero.touches (clampRow_touches _ _)
  simp

theorem taskManagerPanel_drawnTo (h : g.screen.drawn = []) :
  DrawnTo (rowLimit c (taskManagerPanel c i g)) (taskManagerPanel c i g)
  := by
  have hempty : ∀ {g : Gui}, g.screen.drawn = [] → DrawnTo (rowLimit c g) g := by
    intro g h
    simp [DrawnTo, h]
  have hdone : ∀ {g g' : Gui}, Touches [.panels, .menu] g g' → DrawnTo (rowLimit c g) g →
      DrawnTo (rowLimit c g') g' := by
    intro g g' ht hg
    rw [(SameShape.touches ht (by simp)).rowLimit_eq]
    apply hg.touches ht
    simp
  have hbar : ∀ g, Touches [.panels, .menu] g (window i .taskManagerClose (taskManagerBar i) g) :=
    fun g => window_rel fun _ => taskManagerBar_touches i g
  have hbody : ∀ {g : Gui}, g.screen.drawn = [] →
      DrawnTo (rowLimit c (window i .taskManager (taskManagerBody c i) g))
        (window i .taskManager (taskManagerBody c i) g) := by
    intro g h
    unfold window
    split
    · apply taskManagerBody_drawnTo h
    · apply hempty h
  unfold taskManagerPanel
  split
  · have htitle : Touches toggleAspects g (window i .taskManagerTitle (taskManagerTitle i) g) :=
      window_rel fun _ => taskManagerTitle_touches i g
    have hscreen : (window i .taskManagerTitle (taskManagerTitle i) g).screen = g.screen :=
      htitle.same .screen (by simp [toggleAspects])
    have h1 := hbody (g := window i .taskManagerTitle (taskManagerTitle i) g) (by rw [hscreen, h])
    have h2 := hdone (hbar _) h1
    apply hdone ((consume_touches _).mono (by simp)) h2
  · apply hempty h

/-- A frame leaves the picture in agreement with the list. -/
theorem frame_picture (c : Cfg) (i : FrameIn) (g : Gui) :
  PictureInv c (frame c i g)
  := by
  have hearly : (beforeTaskManager c i g).screen = (handOver c i g).screen :=
    (beforeTaskManager_touches c i g).same .screen (by simp [earlyAspects, menuAspects, toggleAspects])
  have hdrawn := taskManagerPanel_drawnTo (c := c) (i := i) (g := beforeTaskManager c i g)
    (by rw [hearly, handOver_drawn])
  have hlate := lateStages_touches c i (taskManagerPanel c i (beforeTaskManager c i g))
  have hdrawn' := hdrawn.touches hlate (by simp [lateAspects])
  rw [← (SameShape.touches hlate (by simp [lateAspects])).rowLimit_eq] at hdrawn'
  rw [frame_eq]
  generalize runStages (lateStages c i) _ = g' at hdrawn'
  have htm : (endFrame i g').tm = g'.tm := (endFrame_touches i g').same .tm (by simp)
  have hpicture : (endFrame i g').screen.picture = g'.screen.drawn := by
    unfold endFrame
    dsimp only
    split
    · have hscreen : g'.closeCurrentPty.screen = g'.screen :=
        (closeCurrentPty_touches g').same .screen (by simp)
      rw [hscreen]
    · rfl
  simp only [PictureInv, ShownIn, hpicture, rowLimit, maxDisplay, htm]
  apply hdrawn'

theorem reachable_picture (h : Reachable c g) :
  PictureInv c g
  := by
  apply h.invariant
  · intro s
    have hscreen : (start c s).screen = {} := by
      unfold start
      dsimp only
      split
      · exact (launchTerminalShell_touches _ _ _ _).same .screen (by simp)
      · rfl
    simp [PictureInv, hscreen]
  · intro i g _ _
    apply frame_picture

/-! ### The target of a key -/

/-- A signal asked for by a key goes to the selected row of a list. -/
def KeyTarget (list : List ProcessInfo) (row : ℕ) (e : Event) : Prop :=
  ∀ k, e = .kill k → k.byKey → ∃ p, list[row]? = some p ∧ p.pid = k.pid

/-- While the rows are drawn: as long as the request is pending the list is the one the
drawing began with, the selection stays, and the signals asked for by a key went to the
selected row of that list. -/
structure Aim (list : List ProcessInfo) (row : ℕ) (log : List Event) (g : Gui) : Prop where
  pending : g.menu.triggerAction = 100 → g.tm.procsList = list
  selected : g.focus.tmSelectedRow = row
  emits : Emits (KeyTarget list row) log g.log

theorem keyTarget_of_aspect
    {list : List ProcessInfo} {row : ℕ} {e : Event} (h : e.aspect ≠ .kill) :
  KeyTarget list row e
  := by
  rintro k rfl
  exact absurd rfl h

theorem Aim.touches
    {as : List Aspect} {list : List ProcessInfo} {row : ℕ} {log : List Event}
    (h : Aim list row log g) (ht : Touches as g g')
    (has : .kill ∉ as ∧ .tm ∉ as ∧ .focus ∉ as) (hspent : Spent g g') :
  Aim list row log g'
  := by
  have htm : g'.tm = g.tm := ht.same .tm has.2.1
  have hfocus : g'.focus = g.focus := ht.same .focus has.2.2
  constructor
  · intro htrigger
    rw [htm]
    apply h.pending (hspent.request htrigger)
  · rw [hfocus]
    apply h.selected
  · apply h.emits.trans
    apply ht.emits.mono
    intro e he
    apply keyTarget_of_aspect
    intro heq
    apply has.1 (heq ▸ he)

theorem signalButton_aim
    {b : Button} {row col sel : ℕ} {alive : Bool} {signal : ProcessInfo → Signal}
    {after : ProcessInfo → ProcessInfo} {list : List ProcessInfo} {log : List Event}
    (h : Aim list sel log g) :
  Aim list sel log (signalButton i b row col alive signal after g)
  := by
  apply signalButton_cases (P := Aim list sel log) h
  · intro _ _
    apply h.touches (consume_touches g) (by simp) (consume_spent g)
  · intro p hp _ _
    have ht := consume_touches (g.signalled row col p (signal p) (after p))
    have hfocus : _ = (g.signalled row col p (signal p) (after p)).focus := ht.same .focus (by simp)
    constructor
    · intro htrigger
      exact absurd htrigger (consume_triggerAction_ne _)
    · rw [hfocus]
      apply h.selected
    · have hkill : Emits (KeyTarget list sel) g.log (g.signalled row col p (signal p) (after p)).log := by
        apply Emits.single
        rintro k hk hkey
        cases hk
        simp only [rowKey, Bool.and_eq_true, beq_iff_eq] at hkey
        have hlist := h.pending hkey.1.1.1.1
        have hrow : sel = row := by
          rw [← h.selected, hkey.1.2]
        use p
        rw [hrow, ← hlist]
        exact ⟨hp, rfl⟩
      apply (h.emits.trans hkill).trans
      apply ht.emits.mono
      intro e he
      apply keyTarget_of_aspect
      intro heq
      simp [heq] at he

theorem processRow_aim
    {row sel : ℕ} {list : List ProcessInfo} {log : List Event} (h : Aim list sel log g) :
  Aim list sel log (processRow c i g row)
  := by
  unfold processRow
  split
  · apply h
  case h_2 p hp =>
    dsimp only
    split
    · apply h
    · have h1 : Aim list sel log (killButton i row (canManage c g p) g) := signalButton_aim h
      have h2 : Aim list sel log
          (terminateButton i row (canManage c g p) (killButton i row (canManage c g p) g)) :=
        signalButton_aim h1
      have h3 : Aim list sel log
          (pauseButton i row (canManage c g p)
            (terminateButton i row (canManage c g p) (killButton i row (canManage c g p) g))) :=
        signalButton_aim h2
      have h4 := h3.touches (labelButton_touches i _ row) (by simp) (labelButton_spent row _)
      apply h4.touches (drawRow_touches _ row) (by simp)
      apply Spent.touches (drawRow_touches _ row)
      simp

theorem processRows_aim
    {sel : ℕ} {list : List ProcessInfo} {log : List Event} (h : Aim list sel log g)
    (hsel : sel < rowLimit c g) :
  Aim list sel log (processRows c i g)
  := by
  have hclamp : clampRow (rowLimit c g) g = g := by
    unfold clampRow
    rw [if_neg]
    rw [h.selected]
    omega
  unfold processRows
  dsimp only
  rw [hclamp]
  apply List.foldlRecOn (motive := Aim list sel log) _ _ h
  intro g' hg' row _
  apply processRow_aim hg'

theorem scans_le_of_touches {as : List Aspect} (h : Touches as g g') :
  scans g.log ≤ scans g'.log
  := by
  obtain ⟨es, hes, -⟩ := h.emits
  rw [scans, scans, hes, List.count_append]
  omega

theorem keyTarget_of_touches
    {as : List Aspect} {list : List ProcessInfo} {row : ℕ} (h : Touches as g g')
    (has : .kill ∉ as) :
  Emits (KeyTarget list row) g.log g'.log
  := by
  apply h.emits.mono
  intro e he
  apply keyTarget_of_aspect
  intro heq
  apply has (heq ▸ he)

theorem taskManagerBody_target
    (hscans : scans (taskManagerBody c i g).log = scans g.log)
    (hrow : g.focus.tmSelectedRow < rowLimit c g) :
  Emits (KeyTarget g.tm.procsList g.focus.tmSelectedRow) g.log (taskManagerBody c i g).log
  := by
  have hkeeps : KeepsList g (searchField c i (tabs c i g)) :=
    (tabs_keepsList g).trans (searchField_keepsList _)
  have ht := (tabs_touches c i g).seq (searchField_touches c i (tabs c i g)) (C := [.tm, .menu])
    (by simp) (by simp)
  have hle := scans_le_of_touches (processRows_touches c i (searchField c i (tabs c i g)))
  have heq : scans (searchField c i (tabs c i g)).log = scans g.log := by
    have := hkeeps.le
    unfold taskManagerBody at hscans
    omega
  have hfocus : (searchField c i (tabs c i g)).focus = g.focus := ht.same .focus (by simp)
  have hlimit : rowLimit c (searchField c i (tabs c i g)) = rowLimit c g := by
    simp only [rowLimit, maxDisplay, hkeeps.sortMode heq, hkeeps.procsList heq]
  have haim : Aim g.tm.procsList g.focus.tmSelectedRow g.log (searchField c i (tabs c i g)) := by
    constructor
    · intro _
      apply hkeeps.procsList heq
    · rw [hfocus]
    · apply keyTarget_of_touches ht
      simp
  apply (processRows_aim haim (by rw [hlimit]; exact hrow)).emits

theorem taskManagerPanel_target
    (hscans : scans (taskManagerPanel c i g).log = scans g.log)
    (hrow : g.focus.tmSelectedRow < rowLimit c g) :
  Emits (KeyTarget g.tm.procsList g.focus.tmSelectedRow) g.log (taskManagerPanel c i g).log
  := by
  unfold taskManagerPanel at hscans ⊢
  split at hscans
  case isFalse hclosed =>
    rw [if_neg hclosed]
    apply Emits.refl
  case isTrue hopen =>
    rw [if_pos hopen]
    have htitle : Touches toggleAspects g (window i .taskManagerTitle (taskManagerTitle i) g) :=
      window_rel fun _ => taskManagerTitle_touches i g
    have hbar : ∀ g, Touches [.panels, .menu] g (window i .taskManagerClose (taskManagerBar i) g) :=
      fun g => window_rel fun _ => taskManagerBar_touches i g
    simp only [runStages_cons, runStages_nil] at hscans ⊢
    generalize window i .taskManagerTitle (taskManagerTitle i) g = g₁ at hscans htitle ⊢
    have htm : g₁.tm = g.tm := htitle.same .tm (by simp [toggleAspects])
    have hfocus : g₁.focus = g.focus := htitle.same .focus (by simp [toggleAspects])
    have hlimit := (SameShape.touches htitle (by simp [toggleAspects])).rowLimit_eq (c := c)
    have hbody : scans (window i .taskManager (taskManagerBody c i) g₁).log = scans g₁.log →
        Emits (KeyTarget g.tm.procsList g.focus.tmSelectedRow) g₁.log
          (window i .taskManager (taskManagerBody c i) g₁).log := by
      rw [← htm, ← hfocus]
      unfold window
      split
      · intro hscans
        apply taskManagerBody_target hscans
        rw [hfocus, hlimit]
        exact hrow
      · intro _
        apply Emits.refl
    have hle : scans g₁.log ≤ scans (window i .taskManager (taskManagerBody c i) g₁).log :=
      scans_le_of_touches (window_rel fun _ => taskManagerBody_touches c i g₁)
    generalize window i .taskManager (taskManagerBody c i) g₁ = g₂ at hscans hbody hle ⊢
    rw [scans_of_touches (consume_touches _) (by simp), scans_of_touches (hbar g₂) (by simp)] at hscans
    have hscans₁ := scans_of_touches htitle (by simp [toggleAspects])
    apply (keyTarget_of_touches htitle (by simp [toggleAspects])).trans
    apply (hbody (by omega)).trans
    apply (keyTarget_of_touches (hbar g₂) (by simp)).trans
    apply keyTarget_of_touches (consume_touches _)
    simp

/-- In a frame without a scan, a key acts on the selected row of the list as it was when
the frame began. -/
theorem frame_target
    (hscans : scans (frame c i g).log = scans g.log)
    (hrow : (handOver c i g).focus.tmSelectedRow < rowLimit c g) :
  Emits (KeyTarget g.tm.procsList (handOver c i g).focus.tmSelectedRow) g.log (frame c i g).log
  := by
  have hearly := beforeTaskManager_touches c i g
  have hlate := frame_touches_late c i g
  have hinput : KeepsList g (beforeTaskManager c i g) := by
    apply (handOver_keepsList g).trans
    apply (mainMenu_keepsList _).trans
    apply KeepsList.touches (terminalPanel_touches c i _)
    simp [toggleAspects]
  have hle := scans_le_of_touches (taskManagerPanel_touches c i (beforeTaskManager c i g))
  have hscans' := scans_of_touches hlate (by simp [lateAspects])
  have heq : scans (beforeTaskManager c i g).log = scans g.log := by
    have := hinput.le
    omega
  have hfocus : (beforeTaskManager c i g).focus = (handOver c i g).focus :=
    hearly.same .focus (by simp [earlyAspects, menuAspects, toggleAspects])
  have hlimit : rowLimit c (beforeTaskManager c i g) = rowLimit c g := by
    simp only [rowLimit, maxDisplay, hinput.sortMode heq, hinput.procsList heq]
  have hpanel := taskManagerPanel_target (c := c) (i := i) (g := beforeTaskManager c i g)
    (by omega) (by rw [hfocus, hlimit]; exact hrow)
  rw [hinput.procsList heq, hfocus] at hpanel
  apply (keyTarget_of_touches (handOver_touches c i g) (by simp [inputAspects, keyAspects])).trans
  apply (keyTarget_of_touches hearly (by simp [earlyAspects, menuAspects, toggleAspects])).trans
  apply hpanel.trans
  apply keyTarget_of_touches hlate
  simp [lateAspects]

/-- Every signal a key asks for in the frame goes to the process that the picture showed in
the row selected when the key was read, if it showed that row. -/
def KeySignalsShown (c : Cfg) (i : FrameIn) (g : Gui) : Prop :=
  ∀ es k pid, (frame c i g).log = g.log ++ es → Event.kill k ∈ es → k.byKey →
    ⟨(handOver c i g).screen.keyRow, pid⟩ ∈ g.screen.picture → k.pid = pid

/-- The process a key signals is the one the user saw, as long as no scan runs in the frame
and no later key of the frame moves the selection on. -/
theorem keySignalsShown_of_still
    (c : Cfg) (i : FrameIn) (g : Gui) (hreach : Reachable c g)
    (hscans : scans (frame c i g).log = scans g.log)
    (hstay : (handOver c i g).focus.tmSelectedRow = (handOver c i g).screen.keyRow) :
  KeySignalsShown c i g
  := by
  intro es k pid hlog hkill hkey hshown
  obtain ⟨hrow, p, hp, hpid⟩ := reachable_picture hreach _ hshown
  obtain ⟨es', hlog', htarget⟩ := frame_target (c := c) (i := i) hscans (by rw [hstay]; exact hrow)
  have hes : es' = es := List.append_cancel_left (hlog'.symm.trans hlog)
  rw [hes] at htarget
  obtain ⟨q, hq, hqpid⟩ := htarget _ hkill k rfl hkey
  rw [hstay, hp] at hq
  cases hq
  rw [← hqpid, hpid]

/-- The state in which the user has seen the processes `601` and `602`. -/
def twoListed : Gui := runFrames desktop [openTaskManager] desktopStart

/-- Enter on the first row: the process `601` is killed. -/
theorem keySignalsShown_of_still_desktop :
  kills (frame desktop pressEnter twoListed).log = [⟨601, .sigkill, 1000, 0, false, true⟩]
    ∧ KeySignalsShown desktop pressEnter twoListed
  := by
  refine ⟨by decide +kernel, ?_⟩
  apply keySignalsShown_of_still
  · apply desktop_reachable
  · decide +kernel
  · decide +kernel

/-- Enter and Down in one frame. -/
def pressEnterDown : FrameIn := { keys := [press keyEnter, press keyDown] }

/-- The state one second later, when the next frame begins with a scan. -/
def twoListedLater : Gui :=
  runFrames desktop (openTaskManager :: List.replicate 59 {}) desktopStart

/-- Enter in a frame that begins with a scan, which meets the processes in another order. -/
def pressEnterRescan : FrameIn := { pressEnter with snapshot := fun _ => listing [602, 601] }

/-- The first row shows the process `601`, and Enter on it kills the process `602`: because a
key behind it in the same frame moves the selection, or because a scan changes the
order. -/
theorem not_keySignalsShown_desktop :
  Reachable desktop twoListed ∧ ¬ KeySignalsShown desktop pressEnterDown twoListed
    ∧ Reachable desktop twoListedLater ∧ ¬ KeySignalsShown desktop pressEnterRescan twoListedLater
  := by
  refine ⟨desktop_reachable _, ?_, desktop_reachable _, ?_⟩
  · intro h
    have hpid := h ((frame desktop pressEnterDown twoListed).log.drop twoListed.log.length)
      ⟨602, .sigkill, 1000, 1, false, true⟩ 601 (by decide +kernel) (by decide +kernel) rfl
      (by decide +kernel)
    exact absurd hpid (by decide)
  · intro h
    have hpid := h ((frame desktop pressEnterRescan twoListedLater).log.drop
      twoListedLater.log.length) ⟨602, .sigkill, 1000, 0, false, true⟩ 601 (by decide +kernel)
      (by decide +kernel) rfl (by decide +kernel)
    exact absurd hpid (by decide)

end Gui

end LnxCad
