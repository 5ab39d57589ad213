import LnxCad.Gui.RootGate
import LnxCad.Gui.Trigger

/-!
# Signals

The row of a killed process keeps the number `-1` until the end of the frame, and a signal
to that number would reach every process.  It is never sent: in one frame either the
keyboard is in use and the toolkit reports no click, and the request of the keyboard is
taken once, or there is no such request and at most one button is clicked.  The argument
counts: every signal of a frame is paid for by the request or by a click.
-/

namespace LnxCad

/-- The signals of a log. -/
def Event.kill? : Event → Option Kill
  | .kill k => some k
  | _ => none

/-- The signals of a log, in order. -/
def kills (log : List Event) : List Kill := log.filterMap Event.kill?

/-- A signal to a process with a positive number other than the program's own, alive for
the user at that moment. -/
def Kill.Safe (c : Cfg) (k : Kill) : Prop :=
  0 < k.pid ∧ k.pid ≠ c.myPid ∧ (k.rootMode ∨ toInt32 k.uid = c.userUid)

/-- What a row can hold: a process a scan listed, or the mark of a killed one. -/
def Listed (myPid : ℕ) (p : ProcessInfo) : Prop := Foreign myPid p ∨ p.pid = -1

theorem TaskManager.all_setRow
    {P : ProcessInfo → Prop} {t : TaskManager} (h : t.procs.All P) {p : ProcessInfo} (hp : P p)
    (row : ℕ) :
  (t.setRow row p).procs.All P
  := by
  have hset : ∀ {l : List ProcessInfo}, (∀ q ∈ l, P q) → ∀ q ∈ l.set row p, P q := by
    intro l hl q hq
    obtain hq | rfl := List.mem_or_eq_of_mem_set hq
    · apply hl q hq
    · apply hp
  obtain ⟨procs, mode, search⟩ := t
  cases mode with
  | memory => exact ⟨hset h.mem, h.cpu, h.search⟩
  | cpu => exact ⟨h.mem, hset h.cpu, h.search⟩
  | search => exact ⟨h.mem, h.cpu, hset h.search⟩

theorem TaskManager.of_mem_procsList
    {P : ProcessInfo → Prop} {t : TaskManager} (h : t.procs.All P) {p : ProcessInfo} {row : ℕ}
    (hp : t.procsList[row]? = some p) :
  P p
  := by
  have hmem := List.mem_of_getElem? hp
  obtain ⟨procs, mode, search⟩ := t
  cases mode with
  | memory => apply h.mem p hmem
  | cpu => apply h.cpu p hmem
  | search => apply h.search p hmem

namespace Gui

variable {c : Cfg} {i : FrameIn} {g g' : Gui}

/-! ### The invariant of the loop -/

/-- Every signal so far was safe, and every row holds what it can. -/
structure KillInv (c : Cfg) (g : Gui) : Prop where
  safe : ∀ k ∈ kills g.log, k.Safe c
  listed : g.tm.procs.All (Listed c.myPid)

theorem kills_of_touches {as : List Aspect} (h : Touches as g g') (has : .kill ∉ as) :
  kills g'.log = kills g.log
  := by
  apply h.emits.filterMap_eq
  intro e he
  cases e with
  | kill k => exact absurd he has
  | _ => rfl

theorem KillInv.touches {as : List Aspect} (h : KillInv c g) (ht : Touches as g g')
    (has : .kill ∉ as ∧ .tm ∉ as) :
  KillInv c g'
  := by
  have htm : g'.tm = g.tm := ht.same .tm has.2
  constructor
  · rw [kills_of_touches ht has.1]
    apply h.safe
  · rw [htm]
    apply h.listed

/-- A change of the task manager that sends nothing and keeps the rows as they should
be. -/
theorem KillInv.relist {as : List Aspect} (h : KillInv c g) (ht : Touches as g g')
    (has : .kill ∉ as) (hlist : g'.tm.procs.All (Listed c.myPid)) :
  KillInv c g'
  := by
  constructor
  · rw [kills_of_touches ht has]
    apply h.safe
  · apply hlist

theorem scan_killInv (h : KillInv c g) (site : ScanSite) :
  KillInv c (g.scan c i site)
  := by
  apply h.relist (scan_touches c i g site) (by simp)
  apply scanProcesses_all _ _ h.listed
  intro p hp
  left
  apply hp

theorem window_killInv
    {w : Window} {body : Gui → Gui} (hbody : ∀ {g}, KillInv c g → KillInv c (body g))
    (h : KillInv c g) :
  KillInv c (window i w body g)
  := by
  unfold window
  split
  · apply hbody h
  · apply h

theorem mainMenu_killInv (h : KillInv c g) :
  KillInv c (mainMenu c i g)
  := by
  have htask : ∀ {g}, KillInv c g → KillInv c (menuTaskManager c i g) := by
    intro g h
    unfold menuTaskManager
    dsimp only
    split_ifs
    · refine KillInv.touches ?_ (setPanels_touches _ _) (by simp)
      apply scan_killInv
      apply h.touches (setPanels_touches g _)
      simp
    · apply h.touches (setPanels_touches g _)
      simp
    · apply h
  have hbuttons : ∀ {g}, KillInv c g → KillInv c (menuButtons c i g) := by
    intro g h
    unfold menuButtons
    split_ifs
    · have h1 := h.touches (menuLock_touches c i g) (by simp)
      have h2 := h1.touches (menuSwitchUser_touches c i _) (by simp)
      have h3 := h2.touches (menuSignOut_touches i _) (by simp)
      have h4 := htask (h3.touches (menuChangePassword_touches i _) (by simp))
      have h5 := h4.touches (menuRunCommand_touches i _) (by simp)
      apply h5.touches (menuCancel_touches i _)
      simp
    · apply h.touches (trigger_touches g _)
      simp
    · apply h
  unfold mainMenu
  split
  · apply window_killInv hbuttons h
  · apply h

theorem handOver_killInv (h : KillInv c g) :
  KillInv c (handOver c i g)
  := by
  have hscan : ∀ {g}, KillInv c g → KillInv c (periodicScan c i g) := by
    intro g h
    unfold periodicScan
    split
    · apply scan_killInv h
    · apply h
  have h1 := hscan (h.touches (beginFrame_touches i g) (by simp))
  have h2 := h1.touches (periodicBacklight_touches _) (by simp)
  have h3 : KillInv c (periodic c i (beginFrame i g)) := ⟨h2.safe, h2.listed⟩
  have h4 := h3.touches (readMouse_touches c _) (by simp)
  have h5 := h4.touches (filterMouse_touches _) (by simp)
  have h6 := h5.touches (cornerIcons_touches c _) (by simp)
  have h7 := h6.touches (clearPasswords_touches _) (by simp)
  apply h7.touches (readKeyboard_touches c i _)
  simp [keyAspects]

theorem tabs_killInv (h : KillInv c g) :
  KillInv c (tabs c i g)
  := by
  have hbuttons : KillInv c (tabButtons i g) := by
    apply runStages_invariant _ h
    simp only [List.forall_mem_cons]
    have htab : ∀ b tab mode g, KillInv c g → KillInv c (tabButton i b tab mode g) := by
      intro b tab mode g h
      unfold tabButton
      split
      · refine KillInv.touches ?_ (consume_touches _) (by simp)
        exact ⟨h.safe, h.listed⟩
      · apply h
    exact ⟨htab _ _ _, htab _ _ _, htab _ _ _, by simp⟩
  unfold tabs
  dsimp only
  split
  · apply scan_killInv hbuttons
  · apply hbuttons

theorem searchField_killInv (h : KillInv c g) :
  KillInv c (searchField c i g)
  := by
  unfold searchField
  dsimp only
  split_ifs
  · apply scan_killInv
    exact ⟨h.safe, h.listed⟩
  · exact ⟨h.safe, h.listed⟩
  · apply h

/-! ### Counting -/

/-- The signals sent, and a request of the keyboard that may yet cause one. -/
def killCharge (g : Gui) : ℕ :=
  (kills g.log).length + if g.menu.triggerAction = 100 then 1 else 0

theorem length_kills_le_killCharge (g : Gui) :
  (kills g.log).length ≤ killCharge g
  := Nat.le_add_right _ _

theorem killCharge_le {as : List Aspect} (ht : Touches as g g') (has : .kill ∉ as)
    (hspent : Spent g g') :
  killCharge g' ≤ killCharge g
  := by
  unfold killCharge
  rw [kills_of_touches ht has]
  have hrequest := hspent.request
  split <;> split
  · omega
  case isTrue.isFalse h h' => exact absurd (hrequest h) h'
  · omega
  · omega

theorem killCharge_consume_le (g : Gui) :
  killCharge g.consume ≤ (kills g.log).length
  := by
  unfold killCharge
  rw [kills_of_touches (consume_touches g) (by simp), if_neg (consume_triggerAction_ne g)]
  omega

/-- The buttons of a row that send signals. -/
def rowButtons (row : ℕ) : List Button := [.kill row, .terminate row, .pause row]

/-- In the middle of a row: the signals of the frame are paid for, with the buttons `rem`
still to come; and as long as none was sent, the row holds the process it was drawn
for. -/
structure RowInv (c : Cfg) (i : FrameIn) (base row : ℕ) (alive : Bool) (rem : List Button)
    (g : Gui) : Prop where
  inv : KillInv c g
  le_length : base ≤ (kills g.log).length
  charge : killCharge g + rem.countP i.nkButton ≤ base + 1
  fresh : ∀ p, g.tm.procsList[row]? = some p → (kills g.log).length = base → Foreign c.myPid p
  rowAlive : RowAlive c row alive g

theorem RowInv.consume
    {base row : ℕ} {alive : Bool} {rem : List Button} (h : RowInv c i base row alive rem g) :
  RowInv c i base row alive rem g.consume
  := by
  have htm : g.consume.tm = g.tm := (consume_touches g).same .tm (by simp)
  have hkills := kills_of_touches (consume_touches g) (by simp)
  constructor
  · apply h.inv.touches (consume_touches g)
    simp
  · rw [hkills]
    apply h.le_length
  · have hle := killCharge_consume_le g
    have hcharge := h.charge
    have hlen := length_kills_le_killCharge g
    omega
  · rw [htm, hkills]
    apply h.fresh
  · apply consume_rowAlive h.rowAlive

/-- A signal costs the request or the click that caused it, and the row it is sent from is
still fresh. -/
theorem signalled_rowInv
    {base row col : ℕ} {alive : Bool} {b : Button} {rem : List Button} {p : ProcessInfo}
    {signal : Signal} {after : ProcessInfo}
    (h : RowInv c i base row alive (b :: rem) g) (hp : g.tm.procsList[row]? = some p)
    (hpressed : rowPressed i g b row col) (ha : alive) (hafter : Listed c.myPid after)
    (huid : after.uid = p.uid) :
  RowInv c i base row alive rem (g.signalled row col p signal after).consume
  := by
  have hcharge := h.charge
  have hbase := h.le_length
  have hpaid : (kills g.log).length + 1 + rem.countP i.nkButton ≤ base + 1 := by
    rw [List.countP_cons] at hcharge
    unfold killCharge at hcharge
    obtain hb | hkey := Bool.or_eq_true_iff.mp hpressed
    · rw [if_pos hb] at hcharge
      omega
    · have htrigger : g.menu.triggerAction = 100 := by
        simp only [rowKey, Bool.and_eq_true, beq_iff_eq] at hkey
        apply hkey.1.1.1.1
      rw [if_pos htrigger] at hcharge
      omega
  have hforeign := h.fresh p hp (by omega)
  have hmanage := h.rowAlive p hp ha
  have hrow : row < g.tm.procsList.length := (List.getElem?_eq_some_iff.mp hp).1
  have hkills : kills (g.signalled row col p signal after).log
      = kills g.log ++ [⟨p.pid, signal, p.uid, row, g.root.taskmgrRootMode, g.rowKey row col⟩] := by
    simp [kills, signalled, Gui.emit, Event.kill?]
  have hkills' := kills_of_touches (consume_touches (g.signalled row col p signal after)) (by simp)
  constructor
  · apply KillInv.touches _ (consume_touches _) (by simp)
    constructor
    · intro k hk
      rw [hkills] at hk
      obtain hk | hk := List.mem_append.mp hk
      · apply h.inv.safe k hk
      · rw [List.mem_singleton.mp hk]
        refine ⟨hforeign.1, hforeign.2, ?_⟩
        simpa [canManage] using hmanage
    · apply TaskManager.all_setRow h.inv.listed hafter
  · rw [hkills', hkills, List.length_append]
    omega
  · have hle := killCharge_consume_le (g.signalled row col p signal after)
    rw [hkills, List.length_append, List.length_singleton] at hle
    omega
  · intro q _ hlen
    rw [hkills', hkills, List.length_append, List.length_singleton] at hlen
    omega
  · apply consume_rowAlive
    intro q hq _
    simp only [signalled, TaskManager.procsList_setRow, List.getElem?_set_self hrow,
      Option.some.injEq] at hq
    subst hq
    simpa [canManage, signalled, Gui.emit, huid] using hmanage

/-- One button of a row. -/
theorem signalButton_rowInv
    {base row col : ℕ} {alive : Bool} {b : Button} {rem : List Button}
    {signal : ProcessInfo → Signal} {after : ProcessInfo → ProcessInfo}
    (hafter : ∀ p, Listed c.myPid p → Listed c.myPid (after p))
    (huid : ∀ p, (after p).uid = p.uid) (h : RowInv c i base row alive (b :: rem) g) :
  RowInv c i base row alive rem (signalButton i b row col alive signal after g)
  := by
  have hidle : RowInv c i base row alive rem g := by
    have hcharge := h.charge
    rw [List.countP_cons] at hcharge
    exact ⟨h.inv, h.le_length, by omega, h.fresh, h.rowAlive⟩
  apply signalButton_cases (P := RowInv c i base row alive rem) hidle
  · intro _ _
    apply hidle.consume
  · intro p hp hpressed ha
    apply signalled_rowInv h hp hpressed ha
    · apply hafter
      apply TaskManager.of_mem_procsList h.inv.listed hp
    · apply huid

/-! ### Rows -/

/-- Between two rows, with the buttons `rem` of the rows to come. -/
structure RowsInv (c : Cfg) (i : FrameIn) (base : ℕ) (rem : List Button) (g : Gui) : Prop where
  inv : KillInv c g
  le_length : base ≤ (kills g.log).length
  charge : killCharge g + rem.countP i.nkButton ≤ base + 1

theorem RowsInv.touches
    {as : List Aspect} {base : ℕ} {rem : List Button} (h : RowsInv c i base rem g)
    (ht : Touches as g g') (has : .kill ∉ as ∧ .tm ∉ as) (hspent : Spent g g') :
  RowsInv c i base rem g'
  := by
  constructor
  · apply h.inv.touches ht has
  · rw [kills_of_touches ht has.1]
    apply h.le_length
  · have hle := killCharge_le ht has.1 hspent
    have hcharge := h.charge
    omega

theorem processRow_rowsInv
    {base : ℕ} {rem : List Button} (row : ℕ) (h : RowsInv c i base (rowButtons row ++ rem) g) :
  RowsInv c i base rem (processRow c i g row)
  := by
  have hskip : RowsInv c i base rem g := by
    have hcharge := h.charge
    rw [List.countP_append] at hcharge
    exact ⟨h.inv, h.le_length, by omega⟩
  unfold processRow
  split
  · apply hskip
  case h_2 p hp =>
    dsimp only
    split
    · apply hskip
    case isFalse hpid =>
      have h0 : RowInv c i base row (canManage c g p)
          (.kill row :: .terminate row :: .pause row :: rem) g := by
        refine ⟨h.inv, h.le_length, h.charge, ?_, ?_⟩
        · intro q hq _
          rw [hp] at hq
          cases hq
          obtain hf | hmark := TaskManager.of_mem_procsList h.inv.listed hp
          · apply hf
          · omega
        · intro q hq ha
          rw [hp] at hq
          cases hq
          apply ha
      have h1 : RowInv c i base row (canManage c g p) (.terminate row :: .pause row :: rem)
          (killButton i row (canManage c g p) g) :=
        signalButton_rowInv (fun _ _ => Or.inr rfl) (fun _ => rfl) h0
      have h2 : RowInv c i base row (canManage c g p) (.pause row :: rem)
          (terminateButton i row (canManage c g p) (killButton i row (canManage c g p) g)) :=
        signalButton_rowInv (fun _ hq => hq) (fun _ => rfl) h1
      have h3 : RowInv c i base row (canManage c g p) rem
          (pauseButton i row (canManage c g p)
            (terminateButton i row (canManage c g p) (killButton i row (canManage c g p) g))) :=
        signalButton_rowInv (fun _ hq => hq) (fun _ => rfl) h2
      have h4 : RowsInv c i base rem _ := ⟨h3.inv, h3.le_length, h3.charge⟩
      have h5 := h4.touches (labelButton_touches i _ row) (by simp) (labelButton_spent row _)
      apply h5.touches (drawRow_touches _ row) (by simp)
      apply Spent.touches (drawRow_touches _ row)
      simp

theorem processRows_rowsInv
    {base : ℕ} (rows : List ℕ) (h : RowsInv c i base (rows.flatMap rowButtons) g) :
  RowsInv c i base [] (rows.foldl (processRow c i) g)
  := by
  induction rows generalizing g with
  | nil => apply h
  | cons row rows ih =>
      apply ih
      apply processRow_rowsInv row h

/-! ### Frames -/

/-- What is known of the toolkit: at most one button reports a click in a frame, and none
does when the keyboard was in use as the mouse was handed over. -/
structure NkClicks (c : Cfg) (i : FrameIn) (g : Gui) : Prop where
  one : ∀ b b', i.nkButton b → i.nkButton b' → b = b'
  none_of_keyboard : (handOver c i g).keys.keyboardActive → ∀ b, i.nkButton b = false

theorem nodup_rowButtons (limit : ℕ) :
  ((List.range limit).flatMap rowButtons).Nodup
  := by
  rw [List.nodup_flatMap]
  constructor
  · intro row _
    simp [rowButtons]
  · apply List.nodup_range.imp
    intro row row' hne b hb hb'
    simp only [rowButtons, List.mem_cons, List.not_mem_nil, or_false] at hb hb'
    grind

/-- At most one button of a list is clicked. -/
theorem NkClicks.countP_le_one (h : NkClicks c i g) {l : List Button} (hl : l.Nodup) :
  l.countP i.nkButton ≤ 1
  := by
  rw [List.countP_eq_length_filter]
  have hfilter := hl.filter i.nkButton
  have hone : ∀ b ∈ l.filter i.nkButton, ∀ b' ∈ l.filter i.nkButton, b = b' := by
    intro b hb b' hb'
    apply h.one
    · apply (List.mem_filter.mp hb).2
    · apply (List.mem_filter.mp hb').2
  match hmatch : l.filter i.nkButton with
  | [] => simp
  | [b] => simp
  | b :: b' :: rest =>
      rw [hmatch] at hfilter hone
      have heq := hone b (by simp) b' (by simp)
      simp [heq] at hfilter

/-- The request of the keyboard and a click exclude each other. -/
theorem NkClicks.charge (h : NkClicks c i g) (limit : ℕ) :
  killCharge (handOver c i g) + ((List.range limit).flatMap rowButtons).countP i.nkButton
    ≤ (kills g.log).length + 1
  := by
  have hkills := kills_of_touches (handOver_touches c i g) (by simp [inputAspects, keyAspects])
  unfold killCharge
  rw [hkills]
  split
  case isTrue htrigger =>
    have hnone := h.none_of_keyboard (handOver_armed c i g htrigger)
    have hzero : ((List.range limit).flatMap rowButtons).countP i.nkButton = 0 := by
      apply List.countP_eq_zero.mpr
      intro b _
      simp [hnone b]
    omega
  case isFalse =>
    have hle := h.countP_le_one (nodup_rowButtons limit)
    omega

/-- The rows of the task manager, from the charge of the frame. -/
theorem taskManagerBody_rowsInv
    {base : ℕ} (hinv : KillInv c g) (hbase : base ≤ (kills g.log).length)
    (hcharge : ∀ limit,
      killCharge g + ((List.range limit).flatMap rowButtons).countP i.nkButton ≤ base + 1) :
  RowsInv c i base [] (taskManagerBody c i g)
  := by
  have hbody : KillInv c (searchField c i (tabs c i g)) := searchField_killInv (tabs_killInv hinv)
  have ht := (tabs_touches c i g).seq (searchField_touches c i (tabs c i g)) (C := [.tm, .menu])
    (by simp) (by simp)
  have hspent : Spent g (searchField c i (tabs c i g)) := by
    apply (tabs_spent g).trans
    apply Spent.touches (searchField_touches c i _)
    simp
  have hle := killCharge_le ht (by simp) hspent
  have hkills := kills_of_touches ht (by simp)
  unfold taskManagerBody processRows
  dsimp only
  apply processRows_rowsInv
  refine RowsInv.touches ?_ (clampRow_touches _ _) (by simp)
    (Spent.touches (clampRow_touches _ _) (by simp))
  refine ⟨hbody, by rw [hkills]; exact hbase, ?_⟩
  have := hcharge (rowLimit c (searchField c i (tabs c i g)))
  omega

theorem taskManagerPanel_killInv
    {base : ℕ} (hinv : KillInv c g) (hbase : base ≤ (kills g.log).length)
    (hcharge : ∀ limit,
      killCharge g + ((List.range limit).flatMap rowButtons).countP i.nkButton ≤ base + 1) :
  KillInv c (taskManagerPanel c i g) ∧ (kills (taskManagerPanel c i g).log).length ≤ base + 1
  := by
  have hdone : ∀ {g}, RowsInv c i base [] g →
      KillInv c (runStages [window i .taskManagerClose (taskManagerBar i), consume] g)
        ∧ (kills (runStages [window i .taskManagerClose (taskManagerBar i), consume] g).log).length
          ≤ base + 1 := by
    intro g h
    have ht : Touches [.panels, .menu] g
        (runStages [window i .taskManagerClose (taskManagerBar i), consume] g) := by
      apply runStages_rel
      simp only [List.forall_mem_cons]
      refine ⟨?_, ?_, by simp⟩
      · intro g
        exact window_rel fun _ => taskManagerBar_touches i g
      · intro g
        apply (consume_touches g).mono
        simp
    constructor
    · apply h.inv.touches ht
      simp
    · rw [kills_of_touches ht (by simp)]
      have hcharge := h.charge
      have hle := length_kills_le_killCharge g
      simp only [List.countP_nil, Nat.add_zero] at hcharge
      omega
  have hbody : ∀ {g}, KillInv c g → base ≤ (kills g.log).length →
      (∀ limit,
        killCharge g + ((List.range limit).flatMap rowButtons).countP i.nkButton ≤ base + 1) →
      RowsInv c i base [] (window i .taskManager (taskManagerBody c i) g) := by
    intro g hinv hbase hcharge
    unfold window
    split
    · apply taskManagerBody_rowsInv hinv hbase hcharge
    · refine ⟨hinv, hbase, ?_⟩
      simpa using hcharge 0
  unfold taskManagerPanel
  split
  · have htitle : Touches toggleAspects g (window i .taskManagerTitle (taskManagerTitle i) g) := by
      exact window_rel fun _ => taskManagerTitle_touches i g
    have hinv' := hinv.touches htitle (by simp [toggleAspects])
    have hkills := kills_of_touches htitle (by simp [toggleAspects])
    have hle := killCharge_le htitle (by simp [toggleAspects])
      (Spent.touches htitle (by simp [toggleAspects]))
    have hcharge' : ∀ limit, killCharge (window i .taskManagerTitle (taskManagerTitle i) g)
        + ((List.range limit).flatMap rowButtons).countP i.nkButton ≤ base + 1 := by
      intro limit
      have := hcharge limit
      omega
    have hbase' : base ≤ (kills (window i .taskManagerTitle (taskManagerTitle i) g).log).length := by
      rw [hkills]
      apply hbase
    apply hdone (hbody hinv' hbase' hcharge')
  · refine ⟨hinv, ?_⟩
    have := hcharge 0
    have hle := length_kills_le_killCharge g
    simp only [List.range_zero, List.flatMap_nil, List.countP_nil, Nat.add_zero] at this
    omega

theorem beforeTaskManager_spent (g : Gui) :
  Spent (handOver c i g) (beforeTaskManager c i g)
  := by
  apply (mainMenu_spent _).trans
  apply Spent.touches (terminalPanel_touches c i _)
  simp [toggleAspects]

/-- A frame sends at most one signal, and a safe one. -/
theorem frame_killInv (hinv : KillInv c g) (hclicks : NkClicks c i g) :
  KillInv c (frame c i g) ∧ (kills (frame c i g).log).length ≤ (kills g.log).length + 1
  := by
  have hnot : Aspect.kill ∉ earlyAspects := by simp [earlyAspects, menuAspects, toggleAspects]
  have hmenu := mainMenu_killInv (i := i) (handOver_killInv (i := i) hinv)
  have hpanel : KillInv c (beforeTaskManager c i g) :=
    hmenu.touches (terminalPanel_touches c i _) (by simp [toggleAspects])
  have hle := killCharge_le (beforeTaskManager_touches c i g) hnot (beforeTaskManager_spent g)
  have hkills := kills_of_touches (beforeTaskManager_touches c i g) hnot
  have hkills' := kills_of_touches (handOver_touches c i g) (by simp [inputAspects, keyAspects])
  have hbase : (kills g.log).length ≤ (kills (beforeTaskManager c i g).log).length := by
    rw [hkills, hkills']
  have hcharge : ∀ limit, killCharge (beforeTaskManager c i g)
      + ((List.range limit).flatMap rowButtons).countP i.nkButton ≤ (kills g.log).length + 1 := by
    intro limit
    have := hclicks.charge limit
    omega
  obtain ⟨htm, hlen⟩ := taskManagerPanel_killInv hpanel hbase hcharge
  constructor
  · apply htm.touches (frame_touches_late c i g)
    simp [lateAspects]
  · rw [kills_of_touches (frame_touches_late c i g) (by simp [lateAspects])]
    apply hlen

/-- The toolkit behaves as expected in every frame of a run. -/
def NkRun (c : Cfg) : List FrameIn → Gui → Prop
  | [], _ => True
  | i :: is, g => g.running → NkClicks c i g ∧ NkRun c is (frame c i g)

theorem runFrames_killInv (is : List FrameIn) (hinv : KillInv c g) (hrun : NkRun c is g) :
  KillInv c (runFrames c is g)
  := by
  induction is generalizing g with
  | nil => apply hinv
  | cons i is ih =>
      unfold runFrames runWhile
      split
      case isTrue hr =>
        obtain ⟨hclicks, hrest⟩ := hrun hr
        apply ih (frame_killInv hinv hclicks).1 hrest
      case isFalse => apply hinv

theorem start_killInv (s : Start) :
  KillInv c (start c s)
  := by
  have hinit : ∀ {g : Gui}, g.log = [] → g.tm = {} → KillInv c g := by
    intro g hlog htm
    constructor
    · rw [hlog]
      simp [kills]
    · rw [htm]
      apply Procs.All.empty
  unfold start
  dsimp only
  split
  · refine KillInv.touches ?_ (launchTerminalShell_touches _ _ _ _) (by simp)
    exact hinit rfl rfl
  · exact hinit rfl rfl

/-- In every run in which the toolkit reports at most one click a frame, and none while
the keyboard is in use, every signal of a frame goes to a positive process number other
than the program's own, from a row alive for the user at that moment, and a row sends at
most one signal in a frame. -/
theorem no_mass_kill
    (c : Cfg) (s : Start) (is : List FrameIn) (i : FrameIn) (hrun : NkRun c is (start c s))
    (hclicks : NkClicks c i (runFrames c is (start c s))) :
  ∃ es, (frame c i (runFrames c is (start c s))).log = (runFrames c is (start c s)).log ++ es
    ∧ (∀ k, Event.kill k ∈ es →
      0 < k.pid ∧ k.pid ≠ c.myPid ∧ (k.rootMode ∨ toInt32 k.uid = c.userUid))
    ∧ ∀ row, ((kills es).filter (fun k => k.row = row)).length ≤ 1
  := by
  have hinv := runFrames_killInv is (start_killInv s) hrun
  obtain ⟨hframe, hlen⟩ := frame_killInv hinv hclicks
  obtain ⟨es, hes, -⟩ := frame_emits c i (runFrames c is (start c s))
  have hkills : kills (frame c i (runFrames c is (start c s))).log
      = kills (runFrames c is (start c s)).log ++ kills es := by
    rw [hes, kills, List.filterMap_append]
    rfl
  refine ⟨es, hes, ?_, ?_⟩
  · intro k hk
    apply hframe.safe
    rw [hkills]
    apply List.mem_append_right
    exact List.mem_filterMap.mpr ⟨.kill k, hk, rfl⟩
  · intro row
    rw [hkills, List.length_append] at hlen
    have hle := List.length_filter_le (fun k : Kill => k.row = row) (kills es)
    omega

/-- A frame without clicks is one in which the toolkit behaves as expected. -/
theorem NkClicks.silent (h : ∀ b, i.nkButton b = false) :
  NkClicks c i g
  := by
  constructor
  · intro b _ hb
    simp [h] at hb
  · intro _
    apply h

theorem no_mass_kill_desktop :
  ∃ es, (frame desktop pressEnter (runFrames desktop [openTaskManager] desktopStart)).log
      = (runFrames desktop [openTaskManager] desktopStart).log ++ es
    ∧ (∀ k, Event.kill k ∈ es →
      0 < k.pid ∧ k.pid ≠ desktop.myPid ∧ (k.rootMode ∨ toInt32 k.uid = desktop.userUid))
    ∧ ∀ row, ((kills es).filter (fun k => k.row = row)).length ≤ 1
  := by
  apply no_mass_kill
  · intro _
    refine ⟨NkClicks.silent ?_, trivial⟩
    simp [openTaskManager]
  · apply NkClicks.silent
    simp [pressEnter]

end Gui

end LnxCad
