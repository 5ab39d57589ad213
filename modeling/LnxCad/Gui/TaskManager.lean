import LnxCad.Gui.Panels

/-!
# The task manager

The panel shows one of the three lists of the last scan.  Every row has a button to kill
the process, one to terminate it and one to pause or continue it.  A button acts when it is
clicked, or when the keyboard focus is on it and a key asked the panel to act
(`trigger_action` is `100`).  The buttons are alive only for processes of the user, or in
root mode.
-/

namespace LnxCad

/-- The list shown. -/
def TaskManager.procsList (t : TaskManager) : List ProcessInfo :=
  match t.sortModeCpu with
  | .memory => t.procs.topProcsMem
  | .cpu => t.procs.topProcsCpu
  | .search => t.procs.topProcsSearch

/-- Overwrites a row of the list shown. -/
def TaskManager.setRow (t : TaskManager) (row : ℕ) (p : ProcessInfo) : TaskManager :=
  match t.sortModeCpu with
  | .memory => { t with procs.topProcsMem := t.procs.topProcsMem.set row p }
  | .cpu => { t with procs.topProcsCpu := t.procs.topProcsCpu.set row p }
  | .search => { t with procs.topProcsSearch := t.procs.topProcsSearch.set row p }

namespace Gui

/-! ### Tabs and search -/

/-- The root toggle of the task manager; the root mode needs an authorisation. -/
def taskManagerToggle (i : FrameIn) (g : Gui) : Gui :=
  if i.nkButton .taskManagerRoot then
    if g.root.taskmgrRootMode then { g with root.taskmgrRootMode := false }
    else if g.root.rootAuthorized then { g with root.taskmgrRootMode := true }
    else g.openPrompt .taskManager
  else g

def closeTaskManager (i : FrameIn) (b : Button) (key : Bool) (g : Gui) : Gui :=
  if i.nkButton b || key then { g with panels.showTaskManager := false }.consume else g

/-- Enter on a tab. -/
def tabKey (g : Gui) (tab : ℕ) : Bool :=
  g.menu.triggerAction == 100 && g.keys.keyboardActive && g.focus.tmFocusGroup == 0
    && g.focus.tmSelectedTab == tab

/-- A tab selects the list shown. -/
def tabButton (i : FrameIn) (b : Button) (tab : ℕ) (mode : SortMode) (g : Gui) : Gui :=
  if i.nkButton b || g.tabKey tab then { g with tm.sortModeCpu := mode }.consume else g

/-- The three tabs. -/
def tabButtons (i : FrameIn) (g : Gui) : Gui :=
  runStages [tabButton i .topRam 0 .memory, tabButton i .topCpu 1 .cpu,
    tabButton i .search 2 .search] g

/-- A change of list calls for a scan. -/
def tabs (c : Cfg) (i : FrameIn) (g : Gui) : Gui :=
  let oldSortMode := g.tm.sortModeCpu
  let g := tabButtons i g
  if oldSortMode ≠ g.tm.sortModeCpu then g.scan c i .tab else g

/-- The search field, shown above its list; a text of another length is terminated and
calls for a scan. -/
def searchField (c : Cfg) (i : FrameIn) (g : Gui) : Gui :=
  if g.tm.sortModeCpu = .search then
    let oldSearchLen := g.tm.search.len
    let search := nkEditString 63 (i.nkEdit .search).edits g.tm.search
    if search.len ≠ oldSearchLen then
      { g with tm.search := { search with memory := search.memory.set search.len 0 } }.scan c i
        .searchEdit
    else { g with tm.search := search }
  else g

/-! ### Rows -/

/-- Whether the buttons of a process are alive. -/
def canManage (c : Cfg) (g : Gui) (p : ProcessInfo) : Bool :=
  g.root.taskmgrRootMode || toInt32 p.uid == c.userUid

/-- A key asked the panel to act, and the focus is on this button. -/
def rowKey (g : Gui) (row col : ℕ) : Bool :=
  g.menu.triggerAction == 100 && g.keys.keyboardActive && g.focus.tmFocusGroup == 2
    && g.focus.tmSelectedRow == row && g.focus.tmSelectedCol == col

/-- A button of a row that sends a signal and then overwrites the row; `alive` was settled
at the start of the row. -/
def signalButton (i : FrameIn) (b : Button) (row col : ℕ) (alive : Bool)
    (signal : ProcessInfo → Signal) (after : ProcessInfo → ProcessInfo) (g : Gui) : Gui :=
  match g.tm.procsList[row]? with
  | none => g
  | some p =>
      let byKey := g.rowKey row col
      if i.nkButton b || byKey then
        let g :=
          if alive then
            { g.emit (.kill ⟨p.pid, signal p, p.uid, row, g.root.taskmgrRootMode, byKey⟩) with
              tm := g.tm.setRow row (after p) }
          else g
        g.consume
      else g

/-- The state letter of a stopped process. -/
def isPaused (p : ProcessInfo) : Bool := p.state == 84 || p.state == 116

/-- The Kill button; the row is hidden from the next frame on. -/
def killButton (i : FrameIn) (row : ℕ) (alive : Bool) : Gui → Gui :=
  signalButton i (.kill row) row 0 alive (fun _ => .sigkill) (fun p => { p with pid := -1 })

/-- The Terminate button. -/
def terminateButton (i : FrameIn) (row : ℕ) (alive : Bool) : Gui → Gui :=
  signalButton i (.terminate row) row 1 alive (fun _ => .sigterm) id

/-- The Pause or Continue button; the new state is shown at once. -/
def pauseButton (i : FrameIn) (row : ℕ) (alive : Bool) : Gui → Gui :=
  signalButton i (.pause row) row 2 alive
    (fun p => if isPaused p then .sigcont else .sigstop)
    (fun p => { p with state := if isPaused p then 82 else 84 })

/-- The label of a row only takes the key. -/
def labelButton (i : FrameIn) (row : ℕ) (g : Gui) : Gui :=
  if i.nkButton (.label row) || g.rowKey row 3 then g.consume else g

/-- The text of a row is drawn behind its buttons. -/
def drawRow (row : ℕ) (g : Gui) : Gui :=
  match g.tm.procsList[row]? with
  | none => g
  | some p => { g with screen.drawn := g.screen.drawn ++ [⟨row, p.pid⟩] }

/-- One row; a row whose process was killed is passed over. -/
def processRow (c : Cfg) (i : FrameIn) (g : Gui) (row : ℕ) : Gui :=
  match g.tm.procsList[row]? with
  | none => g
  | some p =>
      if p.pid ≤ 0 then g
      else
        let alive := canManage c g p
        let g := killButton i row alive g
        let g := terminateButton i row alive g
        let g := pauseButton i row alive g
        drawRow row (labelButton i row g)

/-- The number of rows that fit, at least one and at most the length of the lists. -/
def maxDisplay (c : Cfg) (g : Gui) : ℕ :=
  let startY := if g.tm.sortModeCpu = .search then 145 else 97
  let fit := (c.tmH - 85 - startY).tdiv 39
  if fit < 1 then 1 else if fit > maxTopProcs then maxTopProcs else fit.toNat

/-- The number of rows drawn. -/
def rowLimit (c : Cfg) (g : Gui) : ℕ :=
  min g.tm.procsList.length (maxDisplay c g)

/-- A selection past the rows drawn falls back to the last one. -/
def clampRow (limit : ℕ) (g : Gui) : Gui :=
  if g.focus.tmSelectedRow ≥ limit then { g with focus.tmSelectedRow := limit - 1 } else g

/-- The rows of the list. -/
def processRows (c : Cfg) (i : FrameIn) (g : Gui) : Gui :=
  let limit := rowLimit c g
  (List.range limit).foldl (processRow c i) (clampRow limit g)

/-- Enter on the close button. -/
def closeKey (g : Gui) : Bool :=
  g.menu.triggerAction == 100 && g.keys.keyboardActive && g.focus.tmFocusGroup == 3

/-- The title bar: the root toggle and the close button, which takes no key. -/
def taskManagerTitle (i : FrameIn) (g : Gui) : Gui :=
  let g := taskManagerToggle i g
  if i.nkButton .taskManagerTitleClose then { g with panels.showTaskManager := false } else g

/-- The body: the tabs, the search field and the rows. -/
def taskManagerBody (c : Cfg) (i : FrameIn) (g : Gui) : Gui :=
  processRows c i (searchField c i (tabs c i g))

/-- The Close button. -/
def taskManagerBar (i : FrameIn) (g : Gui) : Gui :=
  closeTaskManager i .taskManagerClose g.closeKey g

/-- The task manager; a key no button took is dropped at the end. -/
def taskManagerPanel (c : Cfg) (i : FrameIn) (g : Gui) : Gui :=
  if g.panels.showTaskManager && !g.panels.showPasswordPrompt then
    runStages
      [window i .taskManagerTitle (taskManagerTitle i), window i .taskManager (taskManagerBody c i),
        window i .taskManagerClose (taskManagerBar i), consume] g
  else g

/-! ### What a row button does -/

end Gui

theorem TaskManager.procsList_setRow (t : TaskManager) (row : ℕ) (p : ProcessInfo) :
  (t.setRow row p).procsList = t.procsList.set row p
  := by
  obtain ⟨procs, mode, search⟩ := t
  cases mode <;> rfl

namespace Gui

/-- A row button is clicked, or a key acts on it. -/
def rowPressed (i : FrameIn) (g : Gui) (b : Button) (row col : ℕ) : Bool :=
  i.nkButton b || g.rowKey row col

/-- The effect of a row button that sends a signal. -/
def signalled (g : Gui) (row col : ℕ) (p : ProcessInfo) (signal : Signal) (after : ProcessInfo) :
    Gui :=
  { g.emit (.kill ⟨p.pid, signal, p.uid, row, g.root.taskmgrRootMode, g.rowKey row col⟩) with
    tm := g.tm.setRow row after }

/-- A row button does nothing, or only takes the key, or sends its signal. -/
theorem signalButton_cases
    {P : Gui → Prop} {i : FrameIn} {g : Gui} {b : Button} {row col : ℕ} {alive : Bool}
    {signal : ProcessInfo → Signal} {after : ProcessInfo → ProcessInfo}
    (hidle : P g)
    (hdead : rowPressed i g b row col → alive = false → P g.consume)
    (hkill : ∀ p, g.tm.procsList[row]? = some p → rowPressed i g b row col → alive →
      P (g.signalled row col p (signal p) (after p)).consume) :
  P (signalButton i b row col alive signal after g)
  := by
  unfold signalButton
  split
  · apply hidle
  case h_2 p hp =>
    dsimp only
    split
    case isTrue hpressed =>
      cases alive with
      | false => apply hdead hpressed rfl
      | true => apply hkill p hp hpressed rfl
    case isFalse => apply hidle

end Gui

end LnxCad
