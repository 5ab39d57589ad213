import LnxCad.Gui.Mouse
import LnxCad.Gui.TaskManager

/-!
# The main loop

A frame first takes its input, then draws the panels, then acts on what was chosen and
shows the picture.  A run is any number of frames, up to the first that ends the loop.
-/

namespace LnxCad

namespace Gui

/-! ### Before and after the panels -/

/-- The variables of the frame are set, and the devices have delivered. -/
def beginFrame (i : FrameIn) (g : Gui) : Gui :=
  { g with
    locals := { snap := g.panels }
    dev := ⟨g.dev.kbd ++ i.keys, g.dev.mouse ++ i.mouse⟩
    screen.drawn := [] }

/-- Every sixty frames an open task manager is refreshed. -/
def periodicScan (c : Cfg) (i : FrameIn) (g : Gui) : Gui :=
  if g.frameCount % 60 = 0 ∧ g.panels.showTaskManager then g.scan c i .periodic else g

/-- Every five hundred frames the backlight is looked after. -/
def periodicBacklight (g : Gui) : Gui :=
  if g.frameCount % 500 = 0 then g.emit .maintainBacklight else g

/-- The periodic tasks, and the count of frames. -/
def periodic (c : Cfg) (i : FrameIn) (g : Gui) : Gui :=
  let g := periodicBacklight (periodicScan c i g)
  { g with frameCount := (g.frameCount + 1) % 2 ^ 32 }

/-- The passwords of a dialog that is not open are wiped. -/
def clearPasswords (g : Gui) : Gui :=
  let g :=
    if !g.panels.showChangePassword
        && (0 < g.cp.oldPwd.len || 0 < g.cp.newPwd.len || 0 < g.cp.confirmPwd.len) then
      { g with cp := { g.cp with
          oldPwd := g.cp.oldPwd.clear
          newPwd := g.cp.newPwd.clear
          confirmPwd := g.cp.confirmPwd.clear } }
    else g
  if !g.panels.showPasswordPrompt && 0 < g.prompt.rootPwd.len then
    { g with prompt.rootPwd := g.prompt.rootPwd.clear }
  else g

/-- The terminal icon: opens or closes the terminal; a terminal without a shell gets one,
or is closed again. -/
def terminalIcon (c : Cfg) (i : FrameIn) (g : Gui) : Gui :=
  if g.menu.triggerAction = 7 then
    let g := { g with
      panels := { g.panels with
        showTerminal := !g.panels.showTerminal
        showTaskManager := false
        showChangePassword := false
        showSwitchUser := false
        showPowerMenu := false } }
    if g.panels.showTerminal && !g.term.termPty && c.termVte then
      let g := g.launchTerminalShell i .reopen g.term.terminalMode
      if i.ptyOpen .reopen then g else { g with panels.showTerminal := false }
    else g
  else g

/-- The power icon: opens or closes the power menu. -/
def powerIcon (g : Gui) : Gui :=
  if g.menu.triggerAction = 8 then
    { g with
      panels := { g.panels with
        showPowerMenu := !g.panels.showPowerMenu
        showTaskManager := false
        showTerminal := false
        showRun := false
        showChangePassword := false
        showSwitchUser := false }
      menu.pmSelectedIdx := if g.panels.showPowerMenu then g.menu.pmSelectedIdx else 0 }
  else g

/-- Whether a panel is open now that was not when the frame began. -/
def opened (snap p : Panels) : Bool :=
  !snap.showSwitchUser && p.showSwitchUser || !snap.showChangePassword && p.showChangePassword
    || !snap.showRun && p.showRun || !snap.showTaskManager && p.showTaskManager
    || !snap.showTerminal && p.showTerminal || !snap.showPowerMenu && p.showPowerMenu
    || !snap.showPasswordPrompt && p.showPasswordPrompt

/-- A panel that opened starts the click cooldown and empties the mouse accumulator. -/
def armCooldown (g : Gui) : Gui :=
  if opened g.locals.snap g.panels then
    { g with mouse := { g.mouse with clickCooldown := 3, mouseAcc := [] } }
  else g

/-- The display after a frame: the first one sets the mode, later ones flip, and a flip
that fails falls back to a single buffer. -/
def present (i : FrameIn) (frameCount : ℕ) (d : Display) : Display :=
  let backBuf := if d.doubleBuffered then 1 - d.frontBuf else 0
  let d :=
    if d.doubleBuffered then
      if frameCount = 1 ∨ i.flipOk then { d with scanout := backBuf }
      else { d with doubleBuffered := false, scanout := 0 }
    else d
  { d with frontBuf := backBuf }

/-- The picture is shown; a terminal that was closed in the frame loses its shell. -/
def endFrame (i : FrameIn) (g : Gui) : Gui :=
  let g :=
    if g.locals.snap.showTerminal && !g.panels.showTerminal then g.closeCurrentPty else g
  { g with
    display := present i g.frameCount g.display
    screen.picture := g.screen.drawn }

/-! ### Frames -/

/-- The input part of a frame, up to the point where the mouse is handed to the
toolkit. -/
def inputStages (c : Cfg) (i : FrameIn) : List (Gui → Gui) :=
  [beginFrame i, periodic c i, readMouse c, filterMouse, cornerIcons c, clearPasswords,
    readKeyboard c i]

/-- The panels, in the order in which they are drawn. -/
def drawStages (c : Cfg) (i : FrameIn) : List (Gui → Gui) :=
  [mainMenu c i, terminalPanel c i, taskManagerPanel c i, runPanel i, promptPanel i,
    changePasswordPanel i, switchUserPanel i, powerMenu i]

/-- What follows the panels. -/
def finishStages (c : Cfg) (i : FrameIn) : List (Gui → Gui) :=
  [terminalIcon c i, powerIcon, armCooldown, endFrame i]

/-- The stages of a frame. -/
def stages (c : Cfg) (i : FrameIn) : List (Gui → Gui) :=
  inputStages c i ++ drawStages c i ++ finishStages c i

/-- The state in which the mouse is handed to the toolkit. -/
def handOver (c : Cfg) (i : FrameIn) (g : Gui) : Gui := runStages (inputStages c i) g

/-- One turn of the main loop. -/
def frame (c : Cfg) (i : FrameIn) (g : Gui) : Gui := runStages (stages c i) g

/-- What `main` has found out when the loop begins: the terminal to go back to, whether
there are two buffers, and whether the first shell could be started. -/
structure Start where
  originalVt : ℤ
  doubleBuffered : Bool
  ptyOpen : Bool

/-- The state in which the loop begins: the first shell is launched before it. -/
def start (c : Cfg) (s : Start) : Gui :=
  let g : Gui :=
    { mouse :=
        { mouseX := c.width / 2
          mouseY := c.height / 2
          prevMouseX := c.width / 2
          prevMouseY := c.height / 2 }
      display := { doubleBuffered := s.doubleBuffered }
      originalVt := s.originalVt }
  if c.termVte then
    g.launchTerminalShell { ptyOpen := fun _ => s.ptyOpen } .reopen g.term.terminalMode
  else g

/-- A run of the loop: one frame for each input, up to the first that ends the loop. -/
def runFrames (c : Cfg) (is : List FrameIn) (g : Gui) : Gui :=
  runWhile Gui.running (frame c) is g

/-- What `main` does behind the loop: the shell is closed, and a command asked for is
executed, as root if that was chosen. -/
def afterLoop (g : Gui) : Gui :=
  let g := g.closeCurrentPty
  if g.run.runCommandReady && cstr g.run.runCmd != [] then
    g.emit (.executeCommand (cstr g.run.runCmd) g.root.runAsRoot)
  else g

/-- The states between two frames. -/
def Reachable (c : Cfg) (g : Gui) : Prop :=
  ∃ s is, g = runFrames c is (start c s)

/-- The states inside a run: those between two stages of a frame, the ends of the frame
included. -/
def Visited (c : Cfg) (g : Gui) : Prop :=
  ∃ g₀ i k, Reachable c g₀ ∧ g₀.running ∧ g = runStages ((stages c i).take k) g₀

/-- A property of the first state that frames keep holds of every reachable state. -/
theorem Reachable.invariant
    {c : Cfg} {P : Gui → Prop} (hstart : ∀ s, P (start c s))
    (hframe : ∀ i g, g.running → P g → P (frame c i g)) {g : Gui} (h : Reachable c g) :
  P g
  := by
  obtain ⟨s, is, rfl⟩ := h
  apply runWhile_invariant hframe is (hstart s)

/-- A property every stage keeps is kept by a frame. -/
theorem frame_invariant
    {c : Cfg} {i : FrameIn} {P : Gui → Prop} (hstage : ∀ f ∈ stages c i, ∀ g, P g → P (f g))
    {g : Gui} (h : P g) :
  P (frame c i g)
  := runStages_invariant hstage h

/-! ### A machine to try the loop on -/

/-- A desktop, used by the user `1000`. -/
def desktop : Cfg :=
  { width := 1920
    height := 1080
    shutdownW := 48
    shutdownH := 48
    terminalW := 48
    terminalH := 48
    pmMenuW := 200
    tmH := 600
    kbdFd := true
    mouseFd := true
    termVte := true
    busyboxMemfd := true
    lockCmd := true
    userUid := 1000
    myPid := 500
    logicalCores := 4
    rescueVt := 8 }

/-- The loop begins, over the session on terminal `7`. -/
def desktopStart : Gui := start desktop ⟨7, true, true⟩

theorem desktop_reachable (is : List FrameIn) :
  Reachable desktop (runFrames desktop is desktopStart)
  := ⟨⟨7, true, true⟩, is, rfl⟩

/-- The press of a key. -/
def press (code : ℕ) : InputEvent := ⟨evKey, code, 1⟩

/-- Processes of the user, all of one size, in the order in which a scan meets them. -/
def listing (pids : List ℕ) : ProcSnapshot :=
  ⟨some (pids.map fun pid => ⟨pid, chars ['s', 'h'], 83, 0, 10, 1000⟩), 0⟩

/-- The keys that open the task manager; the scan meets the processes `601` and `602`. -/
def openTaskManager : FrameIn :=
  { keys := [press keyUp, press keyUp, press keyEnter]
    snapshot := fun _ => listing [601, 602] }

/-- The keys that open the Run dialog. -/
def openRun : FrameIn := { keys := [press keyUp, press keyEnter] }

/-- The keys that open the change-password dialog. -/
def openChangePassword : FrameIn :=
  { keys := [press keyUp, press keyUp, press keyUp, press keyEnter] }

/-- Enter, with nothing else happening in the frame. -/
def pressEnter : FrameIn := { keys := [press keyEnter] }

end Gui

end LnxCad
