import LnxCad.Gui.Keyboard

/-!
# The panels

Each panel is drawn by a few windows; a widget answers whether it was used in the frame
(`FrameIn.nkButton`, `FrameIn.nkEdit`), and a window that is not shown draws no widget.
The functions below follow the order in which the program draws them.
-/

namespace LnxCad

namespace Gui

/-- A window: its widgets are drawn when the toolkit shows it (`if (nk_begin(…))`). -/
def window (i : FrameIn) (w : Window) (body : Gui → Gui) (g : Gui) : Gui :=
  if i.nkBegin w then body g else g

/-! ### Terminals and scans -/

/-- `close_current_pty`. -/
def closeCurrentPty (g : Gui) : Gui :=
  if g.term.termPty then { g.emit .closePty with term.termPty := false } else g

/-- `launch_terminal_shell`: the shell drops to the user unless the terminal is in root
mode. -/
def launchTerminalShell (g : Gui) (i : FrameIn) (site : LaunchSite) (mode : TerminalMode) :
    Gui :=
  if i.ptyOpen site then
    { g.emit (.launchShell g.root.terminalRootMode mode) with term.termPty := true }
  else g

/-- What `scan_processes` searches for: the text of the search field, when that list is
shown and at least three characters were typed. -/
def searchText (g : Gui) : Option Bytes :=
  if g.tm.sortModeCpu = .search ∧ 3 ≤ g.tm.search.len then some (cstr g.tm.search.memory)
  else none

/-- A call of `scan_processes`. -/
def scan (g : Gui) (c : Cfg) (i : FrameIn) (site : ScanSite) : Gui :=
  { g.emit .scanProcesses with
    tm.procs := scanProcesses ⟨c.myPid, c.logicalCores, g.searchText⟩ (i.snapshot site) g.tm.procs }

/-- Opens the root prompt. -/
def openPrompt (g : Gui) (source : PromptSource) : Gui :=
  { g.emit (.openPrompt source) with
    panels.showPasswordPrompt := true
    prompt := { g.prompt with
      pwdPromptSource := source
      rootPwd := g.prompt.rootPwd.clear
      rootAuthMsg := []
      pwdFocusIdx := 0 }
    keys.keyboardActive := true }

/-! ### The main menu -/

/-- A button of the main menu, clicked or chosen by its number. -/
def menuPressed (g : Gui) (i : FrameIn) (b : Button) (action : ℤ) : Bool :=
  i.nkButton b || g.menu.triggerAction == action

/-- The action is used up. -/
def used (g : Gui) (action : ℤ) : Gui :=
  if g.menu.triggerAction = action then g.trigger (-1) else g

def menuLock (c : Cfg) (i : FrameIn) (g : Gui) : Gui :=
  if g.menuPressed i .lock 0 && c.lockCmd then (g.emit .executeLock).stop else g

def menuSwitchUser (c : Cfg) (i : FrameIn) (g : Gui) : Gui :=
  if g.menuPressed i .switchUser 1 then
    { g with
      panels := { g.panels with
        showSwitchUser := true
        showRun := false
        showTaskManager := false
        showTerminal := false
        showPowerMenu := false
        showChangePassword := false }
      su := ⟨scanSessions c.myPid c.rescueVt i.sightings, 0, 0⟩ }.used 1
  else g

def menuSignOut (i : FrameIn) (g : Gui) : Gui :=
  if g.menuPressed i .signOut 2 then (g.emit .executeSignOut).stop else g

def menuChangePassword (i : FrameIn) (g : Gui) : Gui :=
  if g.menuPressed i .changePassword 3 then
    { g with
      panels := { g.panels with
        showChangePassword := true
        showRun := false
        showTaskManager := false
        showTerminal := false
        showPowerMenu := false
        showSwitchUser := false }
      cp := { g.cp with
        oldPwd := g.cp.oldPwd.clear
        newPwd := g.cp.newPwd.clear
        confirmPwd := g.cp.confirmPwd.clear
        pwdMsg := .none
        cpFocusIdx := 0 } }.used 3
  else g

def menuTaskManager (c : Cfg) (i : FrameIn) (g : Gui) : Gui :=
  if g.menuPressed i .taskManager 4 then
    let g := { g with panels.showTaskManager := !g.panels.showTaskManager }
    let g := if g.panels.showTaskManager then g.scan c i .opening else g
    { g with
      panels := { g.panels with
        showRun := false
        showChangePassword := false
        showSwitchUser := false } }
  else g

def menuRunCommand (i : FrameIn) (g : Gui) : Gui :=
  if g.menuPressed i .runCommand 5 then
    { g with
      panels := { g.panels with
        showRun := !g.panels.showRun
        showTaskManager := false
        showTerminal := false
        showPowerMenu := false
        showChangePassword := false
        showSwitchUser := false } }.used 5
  else g

def menuCancel (i : FrameIn) (g : Gui) : Gui :=
  if g.menuPressed i .cancel 6 then g.stop else g

/-- The buttons of the menu, while no dialog is open over it. -/
def menuButtons (c : Cfg) (i : FrameIn) (g : Gui) : Gui :=
  if !g.panels.showTaskManager && !g.panels.showTerminal && !g.panels.showRun
      && !g.panels.showChangePassword && !g.panels.showSwitchUser then
    runStages
      [menuLock c i, menuSwitchUser c i, menuSignOut i, menuChangePassword i,
        menuTaskManager c i, menuRunCommand i, menuCancel i] g
  else if 0 ≤ g.menu.triggerAction ∧ g.menu.triggerAction ≤ 6 then g.trigger (-1)
  else g

/-- The main menu. -/
def mainMenu (c : Cfg) (i : FrameIn) (g : Gui) : Gui :=
  if !g.panels.showPasswordPrompt then window i .cad (menuButtons c i) g else g

/-! ### The terminal -/

/-- The root toggle of the terminal: the shell is replaced by one of the other mode, but
the root mode needs an authorisation. -/
def terminalToggle (i : FrameIn) (g : Gui) : Gui :=
  if i.nkButton .terminalRoot then
    if g.root.terminalRootMode then
      let g := { g.closeCurrentPty with root.terminalRootMode := false }
      g.launchTerminalShell i .toggle g.term.terminalMode
    else if g.root.rootAuthorized then
      let g := { g.closeCurrentPty with root.terminalRootMode := true }
      g.launchTerminalShell i .toggle g.term.terminalMode
    else g.openPrompt .terminal
  else g

def closeTerminal (i : FrameIn) (b : Button) (g : Gui) : Gui :=
  if i.nkButton b then { g with panels.showTerminal := false } else g

/-- A button that selects the shell of the terminal. -/
def terminalModeButton (i : FrameIn) (b : Button) (mode : TerminalMode) (g : Gui) : Gui :=
  if i.nkButton b && g.term.terminalMode != mode then
    { g with term.terminalMode := mode }.closeCurrentPty.launchTerminalShell i .mode mode
  else g

/-- The title bar of the terminal. -/
def terminalTitle (i : FrameIn) (g : Gui) : Gui :=
  closeTerminal i .terminalTitleClose (terminalToggle i g)

/-- The shells of the terminal; without the program in memory, the second is not
offered. -/
def terminalModes (c : Cfg) (i : FrameIn) (g : Gui) : Gui :=
  let g := terminalModeButton i .bash .bash g
  if c.busyboxMemfd then terminalModeButton i .busybox .busybox g else g

/-- The terminal panel. -/
def terminalPanel (c : Cfg) (i : FrameIn) (g : Gui) : Gui :=
  if g.panels.showTerminal && !g.panels.showPasswordPrompt && c.termVte then
    runStages
      [window i .terminalTitle (terminalTitle i), window i .terminalMode (terminalModes c i),
        window i .terminalClose (closeTerminal i .terminalClose)] g
  else g

/-! ### The Run dialog -/

/-- The command field: `nk_edit_string` may use 255 of its 256 bytes. -/
def editCommand (i : FrameIn) (g : Gui) : Gui :=
  let r := i.nkEdit .command
  { g.emit (.editRun r.edits) with run.command := nkEditString 255 r.edits g.run.command }

/-- The checkbox that asks to run as root. -/
def runAsRootToggle (i : FrameIn) (g : Gui) : Gui :=
  if i.nkButton .runAsRoot then
    if g.root.runAsRoot then { g with root.runAsRoot := false }
    else if g.root.rootAuthorized then { g with root.runAsRoot := true }
    else g.openPrompt .runCommand
  else g

/-- The Run button, or Enter in the field: the command is copied for the end of the
program, unless the field is empty. -/
def runButton (i : FrameIn) (isEnterPressed : Bool) (g : Gui) : Gui :=
  if (i.nkButton .run || isEnterPressed) && 0 < g.run.command.len then
    let runCmd := safeCopy g.run.runCmd g.run.command.memory 256
    { g.emit (.runReady (cstr runCmd) g.run.command.text) with
      run := { g.run with runCmd := runCmd, runCommandReady := true } }.stop
  else g

def closeRun (i : FrameIn) (b : Button) (g : Gui) : Gui :=
  if i.nkButton b then { g with panels.showRun := false } else g

/-- The body of the Run dialog. -/
def runBody (i : FrameIn) (g : Gui) : Gui :=
  runAsRootToggle i (editCommand i g)

/-- Whether the command field reported Enter. -/
def runCommited (i : FrameIn) : Bool := i.nkBegin .runCommand && (i.nkEdit .command).commited

/-- The buttons of the Run dialog. -/
def runBar (i : FrameIn) (g : Gui) : Gui :=
  closeRun i .runClose (runButton i (runCommited i) g)

/-- The Run dialog; it is not drawn in the frame that opened it. -/
def runPanel (i : FrameIn) (g : Gui) : Gui :=
  if g.panels.showRun && g.locals.snap.showRun && !g.panels.showPasswordPrompt then
    runStages
      [window i .runCommandTitle (closeRun i .runTitleClose), window i .runCommand (runBody i),
        window i .runCommandClose (runBar i)] g
  else g

/-! ### The root prompt -/

/-- A password field whose characters are drawn as stars: the toolkit edits the stars, and
the characters it appended are moved to the password. -/
def editMasked (f : Field) (r : EditResult) : Field :=
  let oldLen := f.len
  let temp : Field := ⟨List.replicate oldLen 42 ++ List.replicate (256 - oldLen) 0, oldLen⟩
  let temp := nkEditString 255 r.edits temp
  let memory :=
    if oldLen < temp.len then
      f.memory.take oldLen ++ (temp.memory.drop oldLen).take (temp.len - oldLen)
        ++ f.memory.drop temp.len
    else f.memory
  ⟨memory.set temp.len 0, temp.len⟩

/-- The password field of the prompt; the field reports Enter as a submission. -/
def editRootPwd (i : FrameIn) (g : Gui) : Gui :=
  let r := i.nkEdit .rootPwd
  let g := { g with
    prompt := { g.prompt with
      rootPwd := editMasked g.prompt.rootPwd r
      pwdFocusIdx :=
        if r.active && !g.keys.keyboardActive then 0 else g.prompt.pwdFocusIdx } }
  if r.commited then g.submitPrompt else g

/-- The text shown when the password is refused. -/
def authFailed : Bytes :=
  chars ['A', 'u', 't', 'h', 'e', 'n', 't', 'i', 'c', 'a', 't', 'i', 'o', 'n', ' ', 'f', 'a', 'i',
    'l', 'e', 'd', '.', ' ', 'T', 'r', 'y', ' ', 'a', 'g', 'a', 'i', 'n', '.']

/-- What an accepted password was asked for. -/
def grant (i : FrameIn) (g : Gui) : Gui :=
  match g.prompt.pwdPromptSource with
  | .terminal =>
      let g := { g.closeCurrentPty with root.terminalRootMode := true }
      g.launchTerminalShell i .authenticated g.term.terminalMode
  | .taskManager => { g with root.taskmgrRootMode := true }
  | .runCommand => { g with root.runAsRoot := true }
  | .none => g

/-- The password typed is checked and wiped. -/
def checkPassword (i : FrameIn) (g : Gui) : Gui :=
  { g.emit (.verifyRootPassword (cstr g.prompt.rootPwd.memory) i.verified) with
    prompt := { g.prompt with
      pwdEnterPressed := false
      rootAuthMsg := if i.verified = 1 then [] else authFailed
      rootPwd := g.prompt.rootPwd.clear } }

/-- The authorisation is given, and the prompt closed. -/
def authorize (g : Gui) : Gui :=
  { g with root.rootAuthorized := true, panels.showPasswordPrompt := false }

/-- The check, and what follows from it. -/
def verify (i : FrameIn) (g : Gui) : Gui :=
  let g := checkPassword i g
  if i.verified = 1 then grant i g.authorize else g

/-- A click on the Authenticate button is a submission. -/
def submitClicked (i : FrameIn) (g : Gui) : Gui :=
  if i.nkButton .authenticate then g.emit .submitPrompt else g

/-- The password is checked when the prompt was submitted, by its button or by a key. -/
def authenticate (i : FrameIn) (g : Gui) : Gui :=
  if i.nkButton .authenticate || g.prompt.pwdEnterPressed then verify i (submitClicked i g)
  else g

/-- A button that closes the prompt without an answer. -/
def cancelPrompt (i : FrameIn) (b : Button) (g : Gui) : Gui :=
  if i.nkButton b then g.dismissPrompt else g

/-- The buttons of the prompt. -/
def promptBar (i : FrameIn) (g : Gui) : Gui :=
  cancelPrompt i .promptCancel (authenticate i g)

/-- The root prompt. -/
def promptPanel (i : FrameIn) (g : Gui) : Gui :=
  if g.panels.showPasswordPrompt then
    runStages
      [window i .rootPasswordTitle (cancelPrompt i .promptTitleClose),
        window i .rootPassword (editRootPwd i), window i .rootPasswordClose (promptBar i)] g
  else g

/-! ### The change-password dialog -/

/-- A password field of the dialog, drawn in clear or as stars. -/
def editPwd (showPasswords : Bool) (f : Field) (r : EditResult) : Field :=
  if showPasswords then
    let f := nkEditString 255 r.edits f
    { f with memory := f.memory.set f.len 0 }
  else editMasked f r

/-- A field the mouse makes active takes the focus. -/
def cpFocus (g : Gui) (r : EditResult) (idx : ℕ) : ℕ :=
  if r.active && !g.keys.keyboardActive then idx else g.cp.cpFocusIdx

def editOldPwd (i : FrameIn) (g : Gui) : Gui :=
  let r := i.nkEdit .oldPwd
  { g with cp := { g.cp with
      oldPwd := editPwd g.cp.showPasswords g.cp.oldPwd r
      cpFocusIdx := g.cpFocus r 0 } }

def editNewPwd (i : FrameIn) (g : Gui) : Gui :=
  let r := i.nkEdit .newPwd
  { g with cp := { g.cp with
      newPwd := editPwd g.cp.showPasswords g.cp.newPwd r
      cpFocusIdx := g.cpFocus r 1 } }

def editConfirmPwd (i : FrameIn) (g : Gui) : Gui :=
  let r := i.nkEdit .confirmPwd
  { g with cp := { g.cp with
      confirmPwd := editPwd g.cp.showPasswords g.cp.confirmPwd r
      cpFocusIdx := g.cpFocus r 2 } }

def showPasswordsToggle (i : FrameIn) (g : Gui) : Gui :=
  if i.nkButton .showPasswords then
    { g.togglePasswords with cp.cpFocusIdx := 3 }
  else g

/-- The new password is checked against its confirmation and handed to `passwd`. -/
def applyPassword (i : FrameIn) (isEnterPressed : Bool) (g : Gui) : Gui :=
  if i.nkButton .apply || isEnterPressed || g.locals.cpEnterPressed then
    let g := { g with locals.cpEnterPressed := false }
    if g.cp.newPwd.len = 0 then { g with cp.pwdMsg := .errPwdEmpty }
    else if cstr g.cp.newPwd.memory ≠ cstr g.cp.confirmPwd.memory then
      { g with cp.pwdMsg := .errPwdMismatch }
    else
      { g.emit (.changeOwnPassword (cstr g.cp.oldPwd.memory) (cstr g.cp.newPwd.memory)) with
        cp.pwdMsg := .changed i.pwdResult }
  else g

def closeChangePassword (i : FrameIn) (b : Button) (g : Gui) : Gui :=
  if i.nkButton b then { g with panels.showChangePassword := false } else g

/-- Whether one of the dialog's fields reported Enter. -/
def cpCommited (i : FrameIn) : Bool :=
  i.nkBegin .changePassword && ((i.nkEdit .oldPwd).commited || (i.nkEdit .newPwd).commited
    || (i.nkEdit .confirmPwd).commited)

/-- The body of the change-password dialog. -/
def changePasswordBody (i : FrameIn) (g : Gui) : Gui :=
  showPasswordsToggle i (editConfirmPwd i (editNewPwd i (editOldPwd i g)))

/-- The buttons of the change-password dialog. -/
def changePasswordBar (i : FrameIn) (g : Gui) : Gui :=
  closeChangePassword i .changePasswordClose (applyPassword i (cpCommited i) g)

/-- The change-password dialog; it is not drawn in the frame that opened it. -/
def changePasswordPanel (i : FrameIn) (g : Gui) : Gui :=
  if g.panels.showChangePassword && g.locals.snap.showChangePassword
      && !g.panels.showPasswordPrompt then
    runStages
      [window i .changePasswordTitle (closeChangePassword i .changePasswordTitleClose),
        window i .changePassword (changePasswordBody i),
        window i .changePasswordClose (changePasswordBar i)] g
  else g

/-! ### The switch-user dialog -/

/-- Enter or Space on the part of the dialog that has the focus. -/
def suKey (g : Gui) (focus : ℕ) : Bool :=
  g.keys.keyboardActive && g.su.suFocusIdx == focus && g.locals.cpEnterPressed

/-- A session of the list, clicked or chosen. -/
def sessionButton (i : FrameIn) (g : Gui) (k : ℕ) (s : SessionInfo) : Gui :=
  if i.nkButton (.session k) || (g.suKey 0 && g.su.suSelectedIdx == k) then
    { g.emit (.switchTo s.vt) with originalVt := s.vt, panels.showSwitchUser := false }.stop
  else g

/-- The session list, from the entry with index `k` on. -/
def sessionButtons (i : FrameIn) : ℕ → List SessionInfo → Gui → Gui
  | _, [], g => g
  | k, s :: sessions, g => sessionButtons i (k + 1) sessions (sessionButton i g k s)

def newSessionButton (i : FrameIn) (g : Gui) : Gui :=
  if i.nkButton .newSession || g.suKey 1 then
    { g.emit .newSession with panels.showSwitchUser := false }.stop
  else g

def closeSwitchUser (i : FrameIn) (b : Button) (key : Bool) (g : Gui) : Gui :=
  if i.nkButton b || key then { g with panels.showSwitchUser := false } else g

/-- The body of the switch-user dialog. -/
def switchUserBody (i : FrameIn) (g : Gui) : Gui :=
  newSessionButton i (window i .sessionList (sessionButtons i 0 g.su.sessions) g)

/-- The Close button of the switch-user dialog. -/
def switchUserBar (i : FrameIn) (g : Gui) : Gui :=
  closeSwitchUser i .switchUserClose (g.suKey 2) g

/-- The switch-user dialog; it is not drawn in the frame that opened it. -/
def switchUserPanel (i : FrameIn) (g : Gui) : Gui :=
  if g.panels.showSwitchUser && g.locals.snap.showSwitchUser
      && !g.panels.showPasswordPrompt then
    runStages
      [window i .switchUserTitle (closeSwitchUser i .switchUserTitleClose false),
        window i .switchUser (switchUserBody i), window i .switchUserClose (switchUserBar i)] g
  else g

/-! ### The power menu -/

def sleepButton (i : FrameIn) (g : Gui) : Gui :=
  if i.nkButton .sleep then { g with panels.showPowerMenu := false }.executeSleep else g

def restartButton (i : FrameIn) (g : Gui) : Gui :=
  if i.nkButton .restart then
    ({ g with panels.showPowerMenu := false }.emit .executeRestart).stop
  else g

def shutdownButton (i : FrameIn) (g : Gui) : Gui :=
  if i.nkButton .shutdown then
    ({ g with panels.showPowerMenu := false }.emit .executeShutdown).stop
  else g

/-- The power menu. -/
def powerMenu (i : FrameIn) (g : Gui) : Gui :=
  if g.panels.showPowerMenu && !g.panels.showPasswordPrompt then
    window i .powerOptions (runStages [sleepButton i, restartButton i, shutdownButton i]) g
  else g

end Gui

end LnxCad
