import LnxCad.Gui.Field
import LnxCad.Proc.Scan
import LnxCad.Proc.Sessions

/-!
# The state of the interface

The main loop of the rescue program draws the interface anew in every frame.  Its state is
spread over the local variables of `main` and a few global ones; here it is one record,
`Gui`, grouped by panel.  A flag of the source is a Boolean; a field keeps the name of the
variable it stands for.

What a frame takes from outside is its input, `FrameIn`: the events the devices deliver,
the answers of the toolkit to each widget, the processes a scan meets, the outcome of a
password check.  What it does to the outside is its events, which `Gui.log` collects in
order.
-/

namespace LnxCad

/-! ### Parts of the state -/

/-- Which panels are open. -/
structure Panels where
  showTerminal : Bool := false
  showRun : Bool := false
  showTaskManager : Bool := false
  showPowerMenu : Bool := false
  showChangePassword : Bool := false
  showSwitchUser : Bool := false
  showPasswordPrompt : Bool := false
deriving DecidableEq

/-- The mouse: position, button, the bytes of an incomplete packet, and the filters that
drop unwanted clicks. -/
structure Mouse where
  mouseX : ℤ
  mouseY : ℤ
  prevMouseX : ℤ
  prevMouseY : ℤ
  mouseBtnLeft : Bool := false
  prevMouseBtnLeft : Bool := false
  mouseAcc : Bytes := []
  mouseIdleFrames : ℕ := 0
  ignoreClicks : Bool := false
  clickCooldown : ℕ := 0
deriving DecidableEq

/-- The modifier keys, and whether the keyboard rather than the mouse is in use. -/
structure Keys where
  keyboardActive : Bool := true
  shiftPressed : Bool := false
  ctrlPressed : Bool := false
deriving DecidableEq

/-- The privilege flags. -/
structure Root where
  rootAuthorized : Bool := false
  terminalRootMode : Bool := false
  taskmgrRootMode : Bool := false
  runAsRoot : Bool := false
deriving DecidableEq

/-- What the root prompt was opened for (`pwd_prompt_source`). -/
inductive PromptSource where
  | none
  | terminal
  | taskManager
  | runCommand
deriving DecidableEq

/-- The root password prompt. -/
structure Prompt where
  pwdPromptSource : PromptSource := .none
  rootPwd : Field := .zero 256
  rootAuthMsg : Bytes := []
  pwdFocusIdx : ℕ := 0
  pwdEnterPressed : Bool := false

/-- The shell a terminal runs (`terminal_mode`). -/
inductive TerminalMode where
  | bash
  | busybox
deriving DecidableEq

/-- The terminal: whether a pseudo-terminal is open, and the shell it runs. -/
structure Terminal where
  termPty : Bool := false
  terminalMode : TerminalMode := .bash
deriving DecidableEq

/-- The list a task manager shows (`sort_mode_cpu`). -/
inductive SortMode where
  | memory
  | cpu
  | search
deriving DecidableEq

/-- The keyboard focus of the task manager: the group (tabs, search field, list, close
button), and the tab, row and column selected. -/
structure TmFocus where
  tmFocusGroup : ℕ := 2
  tmSelectedTab : ℕ := 0
  tmSelectedRow : ℕ := 0
  tmSelectedCol : ℕ := 0
deriving DecidableEq

/-- The processes listed, the list shown, and the search field. -/
structure TaskManager where
  procs : Procs := .init
  sortModeCpu : SortMode := .memory
  search : Field := .zero 64

/-- The Run dialog, with `user_session.run_cmd`. -/
structure RunDialog where
  command : Field := .zero 256
  runCommandReady : Bool := false
  runCmd : Bytes := List.replicate 256 0

/-- What the message line of the change-password dialog says. -/
inductive PwdMsg where
  | none
  | errPwdEmpty
  | errPwdMismatch
  | changed (message : Bytes)
deriving DecidableEq

/-- The change-password dialog. -/
structure ChangePassword where
  oldPwd : Field := .zero 256
  newPwd : Field := .zero 256
  confirmPwd : Field := .zero 256
  pwdMsg : PwdMsg := .none
  showPasswords : Bool := false
  cpFocusIdx : ℕ := 0

/-- The switch-user dialog. -/
structure SwitchUser where
  sessions : List SessionInfo := []
  suFocusIdx : ℕ := 0
  suSelectedIdx : ℕ := 0

/-- The main menu and the power menu; `triggerAction` is the action chosen in the current
frame by the keyboard or on a corner icon, `-1` when there is none. -/
structure Menu where
  selectedIdx : ℕ := 6
  pmSelectedIdx : ℕ := 0
  triggerAction : ℤ := -1
deriving DecidableEq

/-- The display: the buffer shown last, whether there are two, and the one the screen
scans out. -/
structure Display where
  frontBuf : ℕ := 0
  doubleBuffered : Bool
  scanout : ℕ := 0
deriving DecidableEq

/-- A row of the process list as drawn: its index in the list and the process shown. -/
structure ShownRow where
  row : ℕ
  pid : ℤ
deriving DecidableEq

/-- What the user sees of the process list: the rows drawn in the previous frame
(`picture`) and, so far, in the current one (`drawn`); and the row that was selected when
the list last got a key to act on. -/
structure Screen where
  picture : List ShownRow := []
  drawn : List ShownRow := []
  keyRow : ℕ := 0
deriving DecidableEq

/-! ### Devices -/

/-- `input_event`, without its time. -/
structure InputEvent where
  type : ℕ
  code : ℕ
  value : ℤ
deriving DecidableEq

/-- What one `read` of the mouse device returns: at least one byte and at most the size
of the buffer it reads into. -/
abbrev MouseChunk := { b : Bytes // 0 < b.length ∧ b.length ≤ 128 }

/-- The events and the reads pending at the devices. -/
structure Devices where
  kbd : List InputEvent := []
  mouse : List MouseChunk := []
deriving DecidableEq

/-! ### Events -/

/-- The signals the task manager sends. -/
inductive Signal where
  | sigkill
  | sigterm
  | sigstop
  | sigcont
deriving DecidableEq

/-- A signal sent from the process list: the target, the owner recorded for it, the row it
was on, whether the root mode was on, and whether the keyboard rather than a click asked
for it. -/
structure Kill where
  pid : ℤ
  signal : Signal
  uid : ℕ
  row : ℕ
  rootMode : Bool
  byKey : Bool
deriving DecidableEq

/-- The symbols a key press sends to the terminal (`XKB_KEY_…`). -/
inductive Sym where
  | noSymbol
  | return
  | backSpace
  | left
  | right
  | up
  | down
  | escape
  | tab
  | delete
  | f (n : ℕ)
deriving DecidableEq

/-- The keys the program forwards to the toolkit. -/
inductive NkKey where
  | backspace
  | enter
  | left
  | right
deriving DecidableEq

/-- What the main loop does to the outside. -/
inductive Event where
  | kbdRead (ev : InputEvent)
  | kbdDispatch (ev : InputEvent)
  | mouseRead (bytes : Bytes)
  | mouseFeed (byte : UInt8)
  | nkInputKey (key : NkKey) (down : Bool)
  | nkInputUnicode (c : ℕ)
  | vteKeyboard (sym : Sym) (unicode : ℕ) (shift ctrl : Bool)
  | scanProcesses
  | maintainBacklight
  | launchShell (asRoot : Bool) (mode : TerminalMode)
  | closePty
  | openPrompt (source : PromptSource)
  | submitPrompt
  | verifyRootPassword (password : Bytes) (verified : ℤ)
  | changeOwnPassword (oldPwd newPwd : Bytes)
  | kill (k : Kill)
  | editRun (edits : List NkEdit)
  | runReady (runCmd shown : Bytes)
  | executeCommand (cmd : Bytes) (asRoot : Bool)
  | executeSleep (fb shown : ℕ)
  | executeRestart
  | executeShutdown
  | executeSignOut
  | executeLock
  | newSession
  | switchTo (vt : ℤ)
deriving DecidableEq

/-! ### Parameters and inputs -/

/-- What does not change while the loop runs: sizes of the screen and of the images, which
devices and libraries are there, and the user the program serves. -/
structure Cfg where
  width : ℤ
  height : ℤ
  shutdownW : ℤ
  shutdownH : ℤ
  terminalW : ℤ
  terminalH : ℤ
  pmMenuW : ℤ
  tmH : ℤ
  kbdFd : Bool
  mouseFd : Bool
  termVte : Bool
  busyboxMemfd : Bool
  lockCmd : Bool
  userUid : ℤ
  myPid : ℕ
  logicalCores : ℕ
  rescueVt : ℤ

/-- The windows of the interface. -/
inductive Window where
  | cad
  | terminalTitle
  | terminalMode
  | terminal
  | terminalClose
  | taskManagerTitle
  | taskManager
  | taskManagerClose
  | runCommandTitle
  | runCommand
  | runCommandClose
  | rootPasswordTitle
  | rootPassword
  | rootPasswordClose
  | changePasswordTitle
  | changePassword
  | changePasswordClose
  | switchUserTitle
  | switchUser
  | sessionList
  | switchUserClose
  | powerOptions
deriving DecidableEq

/-- The buttons of the interface, one for each place where the program draws one. -/
inductive Button where
  | lock
  | switchUser
  | signOut
  | changePassword
  | taskManager
  | runCommand
  | cancel
  | terminalRoot
  | terminalTitleClose
  | bash
  | busybox
  | terminalClose
  | taskManagerRoot
  | taskManagerTitleClose
  | topRam
  | topCpu
  | search
  | kill (row : ℕ)
  | terminate (row : ℕ)
  | pause (row : ℕ)
  | label (row : ℕ)
  | taskManagerClose
  | runTitleClose
  | runAsRoot
  | run
  | runClose
  | promptTitleClose
  | authenticate
  | promptCancel
  | changePasswordTitleClose
  | showPasswords
  | apply
  | changePasswordClose
  | switchUserTitleClose
  | session (index : ℕ)
  | newSession
  | switchUserClose
  | sleep
  | restart
  | shutdown
deriving DecidableEq

/-- The text fields of the interface. -/
inductive EditField where
  | search
  | command
  | rootPwd
  | oldPwd
  | newPwd
  | confirmPwd
deriving DecidableEq

/-- What one call of `nk_edit_string` did: the edits it applied, and whether it reported
the field active and committed. -/
structure EditResult where
  edits : List NkEdit := []
  active : Bool := false
  commited : Bool := false
deriving DecidableEq

/-- The places of a frame where processes are scanned. -/
inductive ScanSite where
  | periodic
  | opening
  | tab
  | searchEdit
deriving DecidableEq

/-- The places of a frame where a shell is launched. -/
inductive LaunchSite where
  | toggle
  | mode
  | authenticated
  | reopen
deriving DecidableEq

/-- What one frame takes from outside. -/
structure FrameIn where
  keys : List InputEvent := []
  mouse : List MouseChunk := []
  ptyExited : Bool := false
  snapshot : ScanSite → ProcSnapshot := fun _ => ⟨none, 0⟩
  sightings : List SessionSighting := []
  ptyOpen : LaunchSite → Bool := fun _ => true
  nkBegin : Window → Bool := fun _ => true
  nkButton : Button → Bool := fun _ => false
  nkEdit : EditField → EditResult := fun _ => {}
  verified : ℤ := 0
  pwdResult : Bytes := []
  flipOk : Bool := true

/-! ### The state -/

/-- Variables local to a frame: the mouse bytes taken, a key that submits the
change-password or switch-user dialog, and the panels as they were when the frame
began. -/
structure Locals where
  bytesReadThisFrame : ℕ := 0
  cpEnterPressed : Bool := false
  snap : Panels := {}
deriving DecidableEq

/-- `is_modal`: whether the root prompt was open when the frame began. -/
def Locals.isModal (l : Locals) : Bool := l.snap.showPasswordPrompt

/-- The state of the main loop. -/
structure Gui where
  panels : Panels := {}
  mouse : Mouse
  keys : Keys := {}
  root : Root := {}
  prompt : Prompt := {}
  term : Terminal := {}
  tm : TaskManager := {}
  focus : TmFocus := {}
  run : RunDialog := {}
  cp : ChangePassword := {}
  su : SwitchUser := {}
  menu : Menu := {}
  display : Display
  screen : Screen := {}
  dev : Devices := {}
  locals : Locals := {}
  frameCount : ℕ := 0
  running : Bool := true
  originalVt : ℤ
  log : List Event := []

namespace Gui

/-- Does something to the outside. -/
def emit (g : Gui) (e : Event) : Gui := { g with log := g.log ++ [e] }

/-- Sets the action chosen in the frame. -/
def trigger (g : Gui) (action : ℤ) : Gui := { g with menu.triggerAction := action }

/-- `if (trigger_action == 100) trigger_action = -1`. -/
def consume (g : Gui) : Gui := if g.menu.triggerAction = 100 then g.trigger (-1) else g

/-- The keyboard comes into use. -/
def touchKeyboard (g : Gui) : Gui := { g with keys.keyboardActive := true }

/-- The loop ends after the frame. -/
def stop (g : Gui) : Gui := { g with running := false }

end Gui

end LnxCad
