import LnxCad.Gui.State
import LnxCad.Lib.Run

/-!
# The keyboard

A frame takes at most sixty-four events from the keyboard.  A press is translated into a
character or a symbol.  The terminal, when it is shown, takes every press; otherwise a
press is given to the panel that is open, in a fixed order of precedence, and a character
no panel takes is typed into the text field that has the focus.
-/

namespace LnxCad

/-! ### Key codes -/

def evKey : ℕ := 1
def keyEsc : ℕ := 1
def keyBackspace : ℕ := 14
def keyTab : ℕ := 15
def keyEnter : ℕ := 28
def keyLeftCtrl : ℕ := 29
def keyLeftShift : ℕ := 42
def keyRightShift : ℕ := 54
def keySpace : ℕ := 57
def keyF1 : ℕ := 59
def keyF10 : ℕ := 68
def keyKpEnter : ℕ := 96
def keyRightCtrl : ℕ := 97
def keyUp : ℕ := 103
def keyLeft : ℕ := 105
def keyRight : ℕ := 106
def keyDown : ℕ := 108
def keyDelete : ℕ := 111

/-- The characters of the keys, without and with Shift. -/
def keymap : List (ℕ × Char × Char) :=
  [(2, '1', '!'), (3, '2', '@'), (4, '3', '#'), (5, '4', '$'), (6, '5', '%'), (7, '6', '^'),
    (8, '7', '&'), (9, '8', '*'), (10, '9', '('), (11, '0', ')'), (12, '-', '_'),
    (13, '=', '+'), (26, '[', Char.ofNat 123), (27, ']', Char.ofNat 125), (39, ';', ':'),
    (40, Char.ofNat 39, Char.ofNat 34), (41, Char.ofNat 96, '~'), (43, Char.ofNat 92, '|'),
    (51, ',', '<'), (52, '.', '>'), (53, '/', '?'),
    (16, 'q', 'Q'), (17, 'w', 'W'), (18, 'e', 'E'), (19, 'r', 'R'), (20, 't', 'T'),
    (21, 'y', 'Y'), (22, 'u', 'U'), (23, 'i', 'I'), (24, 'o', 'O'), (25, 'p', 'P'),
    (30, 'a', 'A'), (31, 's', 'S'), (32, 'd', 'D'), (33, 'f', 'F'), (34, 'g', 'G'),
    (35, 'h', 'H'), (36, 'j', 'J'), (37, 'k', 'K'), (38, 'l', 'L'), (44, 'z', 'Z'),
    (45, 'x', 'X'), (46, 'c', 'C'), (47, 'v', 'V'), (48, 'b', 'B'), (49, 'n', 'N'),
    (50, 'm', 'M'), (57, ' ', ' '), (82, '0', '0'), (79, '1', '1'), (80, '2', '2'),
    (81, '3', '3'), (75, '4', '4'), (76, '5', '5'), (77, '6', '6'), (71, '7', '7'),
    (72, '8', '8'), (73, '9', '9'), (74, '-', '-'), (78, '+', '+'), (55, '*', '*'),
    (98, '/', '/'), (83, '.', '.')]

/-- The character code of a key, `0` for a key without one. -/
def keyUnicode (shift : Bool) (code : ℕ) : ℕ :=
  match keymap.lookup code with
  | some (plain, shifted) => if shift then shifted.toNat else plain.toNat
  | none => 0

/-- The symbol of a key. -/
def keySym (code : ℕ) : Sym :=
  if code == keyEnter || code == keyKpEnter then .return
  else if code == keyBackspace then .backSpace
  else if code == keyLeft then .left
  else if code == keyRight then .right
  else if code == keyUp then .up
  else if code == keyDown then .down
  else if code == keyEsc then .escape
  else if code == keyTab then .tab
  else if code == keyDelete then .delete
  else if keyF1 ≤ code ∧ code ≤ keyF10 then .f (code - keyF1 + 1)
  else .noSymbol

/-- Either Enter key. -/
def isEnter (code : ℕ) : Bool := code == keyEnter || code == keyKpEnter

/-- A key that activates what has the focus. -/
def isActivate (code : ℕ) : Bool := isEnter code || code == keySpace

/-! ### What a press does to each panel -/

namespace Gui

/-- The number of entries in the list shown. -/
def currentProcs (g : Gui) : ℕ :=
  match g.tm.sortModeCpu with
  | .memory => g.tm.procs.topProcsMem.length
  | .cpu => g.tm.procs.topProcsCpu.length
  | .search => g.tm.procs.topProcsSearch.length

/-- No panel is open over the main menu. -/
def noPanel (g : Gui) : Bool :=
  !g.panels.showTaskManager && !g.panels.showRun && !g.panels.showChangePassword
    && !g.panels.showPowerMenu && !g.panels.showTerminal && !g.panels.showSwitchUser

/-- The root prompt is closed without an answer; a prompt opened by the Run dialog takes
back the request to run as root. -/
def dismissPrompt (g : Gui) : Gui :=
  let g := { g with panels.showPasswordPrompt := false }
  if g.prompt.pwdPromptSource = .runCommand then { g with root.runAsRoot := false } else g

/-- `pwd_enter_pressed = 1`. -/
def submitPrompt (g : Gui) : Gui :=
  { g.emit .submitPrompt with prompt.pwdEnterPressed := true }

/-- A focus index moved by one, round `n` places, backwards with Shift. -/
def cycle (g : Gui) (n i : ℕ) : ℕ :=
  if g.keys.shiftPressed then (i + n - 1) % n else (i + 1) % n

/-- Escape closes the panel on top, or leaves the program. -/
def escape (g : Gui) : Gui :=
  if g.panels.showPasswordPrompt then g.dismissPrompt
  else if g.panels.showTaskManager then { g with panels.showTaskManager := false }
  else if g.panels.showRun then { g with panels.showRun := false }
  else if g.panels.showChangePassword then { g with panels.showChangePassword := false }
  else if g.panels.showSwitchUser then { g with panels.showSwitchUser := false }
  else if g.panels.showPowerMenu then { g with panels.showPowerMenu := false }
  else g.stop

/-- Enter or Space in the root prompt. -/
def promptActivate (g : Gui) (code : ℕ) : Gui :=
  let g := g.touchKeyboard
  if code == keySpace && g.prompt.pwdFocusIdx == 2 then g.dismissPrompt
  else if code == keySpace && g.prompt.pwdFocusIdx == 1 then g.submitPrompt
  else if g.prompt.pwdFocusIdx == 2 && code == keyEnter then g.dismissPrompt
  else g.submitPrompt

/-- `show_passwords = !show_passwords`. -/
def togglePasswords (g : Gui) : Gui := { g with cp.showPasswords := !g.cp.showPasswords }

/-- `cp_enter_pressed = 1`. -/
def submitDialog (g : Gui) : Gui := { g with locals.cpEnterPressed := true }

/-- Enter or Space in the change-password dialog. -/
def changePasswordActivate (g : Gui) (code : ℕ) : Gui :=
  let g := g.touchKeyboard
  if code == keySpace then
    if g.cp.cpFocusIdx == 3 then g.togglePasswords
    else if g.cp.cpFocusIdx == 4 then g.submitDialog
    else if g.cp.cpFocusIdx == 5 then { g with panels.showChangePassword := false }
    else g
  else if g.cp.cpFocusIdx == 3 then g.togglePasswords
  else if g.cp.cpFocusIdx == 5 then { g with panels.showChangePassword := false }
  else g.submitDialog

/-- Tab in the task manager moves to the next group, past a search field that is not shown
and past an empty list, but at most four places. -/
def nextGroup (g : Gui) : ℕ → ℕ → ℕ
  | 0, group => group
  | guard + 1, group =>
      let group := (group + 1) % 4
      if guard = 0 then group
      else if (group = 1 ∧ g.tm.sortModeCpu ≠ .search) ∨ (group = 2 ∧ g.currentProcs = 0) then
        g.nextGroup guard group
      else group

/-- Left in the task manager. -/
def tmLeft (f : TmFocus) : TmFocus :=
  if f.tmFocusGroup = 0 ∧ f.tmSelectedTab > 0 then
    { f with tmSelectedTab := f.tmSelectedTab - 1 }
  else if f.tmFocusGroup = 2 ∧ f.tmSelectedCol > 0 then
    { f with tmSelectedCol := f.tmSelectedCol - 1 }
  else f

/-- Right in the task manager. -/
def tmRight (f : TmFocus) : TmFocus :=
  if f.tmFocusGroup = 0 ∧ f.tmSelectedTab < 2 then
    { f with tmSelectedTab := f.tmSelectedTab + 1 }
  else if f.tmFocusGroup = 2 ∧ f.tmSelectedCol < 3 then
    { f with tmSelectedCol := f.tmSelectedCol + 1 }
  else f

/-- Up in the task manager. -/
def tmUp (f : TmFocus) : TmFocus :=
  if f.tmFocusGroup = 2 ∧ f.tmSelectedRow > 0 then
    { f with tmSelectedRow := f.tmSelectedRow - 1 }
  else f

/-- Down in the task manager. -/
def tmDown (currentProcs : ℕ) (f : TmFocus) : TmFocus :=
  if f.tmFocusGroup = 2 ∧ f.tmSelectedRow + 1 < currentProcs then
    { f with tmSelectedRow := f.tmSelectedRow + 1 }
  else f

/-- `execute_sleep`: on resume the framebuffer handed over is put back on the screen, whatever
it showed before. -/
def executeSleep (g : Gui) : Gui :=
  { g.emit (.executeSleep g.display.frontBuf g.display.scanout) with
    display.scanout := g.display.frontBuf }

/-- Enter in the power menu. -/
def powerActivate (g : Gui) : Gui :=
  if g.menu.pmSelectedIdx = 0 then { g.executeSleep with panels.showPowerMenu := false }
  else if g.menu.pmSelectedIdx = 1 then (g.emit .executeRestart).stop
  else if g.menu.pmSelectedIdx = 2 then (g.emit .executeShutdown).stop
  else g

/-- `trigger_action = 100`: the task manager is to act on what has the focus. -/
def tmActivate (g : Gui) : Gui :=
  { g.trigger 100 with screen.keyRow := g.focus.tmSelectedRow }

/-- Enter, or Space in the task manager, with no dialog that takes it. -/
def menuActivate (g : Gui) (code : ℕ) : Gui :=
  let g :=
    if g.panels.showTaskManager then g.tmActivate
    else if g.panels.showPowerMenu then g.powerActivate
    else if g.noPanel && code == keyEnter then g.trigger g.menu.selectedIdx
    else g
  g.touchKeyboard

end Gui

open Gui

/-- What a press outside the terminal may do, in the order of precedence of the panels:
for each alternative its condition and the state it leads to. -/
def keyRules (code unicode : ℕ) (g : Gui) : List (Bool × Gui) :=
  let p := g.panels
  let modal := g.locals.isModal
  [(code == keyEsc, g.escape),
    (p.showPasswordPrompt && code == keyTab,
      { g with prompt.pwdFocusIdx := g.cycle 3 g.prompt.pwdFocusIdx }.touchKeyboard),
    (p.showPasswordPrompt && isActivate code, g.promptActivate code),
    (p.showChangePassword && code == keyTab,
      { g with cp.cpFocusIdx := g.cycle 6 g.cp.cpFocusIdx }.touchKeyboard),
    (p.showChangePassword && isActivate code, g.changePasswordActivate code),
    (p.showSwitchUser && code == keyTab,
      { g with su.suFocusIdx := g.cycle 3 g.su.suFocusIdx }.touchKeyboard),
    (p.showSwitchUser && g.su.suFocusIdx == 0 && code == keyUp,
      { g with su.suSelectedIdx := g.su.suSelectedIdx - 1 }.touchKeyboard),
    (p.showSwitchUser && g.su.suFocusIdx == 0 && code == keyDown,
      { g with su.suSelectedIdx :=
          if g.su.suSelectedIdx + 1 < g.su.sessions.length then g.su.suSelectedIdx + 1
          else g.su.suSelectedIdx }.touchKeyboard),
    (p.showSwitchUser && isActivate code, g.submitDialog.touchKeyboard),
    (!modal && p.showTaskManager && code == keyTab,
      { g with focus.tmFocusGroup := g.nextGroup 4 g.focus.tmFocusGroup }.touchKeyboard),
    (!modal && p.showTaskManager && code == keyLeft,
      { g with focus := tmLeft g.focus }.touchKeyboard),
    (!modal && p.showTaskManager && code == keyRight,
      { g with focus := tmRight g.focus }.touchKeyboard),
    (!modal && p.showTaskManager && code == keyUp,
      { g with focus := tmUp g.focus }.touchKeyboard),
    (!modal && p.showTaskManager && code == keyDown,
      { g with focus := tmDown g.currentProcs g.focus }.touchKeyboard),
    (!modal && g.noPanel && code == keyUp,
      { g with menu.selectedIdx := (g.menu.selectedIdx + 8) % 9 }.touchKeyboard),
    (!modal && g.noPanel && code == keyDown,
      { g with menu.selectedIdx := (g.menu.selectedIdx + 1) % 9 }.touchKeyboard),
    (!modal && p.showPowerMenu && code == keyUp,
      { g with menu.pmSelectedIdx := (g.menu.pmSelectedIdx + 2) % 3 }.touchKeyboard),
    (!modal && p.showPowerMenu && code == keyDown,
      { g with menu.pmSelectedIdx := (g.menu.pmSelectedIdx + 1) % 3 }.touchKeyboard),
    (!modal && (isEnter code || (p.showTaskManager && code == keySpace
        && g.focus.tmFocusGroup != 0 && g.focus.tmFocusGroup != 1)), g.menuActivate code),
    (unicode != 0, g.emit (.nkInputUnicode unicode))]

/-- A press outside the terminal. -/
def pressKey (code unicode : ℕ) (g : Gui) : Gui :=
  firstRule (keyRules code unicode g) g

/-! ### Events -/

/-- A press while the terminal is shown: Escape closes it, any other key with a symbol or a
character goes to the shell. -/
def terminalKey (code unicode : ℕ) (g : Gui) : Gui :=
  if keySym code = .escape then { g with panels.showTerminal := false }
  else if keySym code ≠ .noSymbol ∨ unicode ≠ 0 then
    g.emit (.vteKeyboard (keySym code) unicode g.keys.shiftPressed g.keys.ctrlPressed)
  else g

/-- The editing keys the toolkit is told of, pressed or released. -/
def editKey (code : ℕ) (down : Bool) (g : Gui) : Gui :=
  let p := g.panels
  if code == keyBackspace then g.emit (.nkInputKey .backspace down)
  else if isEnter code then
    if p.showPasswordPrompt || p.showTaskManager || p.showRun || p.showChangePassword
        || p.showPowerMenu || p.showTerminal || p.showSwitchUser then
      g.emit (.nkInputKey .enter down)
    else g
  else if p.showPasswordPrompt || (p.showTaskManager && g.focus.tmFocusGroup == 1)
      || p.showRun || p.showChangePassword then
    if code == keyLeft then g.emit (.nkInputKey .left down)
    else if code == keyRight then g.emit (.nkInputKey .right down)
    else g
  else g

/-- Whether an event is a press or the repetition of one. -/
def InputEvent.down (ev : InputEvent) : Bool := ev.value == 1 || ev.value == 2

/-- The character of an event. -/
def eventUnicode (shift : Bool) (ev : InputEvent) : ℕ :=
  if ev.down then keyUnicode shift ev.code else 0

/-- One event of the keyboard. -/
def keyEvent (c : Cfg) (ev : InputEvent) (g : Gui) : Gui :=
  let unicode := eventUnicode g.keys.shiftPressed ev
  if ev.type ≠ evKey then g
  else if ev.code == keyLeftShift || ev.code == keyRightShift then
    { g with keys.shiftPressed := ev.down }
  else if ev.code == keyLeftCtrl || ev.code == keyRightCtrl then
    { g with keys.ctrlPressed := ev.down }
  else if ev.down && g.panels.showTerminal && c.termVte && !g.locals.isModal then
    terminalKey ev.code unicode g
  else if ev.down then pressKey ev.code unicode (editKey ev.code ev.down g)
  else editKey ev.code ev.down g

/-- The read loop, `while (read(…) > 0 && kbd_limit++ < 64)`: the events still pending at
the device and the number taken so far.  The limit is tested after the read. -/
def kbdLoop (c : Cfg) : List InputEvent → ℕ → Gui → Gui
  | [], _, g => { g with dev.kbd := [] }
  | ev :: rest, kbdLimit, g =>
      let g := g.emit (.kbdRead ev)
      if kbdLimit < 64 then
        kbdLoop c rest (kbdLimit + 1) (keyEvent c ev (g.emit (.kbdDispatch ev)))
      else { g with dev.kbd := rest }

/-- A shell that has exited is cleaned up and its panel closed. -/
def ptyDispatch (i : FrameIn) (g : Gui) : Gui :=
  if g.term.termPty && i.ptyExited then
    { g with term.termPty := false, panels.showTerminal := false }
  else g

/-- The keyboard part of a frame. -/
def readKeyboard (c : Cfg) (i : FrameIn) (g : Gui) : Gui :=
  if c.kbdFd then
    let g := ptyDispatch i g
    kbdLoop c g.dev.kbd 0 g
  else g

/-! ### An induction rule for the keyboard -/

/-- The events of the keyboard, and those by which a press is handed on. -/
def Event.isInput : Event → Bool
  | .kbdRead _ | .kbdDispatch _ | .nkInputKey _ _ | .nkInputUnicode _ | .vteKeyboard _ _ _ _ => true
  | _ => false

/-- A property that every single effect of a key event keeps. -/
structure KeyStable (P : Gui → Prop) : Prop where
  emit : ∀ g e, e.isInput → P g → P (g.emit e)
  shift : ∀ g b, P g → P { g with keys.shiftPressed := b }
  ctrl : ∀ g b, P g → P { g with keys.ctrlPressed := b }
  terminal : ∀ g, P g → P { g with panels.showTerminal := false }
  press : ∀ g code unicode, P g → P (pressKey code unicode g)
  dev : ∀ g q, P g → P { g with dev.kbd := q }

namespace KeyStable

variable {P : Gui → Prop} {c : Cfg}

theorem keyEvent (hP : KeyStable P) (ev : InputEvent) {g : Gui} (h : P g) :
  P (keyEvent c ev g)
  := by
  have hedit : P (editKey ev.code ev.down g) := by
    unfold editKey
    dsimp only
    split_ifs
    all_goals first | exact h | exact hP.emit _ _ rfl h
  unfold LnxCad.keyEvent
  dsimp only
  split_ifs
  · apply h
  · apply hP.shift _ _ h
  · apply hP.ctrl _ _ h
  · unfold terminalKey
    split_ifs
    · apply hP.terminal _ h
    · apply hP.emit _ _ rfl h
    · apply h
  · apply hP.press _ _ _ hedit
  · apply hedit

/-- Such a property is kept by the keyboard loop. -/
theorem kbdLoop (hP : KeyStable P) (pending : List InputEvent) (kbdLimit : ℕ) {g : Gui}
    (h : P g) :
  P (kbdLoop c pending kbdLimit g)
  := by
  induction pending generalizing kbdLimit g with
  | nil => apply hP.dev _ _ h
  | cons ev rest ih =>
      unfold LnxCad.kbdLoop
      dsimp only
      split
      · apply ih
        apply hP.keyEvent
        apply hP.emit _ _ rfl
        apply hP.emit _ _ rfl h
      · apply hP.dev
        apply hP.emit _ _ rfl h

end KeyStable

/-- A press moved the focus of a panel or of the menu. -/
def Gui.refocus (g : Gui) (pwd cp suFocus suSelected : ℕ) (focus : TmFocus)
    (selected pmSelected : ℕ) : Gui :=
  { g with
    prompt.pwdFocusIdx := pwd
    cp.cpFocusIdx := cp
    su := { g.su with suFocusIdx := suFocus, suSelectedIdx := suSelected }
    focus := focus
    menu := { g.menu with selectedIdx := selected, pmSelectedIdx := pmSelected } }.touchKeyboard

/-- What a press outside the terminal can do. -/
theorem pressKey_cases
    {P : Gui → Prop} {code unicode : ℕ} {g : Gui} (hidle : P g)
    (hescape : P g.escape)
    (hprompt : g.panels.showPasswordPrompt → isActivate code → P (g.promptActivate code))
    (hcp : P (g.changePasswordActivate code))
    (hsu : P g.submitDialog.touchKeyboard)
    (hmenu : P (g.menuActivate code))
    (hfocus : ∀ pwd cp suFocus suSelected focus selected pmSelected,
      P (g.refocus pwd cp suFocus suSelected focus selected pmSelected))
    (hchar : P (g.emit (.nkInputUnicode unicode))) :
  P (pressKey code unicode g)
  := by
  have hrules : ∀ r ∈ keyRules code unicode g, r.1 = true → P r.2 := by
    simp only [keyRules, List.forall_mem_cons]
    refine ⟨fun _ => hescape, ?_, ?_, ?_, fun _ => hcp, ?_, ?_, ?_, fun _ => hsu, ?_, ?_, ?_, ?_, ?_,
      ?_, ?_, ?_, ?_, fun _ => hmenu, fun _ => hchar, by simp⟩
    case refine_2 =>
      intro hguard
      rw [Bool.and_eq_true] at hguard
      exact hprompt hguard.1 hguard.2
    all_goals
      intro _
      apply hfocus
  exact firstRule_cases hrules hidle

end LnxCad
