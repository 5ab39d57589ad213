import LnxCad.Vt.Machine
import LnxCad.Gui.Frame

/-!
# Taking the display and giving it back

The start of `main`, which silences the console, disables SysRq, lights the screen and takes
the display from the session, and the ways back: `restore_vt`, run at exit and by
`cleanup_drm`, and `emergency_restore`, the handler of fatal signals.  The main loop is the
one of the interface; it reaches the machine through the events of its log.
-/

namespace LnxCad

namespace Vt

/-- What the outside decides besides the answers: whether the SysRq setting can be read, the
backlights listed (no directory lists a name twice), the outcome of `open("/dev/tty0")`, the
parameters and the inputs of the main loop, and whether its first shell could be
started. -/
structure Env where
  sysrqReads : Bool
  listing : List Bytes
  ttyOpen : ℤ
  cfg : Cfg
  frames : List FrameIn
  ptyOpen : Bool
  nodup_listing : listing.Nodup

/-! ### SysRq and backlight -/

/-- `disable_sysrq`. -/
def disableSysrq (e : Env) : Cmd Unit :=
  if e.sysrqReads then do
    setCore fun c => { c with savedSysrq := strToInt (intText c.kernel.sysrq) }
    writeSysrq 0
  else pure ()

/-- `restore_sysrq`. -/
def restoreSysrq : Cmd Unit := do
  let saved ← Prog.read fun s => s.core.savedSysrq
  if 0 ≤ saved then do
    writeSysrq saved
    setCore fun c => { c with savedSysrq := -1 }
  else pure ()

/-- The number of backlights kept. -/
def maxBacklights : ℕ := 4

/-- The path of the brightness of a backlight, before it is cut to the buffer it is built
in. -/
def brightnessPath (name : Bytes) : Bytes :=
  chars "/sys/class/backlight/".toList ++ name ++ chars "/brightness".toList

/-- A backlight is recorded, once it is lit if it was dark. -/
def recordBacklight (name : Bytes) (maxB curB : ℤ) : Cmd Unit :=
  if curB ≤ maxB.tdiv 20 then do
    let safeB := if maxB.tdiv 3 = 0 then 1 else maxB.tdiv 3
    writeBrightness name safeB
    setCore fun c => { c with backlights := c.backlights ++ [⟨name, curB, safeB, true⟩] }
  else
    setCore fun c => { c with backlights := c.backlights ++ [⟨name, curB, curB, true⟩] }

/-- One entry of the directory; a path that was cut names no file, and cannot be read. -/
def forceBacklightEntry (name : Bytes) : Cmd Unit := do
  let num ← Prog.read fun s => s.core.backlights.length
  if name.head? = some 46 ∨ maxBacklights ≤ num ∨ 256 ≤ (brightnessPath name).length then pure ()
  else
    checked (0 < ·) (pure ()) fun _ => do
      let maxB ← ask
      checked (0 < ·) (pure ()) fun _ => do
        let curB ← readBrightness name
        recordBacklight name maxB curB

/-- `force_backlight`. -/
def forceBacklight (e : Env) : Cmd Unit :=
  checked (0 ≤ ·) (pure ()) fun _ => Prog.forEach forceBacklightEntry e.listing

/-- `maintain_backlight` for one backlight; the write may fail. -/
def maintainOne (b : Backlight) : Cmd Unit :=
  if b.hasEnforced then
    checked (0 < ·) (pure ()) fun _ => do
      let curB ← readBrightness b.name
      if curB ≠ b.enforcedBrightness then
        checked (0 ≤ ·) (pure ()) fun _ => writeBrightness b.name b.enforcedBrightness
      else pure ()
  else pure ()

/-- `maintain_backlight`. -/
def maintainBacklight : Cmd Unit := do
  let backlights ← Prog.read fun s => s.core.backlights
  Prog.forEach maintainOne backlights

/-- `restore_backlight`. -/
def restoreBacklight : Cmd Unit := do
  let backlights ← Prog.read fun s => s.core.backlights
  Prog.forEach (fun b => writeBrightness b.name b.savedBrightness) backlights

/-! ### The virtual terminal -/

/-- The rest of `steal_vt`, once the terminal in front is known: a free terminal is looked
for and brought to the front.  When the switch is refused both terminals are closed, but
the journal keeps the descriptors. -/
def switchToRescue : Cmd ℤ := do
  let query ← ask
  let free ← ask
  setJournal fun j => { j with rescueVt := if query < 0 then 12 else free }
  let fd ← ask
  setJournal fun j => { j with rescueTtyFd := fd }
  let activated ← vtActivate Journal.rescueVt
  if activated < 0 then do
    call
    call
    pure (-1)
  else do
    call
    call
    call
    pure 0

/-- `steal_vt`.  A terminal that cannot tell which one is in front is closed, but the journal
keeps its descriptor.  The kernel counts terminals from one. -/
def stealVt (e : Env) : Cmd ℤ := do
  setJournal fun j => { j with ttyFd := e.ttyOpen }
  if e.ttyOpen < 0 then pure (-1)
  else do
    let state ← ask
    if state < 0 then do
      call
      pure (-1)
    else do
      let active ← ask
      setJournal fun j => { j with originalVt := active.toNat + 1 }
      switchToRescue

/-- The first part of `restore_vt`: the rescue terminal becomes a text terminal again. -/
def releaseRescueTty : Cmd Unit := do
  let fd ← Prog.read fun s => s.core.journal.rescueTtyFd
  if 0 ≤ fd then do
    call
    call
    call
    call
    call
    setJournal fun j => { j with rescueTtyFd := -1 }
  else pure ()

/-- The second part of `restore_vt`: the original terminal comes to the front, and the machine
is put back. -/
def releaseTty : Cmd Unit := do
  let fd ← Prog.read fun s => s.core.journal.ttyFd
  if 0 ≤ fd then do
    klogctl 7
    let _ ← vtActivate Journal.originalVt
    call
    restoreBacklight
    restoreSysrq
    call
    setJournal fun j => { j with ttyFd := -1 }
  else pure ()

/-- `restore_vt`; only the first call does anything. -/
def restoreVt : Cmd Unit := do
  let restored ← Prog.step fun s => (s.core.vtRestored, { s with core.vtRestored := true })
  if restored then pure ()
  else do
    releaseRescueTty
    releaseTty

/-- The switch back of `emergency_restore`. -/
def emergencySwitch : Cmd Unit := do
  let j ← Prog.read fun s => s.core.journal
  if (0 ≤ j.ttyFd ∨ 0 ≤ j.rescueTtyFd) ∧ 0 < j.originalVt then do
    let _ ← vtActivate Journal.originalVt
  else pure ()

/-- The character `emergency_restore` writes for a setting: one digit. -/
def sysrqDigit (saved : ℤ) : UInt8 := 48 + UInt8.ofNat (saved % 10).toNat

/-- `emergency_restore`, up to `_exit`. -/
def emergencyRestore : Cmd Unit := do
  call
  call
  emergencySwitch
  let saved ← Prog.read fun s => s.core.savedSysrq
  if 0 ≤ saved then
    setCore fun c => { c with kernel.sysrq := intOfText [sysrqDigit c.savedSysrq] }
  else pure ()

/-! ### The graphics card -/

/-- `close(journal.drm_fd)`, with the field reset. -/
def closeDrm : Cmd Unit := do
  call
  setDrm fun d => { d with drmFd := -1 }

/-- The first controller of the card, for a connector without one of its own. -/
def firstCrtc (countCrtcs : ℤ) : Cmd Bool :=
  if countCrtcs > 0 then do
    let first ← ask
    setDrm fun d => { d with crtcId := first }
    pure true
  else pure false

/-- The controller of a connector: the one of its encoder, or the first of the card. -/
def pickCrtc (countCrtcs : ℤ) : Cmd Bool :=
  checked (· ≠ 0) (firstCrtc countCrtcs) fun _ =>
    checked (· = 0) (firstCrtc countCrtcs) fun _ =>
      checked (· ≠ 0) (firstCrtc countCrtcs) fun crtc => do
        setDrm fun d => { d with crtcId := crtc }
        pure true

/-- One connector: it must be connected and have a mode. -/
def tryConnector (countCrtcs : ℤ) : Cmd Bool :=
  checked (0 ≤ ·) (pure false) fun _ =>
    checked (· = 1) (pure false) fun _ =>
      checked (0 < ·) (pure false) fun _ =>
        checked (· ≠ 0) (pure false) fun _ =>
          checked (· = 0) (pure false) fun _ => pickCrtc countCrtcs

/-- The search through the connectors of a card. -/
def findConnector (countCrtcs : ℤ) : ℕ → Cmd Bool
  | 0 => pure false
  | n + 1 => do
      let found ← tryConnector countCrtcs
      if found then pure true else findConnector countCrtcs n

/-- A card that will not do is closed. -/
def dropCard : Cmd Bool := do
  closeDrm
  pure false

/-- A card whose resources are known is kept if it has a connector. -/
def selectCard (countConnectors countCrtcs : ℤ) : Cmd Bool := do
  let found ← findConnector countCrtcs countConnectors.toNat
  if found then do
    call
    pure true
  else dropCard

/-- One card: it must open, offer dumb buffers and list its resources twice, with memory for
the lists in between. -/
def tryCard : Cmd Bool := do
  let fd ← ask
  setDrm fun d => { d with drmFd := fd }
  if fd < 0 then pure false
  else
    checked (0 ≤ ·) dropCard fun _ =>
      checked (· ≠ 0) dropCard fun _ =>
        checked (0 ≤ ·) dropCard fun _ =>
          checked (· ≠ 0) dropCard fun countConnectors =>
            checked (· ≠ 0) dropCard fun _ =>
              checked (0 ≤ ·) dropCard fun _ => do
                let countCrtcs ← ask
                selectCard countConnectors countCrtcs

/-- The search through the cards. -/
def findCard : ℕ → Cmd Bool
  | 0 => pure false
  | n + 1 => do
      let found ← tryCard
      if found then pure true else findCard n

/-- A call made only under a condition. -/
def callIf (b : Bool) : Cmd Unit := if b then call else pure ()

/-- What the buffer of index `i` holds is given back. -/
def releaseBuffer (i : ℕ) : Cmd Unit := do
  let d ← Prog.read fun s => s.drm
  callIf (d.buffer i ≠ 0 ∧ d.buffer i ≠ -1)
  callIf (d.fbId i ≠ 0)
  callIf (d.handle i ≠ 0)
  setDrm fun d => { d with
    buffer := Function.update d.buffer i 0
    fbId := Function.update d.fbId i 0
    handle := Function.update d.handle i 0 }

/-- `cleanup_drm`: an open card is put back and closed, and then the display is given
back. -/
def cleanupDrm : Cmd Unit := do
  let d ← Prog.read fun s => s.drm
  if d.drmFd < 0 then pure ()
  else do
    callIf (d.savedCrtc ≠ 0)
    call
    releaseBuffer 0
    releaseBuffer 1
    closeDrm
    restoreVt

/-- What a buffer that could not be set up leads to: without the second one there is single
buffering, without the first one the card is given up.  What was not obtained is still
zero. -/
def bufferFailed (i : ℕ) : Cmd Bool :=
  if i = 1 then do
    let d ← Prog.read fun s => s.drm
    callIf (d.fbId 1 ≠ 0)
    callIf (d.handle 1 ≠ 0)
    setDrm fun d => { d with
      fbId := Function.update d.fbId 1 0
      handle := Function.update d.handle 1 0
      doubleBuffered := false }
    pure true
  else do
    cleanupDrm
    pure false

/-- The buffer of index `i`: created, made a framebuffer and mapped. -/
def setupBuffer (i : ℕ) : Cmd Bool :=
  checked (0 ≤ ·) (bufferFailed i) fun _ => do
    let handle ← ask
    setDrm fun d => { d with handle := Function.update d.handle i handle }
    checked (0 ≤ ·) (bufferFailed i) fun _ => do
      let fb ← ask
      setDrm fun d => { d with fbId := Function.update d.fbId i fb }
      checked (0 ≤ ·) (bufferFailed i) fun _ => do
        let address ← ask
        setDrm fun d => { d with buffer := Function.update d.buffer i address }
        if address = -1 then bufferFailed i else pure true

/-- The end of `init_drm`: the state of the controller is saved, and the first buffer
shown. -/
def showFirst : Cmd ℤ := do
  setDrm fun d => { d with savedCrtc := d.crtcId }
  call
  let shown ← ask
  if shown < 0 then do
    cleanupDrm
    pure (-1)
  else pure 0

/-- `init_drm`. -/
def initDrm (e : Env) : Cmd ℤ := do
  let stolen ← stealVt e
  if stolen < 0 then pure (-1)
  else do
    let found ← findCard 16
    if found then do
      setDrm fun d => { d with doubleBuffered := true }
      let first ← setupBuffer 0
      if first then do
        let second ← setupBuffer 1
        if second then showFirst else pure (-1)
      else pure (-1)
    else do
      restoreVt
      pure (-1)

/-! ### The main loop and the end -/

/-- What an event of the main loop does to the machine: the backlight is looked after, or
another session is chosen to go back to. -/
def performEvent : Event → Cmd Unit
  | .maintainBacklight => maintainBacklight
  | .switchTo vt => setJournal fun j => { j with originalVt := vt }
  | _ => pure ()

/-- The main loop, over the terminal taken; it returns the state of the interface. -/
def uiLoop (e : Env) : Cmd Gui := do
  let s ← Prog.read id
  let c := { e.cfg with rescueVt := s.core.journal.rescueVt }
  let g := Gui.runFrames c e.frames
    (Gui.start c ⟨s.core.journal.originalVt, s.drm.doubleBuffered, e.ptyOpen⟩)
  Prog.forEach performEvent g.log
  pure g

/-- How `main` ends: it returns, and then the handlers of `atexit` run, or it calls
`_exit`. -/
inductive Exit where
  | returned
  | exited
deriving DecidableEq

/-- `main` from `disable_sysrq` on, once the handlers are installed. -/
def mainArmed (e : Env) : Cmd Exit := do
  forceBacklight e
  let drm ← initDrm e
  if drm < 0 then pure .returned
  else do
    let rawfb ← ask
    if rawfb = 0 then pure .returned
    else do
      let g ← uiLoop e
      cleanupDrm
      if g.run.runCommandReady && cstr g.run.runCmd != [] then pure .exited else pure .returned

/-- What remains of the process once SysRq is disabled: `main`, and the handler registered
with `atexit`. -/
def armed (e : Env) : Cmd Unit := do
  let how ← mainArmed e
  if how = .returned then restoreVt else pure ()

/-- The process up to the point where SysRq is disabled, from `klogctl(6)` on. -/
def arm (e : Env) : Cmd Unit := do
  klogctl 6
  disableSysrq e

/-- The process, from `klogctl(6)` on. -/
def process (e : Env) : Cmd Unit := do
  arm e
  armed e

/-- The state in which the process begins. -/
def boot (sysrq : Int32) (brightness : Bytes → Int32) (answers : ℕ → ℤ) : Sys :=
  { core := { kernel := { sysrq := sysrq, brightness := brightness } }, answers := answers }

/-- The states in which a handled signal may arrive while a program runs: those it passes
through, its end, and those of a handler that is already running. -/
inductive SignalPoint (m : Cmd Unit) (s : Sys) : Sys → Prop
  | during {t : Sys} : t ∈ m.visited s → SignalPoint m s t
  | atEnd : SignalPoint m s (m.final s)
  | nested {t u : Sys} : SignalPoint m s t → u ∈ emergencyRestore.visited t → SignalPoint m s u

/-! ### A machine to try the process on -/

/-- A laptop with one backlight; the user leaves with Escape. -/
def laptop : Env :=
  { sysrqReads := true
    listing := [chars ['i', 'n', 't', 'e', 'l']]
    ttyOpen := 3
    cfg := Gui.desktop
    frames := [{ keys := [Gui.press keyEsc] }]
    ptyOpen := true
    nodup_listing := by decide }

/-- The answers of its kernel: every call succeeds, the terminal in front is `7` and the
free one `8`. -/
def laptopAnswers (n : ℕ) : ℤ :=
  ([1, 1, 100, 1, 0, 6, 0, 8, 4, 0, 0, 0, 0, 5, 0, 1, 0, 1, 1, 0, 1, 0, 1, 1, 1, 0, 1, 0, 1, 0, 0, 1,
    0, 1, 0, 1, 0, 1, 0, 1, 0, 1, 0, 0, 1][n]?).getD 0

/-- The laptop, with a SysRq setting and all backlights at `50`. -/
def laptopBoot (sysrq : Int32) : Sys := boot sysrq (fun _ => 50) laptopAnswers

end Vt

end LnxCad
