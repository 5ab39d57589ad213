import LnxCad.Lib.Annotate
import LnxCad.Lib.Custody
import LnxCad.Vt.Program

/-!
# The display, call by call

Taking the display and giving it back, with a record of what is opened, created, mapped,
used and given up on the way.  Without the record these are the programs that take the
display and give it back.

The record also has `drm.size`, the length of the mappings: one variable for both buffers,
written whenever a buffer is created.
-/

namespace LnxCad

namespace Vt

open Prog

/-! ### The record -/

/-- The fields of `recovery_journal_t` for the display. -/
inductive Fd where
  | tty
  | rescueTty
  | drm
deriving DecidableEq

/-- The descriptor in a field. -/
def Fd.value (s : Sys) : Fd → ℤ
  | tty => s.core.journal.ttyFd
  | rescueTty => s.core.journal.rescueTtyFd
  | drm => s.drm.drmFd

/-- What the program gets from the kernel: a descriptor, through one of the fields, a dumb
buffer, a framebuffer or a mapping. -/
inductive Resource where
  | descriptor (field : Fd) (fd : ℤ)
  | dumb (handle : ℤ)
  | framebuffer (id : ℤ)
  | mapping (address length : ℤ)
deriving DecidableEq

/-- The record: `drm.size`, and the calls that concern a resource. -/
structure Record where
  size : ℤ := 0
  log : List (Deal Resource) := []

namespace Traced

/-- A program with its record. -/
abbrev Cmd := Prog (Sys × Record)

/-! ### Steps -/

/-- Calls are written down. -/
def enter (deals : Sys × Record → List (Deal Resource)) : Cmd Unit :=
  note fun t => { t.2 with log := t.2.log ++ deals t }

/-- Calls are written down, and a field is written with what they leave. -/
def commit (deals : Sys × Record → List (Deal Resource)) (m : Vt.Cmd Unit) : Cmd Unit := do
  enter deals
  lift m

/-- The outcome of an `open`, for a field; a descriptor is not negative. -/
def opened (f : Fd) (fd : ℤ) (write : Vt.Cmd Unit) : Cmd Unit :=
  commit (fun _ => if 0 ≤ fd then [.acquire (.descriptor f fd)] else []) write

/-- `close` of the descriptor in a field. -/
def close (f : Fd) : Cmd Unit := do
  lift call
  enter fun t => [.release (.descriptor f (f.value t.1))]

/-- `close` of the descriptor in a field, and the field is reset. -/
def closeReset (f : Fd) (reset : Vt.Cmd Unit) : Cmd Unit := do
  lift call
  commit (fun t => [.release (.descriptor f (f.value t.1))]) reset

/-- `close` of the descriptor in a field that has one. -/
def closeIfOpen (f : Fd) : Cmd Unit := do
  lift call
  enter fun t => if 0 ≤ f.value t.1 then [.release (.descriptor f (f.value t.1))] else []

/-- A call that uses the descriptor in a field. -/
def ioctl (f : Fd) : Cmd ℤ := do
  enter fun t => [.use (.descriptor f (f.value t.1))]
  lift ask

/-- Such a call whose outcome nothing depends on. -/
def act (f : Fd) : Cmd Unit := do
  enter fun t => [.use (.descriptor f (f.value t.1))]
  lift call

/-- Such a call, made only if the field has a descriptor. -/
def actIfOpen (f : Fd) : Cmd Unit := do
  enter fun t => if 0 ≤ f.value t.1 then [.use (.descriptor f (f.value t.1))] else []
  lift call

/-- Such a call, made only under a condition. -/
def actIf (f : Fd) (b : Bool) : Cmd Unit := if b then act f else pure ()

/-- A call that must answer well for the program to go on. -/
def checked {α : Type} (m : Cmd ℤ) (good : ℤ → Bool) (otherwise : Cmd α) (next : ℤ → Cmd α) :
    Cmd α := do
  let r ← m
  if good r then next r else otherwise

/-! ### The virtual terminal -/

/-- The rest of `steal_vt`, once the terminal in front is known. -/
def switchToRescue : Cmd ℤ := do
  let query ← ioctl .tty
  let free ← lift ask
  lift (setJournal fun j => { j with rescueVt := if query < 0 then 12 else free })
  let fd ← lift ask
  opened .rescueTty fd (setJournal fun j => { j with rescueTtyFd := fd })
  enter fun t => [.use (.descriptor .tty (Fd.tty.value t.1))]
  let activated ← lift (vtActivate Journal.rescueVt)
  if activated < 0 then do
    closeIfOpen .rescueTty
    closeIfOpen .tty
    pure (-1)
  else do
    act .tty
    actIfOpen .rescueTty
    actIfOpen .rescueTty
    pure 0

/-- `steal_vt`. -/
def stealVt (e : Env) : Cmd ℤ := do
  opened .tty e.ttyOpen (setJournal fun j => { j with ttyFd := e.ttyOpen })
  if e.ttyOpen < 0 then pure (-1)
  else do
    let state ← ioctl .tty
    if state < 0 then do
      close .tty
      pure (-1)
    else do
      let active ← lift ask
      lift (setJournal fun j => { j with originalVt := active.toNat + 1 })
      switchToRescue

/-- The attributes of the rescue terminal are read with `tcgetattr` and, if that went well,
set with `tcsetattr`. -/
def resetAttributes : Cmd Unit := do
  let got ← ioctl .rescueTty
  enter fun t => if got = 0 then [.use (.descriptor .rescueTty (Fd.rescueTty.value t.1))] else []

/-- The first part of `restore_vt`. -/
def releaseRescueTty : Cmd Unit := do
  let fd ← lift (Prog.read fun s => s.core.journal.rescueTtyFd)
  if 0 ≤ fd then do
    act .rescueTty
    act .rescueTty
    resetAttributes
    act .rescueTty
    closeReset .rescueTty (setJournal fun j => { j with rescueTtyFd := -1 })
  else pure ()

/-- The second part of `restore_vt`. -/
def releaseTty : Cmd Unit := do
  let fd ← lift (Prog.read fun s => s.core.journal.ttyFd)
  if 0 ≤ fd then do
    lift (klogctl 7)
    enter fun t => [.use (.descriptor .tty (Fd.tty.value t.1))]
    let _ ← lift (vtActivate Journal.originalVt)
    act .tty
    lift restoreBacklight
    lift restoreSysrq
    closeReset .tty (setJournal fun j => { j with ttyFd := -1 })
  else pure ()

/-- `restore_vt`. -/
def restoreVt : Cmd Unit := do
  let restored ←
    lift (Prog.step fun s => (s.core.vtRestored, { s with core.vtRestored := true }))
  if restored then pure ()
  else do
    releaseRescueTty
    releaseTty

/-! ### The search for a card -/

/-- `close(journal.drm_fd)`, with the field reset. -/
def closeDrm : Cmd Unit := closeReset .drm (setDrm fun d => { d with drmFd := -1 })

/-- The controller of a connector; its encoder is asked for it. -/
def pickCrtc (countCrtcs : ℤ) : Cmd Bool :=
  checked (lift ask) (· ≠ 0) (lift (firstCrtc countCrtcs)) fun _ =>
    checked (ioctl .drm) (· = 0) (lift (firstCrtc countCrtcs)) fun _ =>
      checked (lift ask) (· ≠ 0) (lift (firstCrtc countCrtcs)) fun crtc => do
        lift (setDrm fun d => { d with crtcId := crtc })
        pure true

/-- One connector, asked twice. -/
def tryConnector (countCrtcs : ℤ) : Cmd Bool :=
  checked (ioctl .drm) (0 ≤ ·) (pure false) fun _ =>
    checked (lift ask) (· = 1) (pure false) fun _ =>
      checked (lift ask) (0 < ·) (pure false) fun _ =>
        checked (lift ask) (· ≠ 0) (pure false) fun _ =>
          checked (ioctl .drm) (· = 0) (pure false) fun _ => pickCrtc countCrtcs

/-- The search through the connectors of a card. -/
def findConnector (countCrtcs : ℤ) : ℕ → Cmd Bool
  | 0 => pure false
  | n + 1 => do
      let found ← tryConnector countCrtcs
      if found then pure true else findConnector countCrtcs n

/-- A card that will not do is closed. -/
def dropCard : Cmd Bool := do
  closeDrm
  pure false

/-- A card whose resources are known is kept if it has a connector. -/
def selectCard (countConnectors countCrtcs : ℤ) : Cmd Bool := do
  let found ← findConnector countCrtcs countConnectors.toNat
  if found then do
    act .drm
    pure true
  else dropCard

/-- One card. -/
def tryCard : Cmd Bool := do
  let fd ← lift ask
  opened .drm fd (setDrm fun d => { d with drmFd := fd })
  if fd < 0 then pure false
  else
    checked (ioctl .drm) (0 ≤ ·) dropCard fun _ =>
      checked (lift ask) (· ≠ 0) dropCard fun _ =>
        checked (ioctl .drm) (0 ≤ ·) dropCard fun _ =>
          checked (lift ask) (· ≠ 0) dropCard fun countConnectors =>
            checked (lift ask) (· ≠ 0) dropCard fun _ =>
              checked (ioctl .drm) (0 ≤ ·) dropCard fun _ => do
                let countCrtcs ← lift ask
                selectCard countConnectors countCrtcs

/-- The search through the cards. -/
def findCard : ℕ → Cmd Bool
  | 0 => pure false
  | n + 1 => do
      let found ← tryCard
      if found then pure true else findCard n

/-! ### The buffers -/

/-- `munmap` of a buffer, with the field reset. -/
def unmap (i : Fin 2) : Cmd Unit := do
  let d ← lift (Prog.read fun s => s.drm)
  lift (callIf (d.buffer i ≠ 0 ∧ d.buffer i ≠ -1))
  commit
    (fun t => if d.buffer i ≠ 0 ∧ d.buffer i ≠ -1 then
      [.release (.mapping (d.buffer i) t.2.size)] else [])
    (setDrm fun d => { d with buffer := Function.update d.buffer i 0 })

/-- `DRM_IOCTL_MODE_RMFB`, with the field reset. -/
def rmFb (i : Fin 2) : Cmd Unit := do
  let d ← lift (Prog.read fun s => s.drm)
  actIf .drm (d.fbId i ≠ 0)
  commit (fun _ => if d.fbId i ≠ 0 then [.release (.framebuffer (d.fbId i))] else [])
    (setDrm fun d => { d with fbId := Function.update d.fbId i 0 })

/-- `DRM_IOCTL_MODE_DESTROY_DUMB`, with the field reset. -/
def destroyDumb (i : Fin 2) : Cmd Unit := do
  let d ← lift (Prog.read fun s => s.drm)
  actIf .drm (d.handle i ≠ 0)
  commit (fun _ => if d.handle i ≠ 0 then [.release (.dumb (d.handle i))] else [])
    (setDrm fun d => { d with handle := Function.update d.handle i 0 })

/-- What the buffer of index `i` holds is given back. -/
def releaseBuffer (i : Fin 2) : Cmd Unit := do
  unmap i
  rmFb i
  destroyDumb i

/-- `cleanup_drm`. -/
def cleanupDrm : Cmd Unit := do
  let d ← lift (Prog.read fun s => s.drm)
  if d.drmFd < 0 then pure ()
  else do
    actIf .drm (d.savedCrtc ≠ 0)
    act .drm
    releaseBuffer 0
    releaseBuffer 1
    closeDrm
    restoreVt

/-- What a buffer that could not be set up leads to. -/
def bufferFailed (i : Fin 2) : Cmd Bool :=
  if i = 1 then do
    rmFb 1
    destroyDumb 1
    lift (setDrm fun d => { d with doubleBuffered := false })
    pure true
  else do
    cleanupDrm
    pure false

/-- The buffer of index `i`: created, made a framebuffer and mapped; `sizes` has the sizes of
the dumb buffers. -/
def setupBuffer (sizes : Fin 2 → ℤ) (i : Fin 2) : Cmd Bool :=
  checked (ioctl .drm) (0 ≤ ·) (bufferFailed i) fun _ => do
    let handle ← lift ask
    note fun t => { t.2 with size := sizes i }
    commit (fun _ => [.acquire (.dumb handle)])
      (setDrm fun d => { d with handle := Function.update d.handle i handle })
    checked (ioctl .drm) (0 ≤ ·) (bufferFailed i) fun _ => do
      let fb ← lift ask
      commit (fun _ => [.acquire (.framebuffer fb)])
        (setDrm fun d => { d with fbId := Function.update d.fbId i fb })
      checked (ioctl .drm) (0 ≤ ·) (bufferFailed i) fun _ => do
        let address ← ioctl .drm
        commit (fun t => if address ≠ -1 then [.acquire (.mapping address t.2.size)] else [])
          (setDrm fun d => { d with buffer := Function.update d.buffer i address })
        if address = -1 then bufferFailed i else pure true

/-- The end of `init_drm`. -/
def showFirst : Cmd ℤ := do
  lift (setDrm fun d => { d with savedCrtc := d.crtcId })
  act .drm
  let shown ← ioctl .drm
  if shown < 0 then do
    cleanupDrm
    pure (-1)
  else pure 0

/-- The rest of `init_drm`, once the terminal is taken. -/
def takeCard (sizes : Fin 2 → ℤ) : Cmd ℤ := do
  let found ← findCard 16
  if found then do
    lift (setDrm fun d => { d with doubleBuffered := true })
    let first ← setupBuffer sizes 0
    if first then do
      let second ← setupBuffer sizes 1
      if second then showFirst else pure (-1)
    else pure (-1)
  else do
    restoreVt
    pure (-1)

/-- `init_drm`. -/
def initDrm (e : Env) (sizes : Fin 2 → ℤ) : Cmd ℤ := do
  let stolen ← stealVt e
  if stolen < 0 then pure (-1) else takeCard sizes

/-! ### The process -/

/-- `main` once `init_drm` has returned. -/
def afterInit (e : Env) (drm : ℤ) : Cmd Exit :=
  if drm < 0 then pure .returned
  else do
    let rawfb ← lift ask
    if rawfb = 0 then pure .returned
    else do
      let g ← lift (uiLoop e)
      cleanupDrm
      if g.run.runCommandReady && cstr g.run.runCmd != [] then pure .exited else pure .returned

/-- `main` from `disable_sysrq` on. -/
def mainArmed (e : Env) (sizes : Fin 2 → ℤ) : Cmd Exit := do
  lift (forceBacklight e)
  let drm ← initDrm e sizes
  afterInit e drm

/-- The handler registered with `atexit`. -/
def atExit (how : Exit) : Cmd Unit := if how = .returned then restoreVt else pure ()

/-- `main`, and the handler registered with `atexit`. -/
def armed (e : Env) (sizes : Fin 2 → ℤ) : Cmd Unit := do
  let how ← mainArmed e sizes
  atExit how

/-- The process. -/
def process (e : Env) (sizes : Fin 2 → ℤ) : Cmd Unit := do
  lift (arm e)
  armed e sizes

end Traced

end Vt

end LnxCad
