import LnxCad.Lib.Interrupt
import LnxCad.Text

/-!
# The machine behind the display

What the rescue program changes outside its own memory and has to put back: the SysRq
setting, the brightness of the backlights, the messages of the kernel on the console, and
the virtual terminal in front.  The program's own record of these is its journal and a few
global variables.

Everything the kernel answers to a call that may fail comes from one sequence of answers,
consumed in order; a call that returns data takes one answer for each value.
-/

namespace LnxCad

namespace Vt

/-! ### State -/

/-- The state of the kernel, as far as the program changes it.  `activations` collects the
requests of `VT_ACTIVATE` with whether they were accepted, and `consoleLog` says whether
kernel messages go to the console. -/
structure Kernel where
  sysrq : Int32
  brightness : Bytes → Int32
  consoleLog : Bool := true
  activations : List (ℤ × Bool) := []

/-- The descriptors and terminals of `recovery_journal_t`. -/
structure Journal where
  originalVt : ℤ := -1
  rescueVt : ℤ := -1
  ttyFd : ℤ := -1
  rescueTtyFd : ℤ := -1

/-- `backlight_saved_state`; a backlight is known by the name of its directory. -/
structure Backlight where
  name : Bytes
  savedBrightness : ℤ
  enforcedBrightness : ℤ
  hasEnforced : Bool

/-- What the restoration of the machine depends on. -/
structure Core where
  kernel : Kernel
  journal : Journal := {}
  vtRestored : Bool := false
  savedSysrq : ℤ := -1
  backlights : List Backlight := []

/-- The state of the graphics card, with `journal.drm_fd`. -/
structure Drm where
  drmFd : ℤ := -1
  crtcId : ℤ := 0
  savedCrtc : ℤ := 0
  handle : ℕ → ℤ := fun _ => 0
  fbId : ℕ → ℤ := fun _ => 0
  buffer : ℕ → ℤ := fun _ => 0
  doubleBuffered : Bool := false

/-- The state of the program and the kernel, and the answers still to come. -/
structure Sys where
  core : Core
  drm : Drm := {}
  answers : ℕ → ℤ
  asked : ℕ := 0

/-- A program of the machine. -/
abbrev Cmd := Prog Sys

/-! ### Steps -/

/-- A call whose outcome is the next answer. -/
def ask : Cmd ℤ := Prog.step fun s => (s.answers s.asked, { s with asked := s.asked + 1 })

/-- A call whose outcome nothing depends on. -/
def call : Cmd Unit := do
  let _ ← ask

/-- A call that must answer well for the program to go on. -/
def checked {α : Type} (good : ℤ → Bool) (otherwise : Cmd α) (next : ℤ → Cmd α) : Cmd α := do
  let r ← ask
  if good r then next r else otherwise

/-- A change of the graphics card's record. -/
def setDrm (f : Drm → Drm) : Cmd Unit := Prog.modify fun s => { s with drm := f s.drm }

/-- A change of the rest. -/
def setCore (f : Core → Core) : Cmd Unit := Prog.modify fun s => { s with core := f s.core }

/-- A field of the journal is written. -/
def setJournal (f : Journal → Journal) : Cmd Unit :=
  setCore fun c => { c with journal := f c.journal }

/-- `klogctl(7)` switches kernel messages on the console on, `klogctl(6)` off. -/
def klogctl (type : ℕ) : Cmd Unit :=
  setCore fun c => { c with kernel.consoleLog := if type = 7 then true else if type = 6 then false
    else c.kernel.consoleLog }

/-- `ioctl(VT_ACTIVATE)`: the request is made for the terminal a field of the journal names,
and accepted or not. -/
def vtActivate (vt : Journal → ℤ) : Cmd ℤ :=
  Prog.step fun s =>
    (s.answers s.asked,
      { s with
        core.kernel.activations :=
          s.core.kernel.activations ++ [(vt s.core.journal, decide (0 ≤ s.answers s.asked))]
        asked := s.asked + 1 })

/-! ### Files that hold a number -/

/-- What a read of such a file returns. -/
def intText (v : Int32) : Bytes := intToStr v.toInt ++ [10]

/-- What a write of a text makes of such a file: the number it begins with. -/
def intOfText (text : Bytes) : Int32 := Int32.ofInt (strToInt text)

/-- `write_int_to_file` on `/proc/sys/kernel/sysrq`. -/
def writeSysrq (v : ℤ) : Cmd Unit :=
  setCore fun c => { c with kernel.sysrq := intOfText (intToStr v ++ [10]) }

/-- `write_int_to_file` on the brightness of a backlight. -/
def writeBrightness (name : Bytes) (v : ℤ) : Cmd Unit :=
  setCore fun c => { c with
    kernel.brightness := Function.update c.kernel.brightness name (intOfText (intToStr v ++ [10])) }

/-- `read_int_from_file` on the brightness of a backlight, when it can be opened. -/
def readBrightness (name : Bytes) : Cmd ℤ :=
  Prog.read fun s => strToInt (intText (s.core.kernel.brightness name))

end Vt

end LnxCad
