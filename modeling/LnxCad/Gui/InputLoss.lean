import LnxCad.Gui.Touches
import LnxCad.Lib.Ledger

/-!
# Input between the devices and the loop

Both devices are read by a loop that tests its limit behind the read.  What a frame reads
from a device, what it handles and what it leaves pending is one round of a ledger; a run
loses input exactly if some frame finds more than the limit.
-/

namespace LnxCad

namespace Event

/-- The keyboard event read. -/
def kbdRead? : Event → Option InputEvent
  | .kbdRead ev => some ev
  | _ => none

/-- The keyboard event dispatched. -/
def kbdDispatch? : Event → Option InputEvent
  | .kbdDispatch ev => some ev
  | _ => none

/-- The mouse bytes read. -/
def mouseRead? : Event → Option Bytes
  | .mouseRead bytes => some bytes
  | _ => none

/-- The mouse byte fed to the accumulator. -/
def mouseFeed? : Event → Option UInt8
  | .mouseFeed byte => some byte
  | _ => none

theorem device_of_aspect {e : Event} (h : e.aspect ≠ .dev) :
  e.kbdRead? = none ∧ e.kbdDispatch? = none ∧ e.mouseRead? = none ∧ e.mouseFeed? = none
  := by
  cases e with
  | kbdRead ev => exact absurd rfl h
  | kbdDispatch ev => exact absurd rfl h
  | mouseRead bytes => exact absurd rfl h
  | mouseFeed byte => exact absurd rfl h
  | _ => exact ⟨rfl, rfl, rfl, rfl⟩

end Event

/-- The events read from the keyboard. -/
def kbdReads (log : List Event) : List InputEvent := log.filterMap Event.kbdRead?

/-- The events dispatched by the keyboard loop. -/
def kbdDispatched (log : List Event) : List InputEvent := log.filterMap Event.kbdDispatch?

/-- The bytes read from the mouse. -/
def mouseReads (log : List Event) : Bytes := (log.filterMap Event.mouseRead?).flatten

/-- The bytes fed to the accumulator. -/
def mouseFed (log : List Event) : Bytes := log.filterMap Event.mouseFeed?

namespace Gui

variable {c : Cfg} {i : FrameIn} {g g' : Gui}

/-- The ledger of the keyboard. -/
def kbdLedger (g : Gui) : Ledger InputEvent InputEvent :=
  ⟨kbdReads g.log, kbdDispatched g.log, g.dev.kbd⟩

/-- The ledger of the mouse. -/
def mouseLedger (g : Gui) : Ledger MouseChunk UInt8 :=
  ⟨mouseReads g.log, mouseFed g.log, g.dev.mouse⟩

/-! ### One frame -/

theorem ledgers_of_touches {as : List Aspect} (h : Touches as g g') (has : .dev ∉ as) :
  g'.kbdLedger = g.kbdLedger ∧ g'.mouseLedger = g.mouseLedger
  := by
  have hdev : g'.dev = g.dev := h.same .dev has
  have hnone : ∀ e : Event, e.aspect ∈ as → e.aspect ≠ .dev := by
    intro e he heq
    apply has (heq ▸ he)
  have hreads := h.emits.filterMap_eq fun e he => (Event.device_of_aspect (hnone e he)).1
  have hdispatched := h.emits.filterMap_eq fun e he => (Event.device_of_aspect (hnone e he)).2.1
  have hmouse := h.emits.filterMap_eq fun e he => (Event.device_of_aspect (hnone e he)).2.2.1
  have hfed := h.emits.filterMap_eq fun e he => (Event.device_of_aspect (hnone e he)).2.2.2
  simp only [kbdLedger, mouseLedger, kbdReads, kbdDispatched, mouseReads, mouseFed, hdev, hreads,
    hdispatched, hmouse, hfed, and_self]

theorem kbdLoop_ledgers (pending : List InputEvent) {kbdLimit : ℕ} (h : kbdLimit ≤ 64) (g : Gui) :
  (kbdLoop c pending kbdLimit g).kbdLedger
      = ⟨kbdReads g.log ++ pending.take (64 - kbdLimit + 1),
        kbdDispatched g.log ++ pending.take (64 - kbdLimit), pending.drop (64 - kbdLimit + 1)⟩
    ∧ (kbdLoop c pending kbdLimit g).mouseLedger = g.mouseLedger
  := by
  induction pending generalizing kbdLimit g with
  | nil => simp [kbdLoop, kbdLedger, mouseLedger]
  | cons ev rest ih =>
      unfold kbdLoop
      dsimp only
      split
      case isTrue hlt =>
        have hkey := ledgers_of_touches
          (keyEvent_touches c ((g.emit (.kbdRead ev)).emit (.kbdDispatch ev)) ev)
          (by simp [keyAspects])
        obtain ⟨hkbd, hmouse⟩ := ih (show kbdLimit + 1 ≤ 64 by omega)
          (keyEvent c ev ((g.emit (.kbdRead ev)).emit (.kbdDispatch ev)))
        generalize keyEvent c ev ((g.emit (.kbdRead ev)).emit (.kbdDispatch ev)) = g' at *
        have hsub : 64 - kbdLimit = 64 - (kbdLimit + 1) + 1 := by omega
        simp only [kbdLedger, Ledger.mk.injEq] at hkey
        obtain ⟨⟨hreads, hdispatched, -⟩, hmouse'⟩ := hkey
        rw [hkbd, hmouse, hmouse', hreads, hdispatched, hsub]
        simp [kbdReads, kbdDispatched, mouseLedger, mouseReads, mouseFed, emit, Event.kbdRead?,
          Event.kbdDispatch?, Event.mouseRead?, Event.mouseFeed?]
        rfl
      case isFalse hge =>
        have hsub : 64 - kbdLimit = 0 := by omega
        rw [hsub]
        simp [kbdLedger, kbdReads, kbdDispatched, mouseLedger, mouseReads, mouseFed, emit,
          Event.kbdRead?, Event.kbdDispatch?, Event.mouseRead?, Event.mouseFeed?]

/-- The bytes of a read are fed one by one. -/
theorem feedBytes_ledgers (bytes : Bytes) (g : Gui) :
  (feedBytes c g bytes).kbdLedger = g.kbdLedger
    ∧ (feedBytes c g bytes).mouseLedger
      = ⟨mouseReads g.log, mouseFed g.log ++ bytes, g.dev.mouse⟩
  := by
  unfold feedBytes
  induction bytes generalizing g with
  | nil => simp [mouseLedger]
  | cons b bytes ih =>
      obtain ⟨hkbd, hmouse⟩ := ih ({ g.emit (.mouseFeed b) with mouse := feedByte c g.mouse b })
      rw [List.foldl_cons, hkbd, hmouse]
      simp [kbdLedger, kbdReads, kbdDispatched, mouseReads, mouseFed, emit, Event.kbdRead?,
        Event.kbdDispatch?, Event.mouseRead?, Event.mouseFeed?]

theorem mouseLoop_ledgers (pending : List MouseChunk) {mseLimit : ℕ} (h : mseLimit ≤ 16) (g : Gui) :
  (mouseLoop c pending mseLimit g).mouseLedger
      = ⟨mouseReads g.log ++ (pending.take (16 - mseLimit + 1)).flatMap Subtype.val,
        mouseFed g.log ++ (pending.take (16 - mseLimit)).flatMap Subtype.val,
        pending.drop (16 - mseLimit + 1)⟩
    ∧ (mouseLoop c pending mseLimit g).kbdLedger = g.kbdLedger
  := by
  induction pending generalizing mseLimit g with
  | nil => simp [mouseLoop, kbdLedger, mouseLedger]
  | cons b rest ih =>
      unfold mouseLoop
      dsimp only
      split
      case isTrue hlt =>
        have hfeed := feedBytes_ledgers (c := c) b.val
          { g.emit (.mouseRead b.val) with
            locals.bytesReadThisFrame := (g.emit (.mouseRead b.val)).locals.bytesReadThisFrame
              + b.val.length }
        obtain ⟨hmouse, hkbd⟩ := ih (show mseLimit + 1 ≤ 16 by omega) (feedBytes c
          { g.emit (.mouseRead b.val) with
            locals.bytesReadThisFrame := (g.emit (.mouseRead b.val)).locals.bytesReadThisFrame
              + b.val.length } b.val)
        generalize feedBytes c _ b.val = g' at *
        have hsub : 16 - mseLimit = 16 - (mseLimit + 1) + 1 := by omega
        simp only [mouseLedger, Ledger.mk.injEq] at hfeed
        obtain ⟨hkbd', hreads, hfed, -⟩ := hfeed
        rw [hmouse, hkbd, hkbd', hreads, hfed, hsub]
        simp [kbdLedger, kbdReads, kbdDispatched, mouseReads, mouseFed, emit, Event.kbdRead?,
          Event.kbdDispatch?, Event.mouseRead?, Event.mouseFeed?]
      case isFalse hge =>
        have hsub : 16 - mseLimit = 0 := by omega
        rw [hsub]
        simp [kbdLedger, kbdReads, kbdDispatched, mouseLedger, mouseReads, mouseFed, emit,
          Event.kbdRead?, Event.kbdDispatch?, Event.mouseRead?, Event.mouseFeed?]

theorem beginFrame_ledgers (g : Gui) :
  (beginFrame i g).kbdLedger = g.kbdLedger.arrive i.keys
    ∧ (beginFrame i g).mouseLedger = g.mouseLedger.arrive i.mouse
  := ⟨rfl, rfl⟩

theorem readMouse_ledgers (g : Gui) :
  (readMouse c g).kbdLedger = g.kbdLedger
    ∧ (readMouse c g).mouseLedger
      = if c.mouseFd then g.mouseLedger.drain Subtype.val 16 else g.mouseLedger
  := by
  unfold readMouse
  dsimp only
  split
  · obtain ⟨hmouse, hkbd⟩ := mouseLoop_ledgers (c := c) g.dev.mouse (Nat.zero_le 16)
      { g with mouse.prevMouseBtnLeft := g.mouse.mouseBtnLeft }
    exact ⟨hkbd, hmouse⟩
  · exact ⟨rfl, rfl⟩

theorem readKeyboard_ledgers (g : Gui) :
  (readKeyboard c i g).mouseLedger = g.mouseLedger
    ∧ (readKeyboard c i g).kbdLedger
      = if c.kbdFd then g.kbdLedger.drain List.singleton 64 else g.kbdLedger
  := by
  have hitself : ∀ l : List InputEvent, l.flatMap List.singleton = l := List.flatMap_singleton'
  unfold readKeyboard
  split
  · dsimp only
    obtain ⟨hkbd', hmouse'⟩ := ledgers_of_touches (ptyDispatch_touches i g) (by simp)
    obtain ⟨hkbd, hmouse⟩ := kbdLoop_ledgers (c := c) (ptyDispatch i g).dev.kbd
      (Nat.zero_le 64) (ptyDispatch i g)
    rw [hmouse, hmouse', hkbd, ← hkbd']
    simp [Ledger.drain, kbdLedger, hitself]
  · exact ⟨rfl, rfl⟩

/-- A frame is a round of both ledgers. -/
theorem frame_ledgers (i : FrameIn) (g : Gui) :
  (frame c i g).kbdLedger = g.kbdLedger.round c.kbdFd List.singleton 64 i.keys
    ∧ (frame c i g).mouseLedger = g.mouseLedger.round c.mouseFd Subtype.val 16 i.mouse
  := by
  have hlate := ledgers_of_touches (frame_touches_late c i g) (by simp [lateAspects])
  have hpanel := ledgers_of_touches (taskManagerPanel_touches c i (beforeTaskManager c i g))
    (by simp [taskManagerAspects])
  have hearly := ledgers_of_touches (beforeTaskManager_touches c i g)
    (by simp [earlyAspects, menuAspects, toggleAspects])
  have hbegin := beginFrame_ledgers (i := i) g
  have hperiodic := ledgers_of_touches (periodic_touches c i (beginFrame i g)) (by simp)
  have hmouse := readMouse_ledgers (c := c) (periodic c i (beginFrame i g))
  have hfilter := ledgers_of_touches
    (filterMouse_touches (readMouse c (periodic c i (beginFrame i g)))) (by simp)
  have hicons := ledgers_of_touches
    (cornerIcons_touches c (filterMouse (readMouse c (periodic c i (beginFrame i g))))) (by simp)
  have hclear := ledgers_of_touches (clearPasswords_touches
    (cornerIcons c (filterMouse (readMouse c (periodic c i (beginFrame i g)))))) (by simp)
  have hkbd := readKeyboard_ledgers (c := c) (i := i) (clearPasswords
    (cornerIcons c (filterMouse (readMouse c (periodic c i (beginFrame i g))))))
  have hinput : handOver c i g = readKeyboard c i (clearPasswords
      (cornerIcons c (filterMouse (readMouse c (periodic c i (beginFrame i g)))))) := rfl
  rw [hlate.1, hlate.2, hpanel.1, hpanel.2, hearly.1, hearly.2, hinput, hkbd.1, hkbd.2, hclear.1,
    hclear.2, hicons.1, hicons.2, hfilter.1, hfilter.2, hmouse.1, hmouse.2, hperiodic.1,
    hperiodic.2, hbegin.1, hbegin.2]
  exact ⟨rfl, rfl⟩

/-! ### Runs -/

/-- The inputs of the frames a run executes. -/
def executed (c : Cfg) (is : List FrameIn) (g : Gui) : List FrameIn :=
  taken Gui.running (frame c) is g

theorem runFrames_kbdLedger (is : List FrameIn) (g : Gui) :
  (runFrames c is g).kbdLedger
    = g.kbdLedger.run c.kbdFd List.singleton 64 ((executed c is g).map FrameIn.keys)
  := by
  rw [Ledger.run, List.foldl_map]
  apply runWhile_simulates (v := kbdLedger)
  intro i g
  apply (frame_ledgers i g).1

theorem runFrames_mouseLedger (is : List FrameIn) (g : Gui) :
  (runFrames c is g).mouseLedger
    = g.mouseLedger.run c.mouseFd Subtype.val 16 ((executed c is g).map FrameIn.mouse)
  := by
  rw [Ledger.run, List.foldl_map]
  apply runWhile_simulates (v := mouseLedger)
  intro i g
  apply (frame_ledgers i g).2

theorem start_ledgers (s : Start) :
  (start c s).kbdLedger = ⟨[], [], []⟩ ∧ (start c s).mouseLedger = ⟨[], [], []⟩
  := by
  unfold start
  dsimp only
  split
  · obtain ⟨hkbd, hmouse⟩ := ledgers_of_touches (launchTerminalShell_touches _ _ _ _) (by simp)
    exact ⟨hkbd, hmouse⟩
  · exact ⟨rfl, rfl⟩

variable (s : Start) (is : List FrameIn)

theorem kbdDispatched_eq_kbdReads_iff :
  kbdDispatched (runFrames c is (start c s)).log = kbdReads (runFrames c is (start c s)).log
    ↔ (c.kbdFd → ∀ i ∈ executed c is (start c s), i.keys.length ≤ 64)
  := by
  have hledger := runFrames_kbdLedger (c := c) is (start c s)
  rw [(start_ledgers s).1] at hledger
  have hsingle : ∀ ev : InputEvent, List.singleton ev ≠ [] := by simp [List.singleton]
  have hiff := Ledger.run_handled_eq_read_iff c.kbdFd 64 (l := ⟨[], [], []⟩) hsingle rfl rfl
    ((executed c is (start c s)).map FrameIn.keys)
  rw [← hledger] at hiff
  simpa [kbdLedger] using hiff

theorem mouseFed_eq_mouseReads_iff :
  mouseFed (runFrames c is (start c s)).log = mouseReads (runFrames c is (start c s)).log
    ↔ (c.mouseFd → ∀ i ∈ executed c is (start c s), i.mouse.length ≤ 16)
  := by
  have hledger := runFrames_mouseLedger (c := c) is (start c s)
  rw [(start_ledgers s).2] at hledger
  have hchunk : ∀ b : MouseChunk, b.val ≠ [] := by
    intro b
    apply List.ne_nil_of_length_pos b.property.1
  have hiff := Ledger.run_handled_eq_read_iff c.mouseFd 16 (l := ⟨[], [], []⟩) hchunk rfl rfl
    ((executed c is (start c s)).map FrameIn.mouse)
  rw [← hledger] at hiff
  simpa [mouseLedger] using hiff

/-- What was read and what is pending at the keyboard is what has arrived. -/
theorem kbdReads_append_pending :
  kbdReads (runFrames c is (start c s)).log ++ (runFrames c is (start c s)).dev.kbd
    = (executed c is (start c s)).flatMap FrameIn.keys
  := by
  have hitself : ∀ l : List InputEvent, l.flatMap List.singleton = l := List.flatMap_singleton'
  have hledger := runFrames_kbdLedger (c := c) is (start c s)
  rw [(start_ledgers s).1] at hledger
  have hall := Ledger.run_conserves c.kbdFd List.singleton 64 (l := ⟨[], [], []⟩)
    ((executed c is (start c s)).map FrameIn.keys)
  rw [← hledger] at hall
  simpa only [hitself, kbdLedger, List.nil_append, List.flatMap_def] using hall

/-- What was read and what is pending at the mouse is what has arrived. -/
theorem mouseReads_append_pending :
  mouseReads (runFrames c is (start c s)).log
      ++ (runFrames c is (start c s)).dev.mouse.flatMap Subtype.val
    = ((executed c is (start c s)).flatMap FrameIn.mouse).flatMap Subtype.val
  := by
  have hledger := runFrames_mouseLedger (c := c) is (start c s)
  rw [(start_ledgers s).2] at hledger
  have hall := Ledger.run_conserves c.mouseFd (fun b : MouseChunk => b.val) 16 (l := ⟨[], [], []⟩)
    ((executed c is (start c s)).map FrameIn.mouse)
  rw [← hledger] at hall
  rw [List.flatMap_def (l := executed c is (start c s))]
  apply hall

/-- No input is lost in a run: everything read is handled, in order and once, and what has
arrived and was not handled is still pending. -/
structure NoInputLost (c : Cfg) (is : List FrameIn) (g : Gui) : Prop where
  kbd : kbdDispatched (runFrames c is g).log = kbdReads (runFrames c is g).log
  mouse : mouseFed (runFrames c is g).log = mouseReads (runFrames c is g).log
  kbdPostponed : kbdDispatched (runFrames c is g).log ++ (runFrames c is g).dev.kbd
    = (executed c is g).flatMap FrameIn.keys
  mousePostponed : mouseFed (runFrames c is g).log
      ++ (runFrames c is g).dev.mouse.flatMap Subtype.val
    = ((executed c is g).flatMap FrameIn.mouse).flatMap Subtype.val

/-- No input is lost in a run exactly if every frame of it finds at most sixty-four new events
at an open keyboard and at most sixteen new reads at an open mouse. -/
theorem noInputLost_iff (c : Cfg) (s : Start) (is : List FrameIn) :
  NoInputLost c is (start c s)
    ↔ ∀ i ∈ executed c is (start c s),
      (c.kbdFd → i.keys.length ≤ 64) ∧ (c.mouseFd → i.mouse.length ≤ 16)
  := by
  constructor
  · intro h i hi
    constructor
    · intro hopen
      apply (kbdDispatched_eq_kbdReads_iff s is).mp h.kbd hopen i hi
    · intro hopen
      apply (mouseFed_eq_mouseReads_iff s is).mp h.mouse hopen i hi
  · intro h
    have hkbd := (kbdDispatched_eq_kbdReads_iff s is).mpr (fun hopen i hi => (h i hi).1 hopen)
    have hmouse := (mouseFed_eq_mouseReads_iff s is).mpr (fun hopen i hi => (h i hi).2 hopen)
    constructor
    · apply hkbd
    · apply hmouse
    · rw [hkbd]
      apply kbdReads_append_pending
    · rw [hmouse]
      apply mouseReads_append_pending

/-- Sixty-five events in one frame: Shift is pressed, held, and released. -/
def heldShift : FrameIn :=
  { keys := press keyLeftShift :: List.replicate 63 ⟨evKey, keyLeftShift, 2⟩
      ++ [⟨evKey, keyLeftShift, 0⟩] }

/-- The release of Shift is read and not dispatched. -/
theorem not_noInputLost_desktop :
  ¬ NoInputLost desktop [heldShift] desktopStart
    ∧ (runFrames desktop [heldShift] desktopStart).keys.shiftPressed
    ∧ (runFrames desktop [heldShift] desktopStart).dev.kbd = []
  := by
  refine ⟨?_, by decide +kernel, by decide +kernel⟩
  intro h
  exact absurd h.kbd (by decide +kernel)

end Gui

end LnxCad
