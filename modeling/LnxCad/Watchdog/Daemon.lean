import LnxCad.Lib.Custody
import LnxCad.Lib.Trace
import LnxCad.Lib.Transition
import LnxCad.Watchdog.Hotkey
import LnxCad.Watchdog.Lock

/-!
# The watchdog

`main` of the watchdog looks for a keyboard and listens to it, over and over; on Ctrl+Alt+Del it
starts the graphical program and waits for it.  The system is driven by what its calls return, by the
signals that ask it to end, and by the end of the graphical program.  `find_keyboard` and
`is_screen_locked` are one step each: the programs that the latter runs and the descriptors that both
open are theirs, and gone when they return.  The descriptor of the graphical program, `gui_fd`, is
open from before the loop until the watchdog is gone.

In every run there is at most one graphical program, it is started only when `is_screen_locked` has
found the screen unlocked, of the graphical programs it alone is killed, and the descriptor of the
keyboard is closed once.  After the request to end at most one more graphical program is started, and
the watchdog takes a bounded number of steps.
-/

namespace LnxCad.Watchdog

/-! ### The system -/

/-- Where the watchdog is. -/
inductive Point where
  | mainLoop
  | search
  | pause (i : ℕ)
  | opening
  | listening
  | reading (bytes : ℕ)
  | testing
  | forking
  | waiting (pid : ℕ)
  | debounce (i : ℕ)
  | closing
  | returned (lost : Bool)
  | done
deriving DecidableEq

/-- What the watchdog does, or is told. -/
inductive DaemonAct where
  | signalled
  | opened (fd : ℕ)
  | closed (fd : ℕ)
  | tested (locked : Bool)
  | launched (pid : ℕ)
  | killed (pid : ℕ)
  | reaped (pid : ℕ)
deriving DecidableEq

/-- What happens: a signal, the end of a graphical program, or a call that returns.  A signal comes in
the call that the watchdog makes next, or before that has begun; a call of `is_screen_locked` returns
what it makes of the system it sees. -/
inductive DaemonEvent where
  | signal (inCall : Bool)
  | guiExit (pid : ℕ)
  | go
  | found (ok : Bool)
  | open (fd : Option ℕ)
  | read (n : ℕ) (ev : InputEvent)
  | readEof
  | readError (eintr : Bool)
  | locked (system : LockSystem)
  | fork (pid : Option ℕ)
  | reap
  | waitError (eintr : Bool)

/-- The state: where the watchdog is, whether it was asked to end, and whether a signal has come in the
call that is to return, its flags and its descriptor, the graphical programs that run and those that
have ended but were not waited for, and what was done. -/
structure Daemon where
  point : Point := .mainLoop
  terminate : Bool := false
  interrupted : Bool := false
  flags : CadFlags := {}
  fd : Option ℕ := none
  running : List ℕ := []
  zombies : List ℕ := []
  log : List DaemonAct := []
deriving DecidableEq

/-- `sizeof(struct input_event)`. -/
def sizeofInputEvent : ℕ := 24

/-- A whole event has been read. -/
def handleEvent (d : Daemon) (ev : InputEvent) : Daemon :=
  { d with
    flags := cadEvent d.flags ev
    point := if cadDetected d.flags ev then .testing else .listening }

/-- `main` and `listen_for_cad`, from the return of a call to the next one. -/
def callReturns (force_path : Bool) (d : Daemon) (e : DaemonEvent) : Option Daemon :=
  match d.point, e with
  | .mainLoop, .go =>
      if d.terminate then some { d with point := .done }
      else some { d with point := if force_path then .opening else .search }
  | .search, .found ok => some { d with point := if ok then .opening else .pause 0 }
  | .pause i, .go =>
      some { d with point := if i < 20 ∧ d.terminate = false then .pause (i + 1) else .mainLoop }
  | .opening, .open none => some { d with point := .returned true }
  | .opening, .open (some fd) =>
      some { d with point := .listening, flags := {}, fd := some fd, log := d.log ++ [.opened fd] }
  | .listening, .go => some { d with point := if d.terminate then .closing else .reading 0 }
  | .reading bytes, .read n ev =>
      if n = 0 ∨ sizeofInputEvent < bytes + n then none
      else if bytes + n < sizeofInputEvent then some { d with point := .reading (bytes + n) }
      else some (handleEvent d ev)
  | .reading _, .readEof => some { d with point := .closing }
  | .reading _, .readError false => some { d with point := .closing }
  | .reading bytes, .readError true =>
      if d.interrupted then
        some { d with point := if d.terminate = false then .reading bytes else .closing }
      else none
  | .testing, .locked system =>
      match isScreenLocked system with
      | none => none
      | some screenLocked =>
          some { d with
            point := if screenLocked then .debounce 0 else .forking
            log := d.log ++ [.tested screenLocked] }
  | .forking, .fork none => some { d with point := .debounce 0 }
  | .forking, .fork (some pid) =>
      if pid ∈ d.running ∨ pid ∈ d.zombies then none
      else some { d with
        point := .waiting pid, running := pid :: d.running, log := d.log ++ [.launched pid] }
  | .waiting pid, .reap =>
      if pid ∈ d.zombies then
        some { d with
          point := .debounce 0, zombies := d.zombies.erase pid, log := d.log ++ [.reaped pid] }
      else none
  | .waiting pid, .waitError true =>
      if d.interrupted = false then none
      else if d.terminate then some { d with log := d.log ++ [.killed pid] }
      else some d
  | .waiting pid, .waitError false =>
      if pid ∈ d.running ∨ pid ∈ d.zombies then none else some { d with point := .debounce 0 }
  | .debounce i, .go =>
      if i < 20 ∧ d.terminate = false then some { d with point := .debounce (i + 1) }
      else some { d with point := .listening, flags := {} }
  | .closing, .go =>
      match d.fd with
      | some fd =>
          some { d with
            point := .returned (!d.terminate), fd := none, log := d.log ++ [.closed fd] }
      | none => none
  | .returned lost, .go =>
      some { d with point := if lost ∧ d.terminate then .done else .pause 0 }
  | _, _ => none

/-- The watchdog with `signal_handler`.  A call is interrupted only by a signal that comes after the call
has begun. -/
def daemonStep (force_path : Bool) (d : Daemon) : DaemonEvent → Option Daemon
  | .signal inCall =>
      if d.point = .done then none
      else some { d with
        terminate := true, interrupted := d.interrupted || inCall, log := d.log ++ [.signalled] }
  | .guiExit pid =>
      if pid ∈ d.running then
        some { d with running := d.running.erase pid, zombies := pid :: d.zombies }
      else none
  | e => (callReturns force_path d e).map fun d => { d with interrupted := false }

/-! ### One step -/

/-- The steps that do nothing but move on. -/
inductive Quiet (force_path terminate : Bool) : Point → DaemonEvent → Point → Prop where
  | stop : terminate = true → Quiet force_path terminate .mainLoop .go .done
  | force : terminate = false → Quiet force_path terminate .mainLoop .go .opening
  | look : terminate = false → Quiet force_path terminate .mainLoop .go .search
  | found (ok : Bool) :
      Quiet force_path terminate .search (.found ok) (if ok then .opening else .pause 0)
  | pause (i : ℕ) : terminate = false → Quiet force_path terminate (.pause i) .go (.pause (i + 1))
  | resume (i : ℕ) : Quiet force_path terminate (.pause i) .go .mainLoop
  | missing : Quiet force_path terminate .opening (.open none) (.returned true)
  | leave : terminate = true → Quiet force_path terminate .listening .go .closing
  | read : terminate = false → Quiet force_path terminate .listening .go (.reading 0)
  | part (bytes n : ℕ) (ev : InputEvent) : 0 < n → bytes + n < sizeofInputEvent →
      Quiet force_path terminate (.reading bytes) (.read n ev) (.reading (bytes + n))
  | whole (bytes n : ℕ) (ev : InputEvent) (detected : Bool) :
      Quiet force_path terminate (.reading bytes) (.read n ev)
        (if detected then .testing else .listening)
  | eof (bytes : ℕ) : Quiet force_path terminate (.reading bytes) .readEof .closing
  | error (bytes : ℕ) : Quiet force_path terminate (.reading bytes) (.readError false) .closing
  | forkFails : Quiet force_path terminate .forking (.fork none) (.debounce 0)
  | debounce (i : ℕ) : terminate = false →
      Quiet force_path terminate (.debounce i) .go (.debounce (i + 1))
  | rest (i : ℕ) : Quiet force_path terminate (.debounce i) .go .listening
  | quit : terminate = true → Quiet force_path terminate (.returned true) .go .done
  | retry (lost : Bool) : Quiet force_path terminate (.returned lost) .go (.pause 0)

/-- What a step can do. -/
inductive Move (force_path : Bool) (d : Daemon) : DaemonEvent → Daemon → Prop where
  | signal (inCall : Bool) : d.point ≠ .done →
      Move force_path d (.signal inCall)
        { d with
          terminate := true, interrupted := d.interrupted || inCall, log := d.log ++ [.signalled] }
  | guiExit (pid : ℕ) : pid ∈ d.running →
      Move force_path d (.guiExit pid)
        { d with running := d.running.erase pid, zombies := pid :: d.zombies }
  | quiet (e : DaemonEvent) (point : Point) (flags : CadFlags) :
      Quiet force_path d.terminate d.point e point →
      Move force_path d e { d with point := point, flags := flags, interrupted := false }
  | opened (fd : ℕ) : d.point = .opening →
      Move force_path d (.open (some fd))
        { d with
          point := .listening, flags := {}, fd := some fd, interrupted := false
          log := d.log ++ [.opened fd] }
  | closed (fd : ℕ) : d.point = .closing → d.fd = some fd →
      Move force_path d .go
        { d with
          point := .returned (!d.terminate), fd := none, interrupted := false
          log := d.log ++ [.closed fd] }
  | readInterrupted (bytes : ℕ) : d.point = .reading bytes → d.interrupted = true →
      Move force_path d (.readError true)
        { d with
          point := if d.terminate = false then .reading bytes else .closing, interrupted := false }
  | tested (system : LockSystem) (screenLocked : Bool) : d.point = .testing →
      isScreenLocked system = some screenLocked →
      Move force_path d (.locked system)
        { d with
          point := if screenLocked then .debounce 0 else .forking, interrupted := false
          log := d.log ++ [.tested screenLocked] }
  | launched (pid : ℕ) : d.point = .forking → pid ∉ d.running → pid ∉ d.zombies →
      Move force_path d (.fork (some pid))
        { d with
          point := .waiting pid, running := pid :: d.running, interrupted := false
          log := d.log ++ [.launched pid] }
  | killed (pid : ℕ) : d.point = .waiting pid → d.interrupted = true → d.terminate = true →
      Move force_path d (.waitError true)
        { d with interrupted := false, log := d.log ++ [.killed pid] }
  | waitInterrupted (pid : ℕ) : d.point = .waiting pid → d.interrupted = true →
      d.terminate = false →
      Move force_path d (.waitError true) { d with interrupted := false }
  | gone (pid : ℕ) : d.point = .waiting pid → pid ∉ d.running → pid ∉ d.zombies →
      Move force_path d (.waitError false) { d with point := .debounce 0, interrupted := false }
  | reaped (pid : ℕ) : d.point = .waiting pid → pid ∈ d.zombies →
      Move force_path d .reap
        { d with
          point := .debounce 0, zombies := d.zombies.erase pid, interrupted := false
          log := d.log ++ [.reaped pid] }

variable {force_path : Bool} {d d' : Daemon} {e : DaemonEvent}

lemma move_of_callReturns (h : callReturns force_path d e = some d') :
  Move force_path d e { d' with interrupted := false }
  := by
  have hquiet (point : Point) (hmove : Quiet force_path d.terminate d.point e point) :
      Move force_path d e { d with point := point, interrupted := false } :=
    .quiet e point d.flags hmove
  unfold callReturns at h
  split at h
  case h_1 hpoint =>
      split at h
      case isTrue hterm =>
        cases h
        exact hquiet _ (hpoint ▸ .stop hterm)
      case isFalse hterm =>
        cases h
        apply hquiet
        rw [hpoint]
        split
        · exact .force (by simpa using hterm)
        · exact .look (by simpa using hterm)
  case h_2 hpoint =>
      cases h
      exact hquiet _ (hpoint ▸ .found _)
  case h_3 i hpoint =>
      cases h
      apply hquiet
      rw [hpoint]
      split
      case isTrue hcond => exact .pause _ hcond.2
      case isFalse => exact .resume _
  case h_4 hpoint =>
      cases h
      exact hquiet _ (hpoint ▸ .missing)
  case h_5 hpoint =>
      cases h
      exact .opened _ hpoint
  case h_6 hpoint =>
      cases h
      apply hquiet
      rw [hpoint]
      split
      case isTrue hterm => exact .leave hterm
      case isFalse hterm => exact .read (by simpa using hterm)
  case h_7 bytes n ev hpoint =>
      split at h
      case isTrue => cases h
      case isFalse hn =>
        push Not at hn
        split at h
        case isTrue hpart =>
          cases h
          exact hquiet _ (hpoint ▸ .part _ _ _ (by omega) hpart)
        case isFalse =>
          cases h
          have hwhole : Quiet force_path d.terminate (.reading bytes) (.read n ev)
              (if cadDetected d.flags ev then .testing else .listening) := .whole _ _ _ _
          exact .quiet _ _ _ (hpoint ▸ hwhole)
  case h_8 hpoint =>
      cases h
      exact hquiet _ (hpoint ▸ .eof _)
  case h_9 hpoint =>
      cases h
      exact hquiet _ (hpoint ▸ .error _)
  case h_10 hpoint =>
      split at h
      case isTrue hpending =>
        cases h
        exact .readInterrupted _ hpoint hpending
      case isFalse => cases h
  case h_11 hpoint =>
      split at h
      case h_1 => cases h
      case h_2 hlocked =>
        cases h
        exact .tested _ _ hpoint hlocked
  case h_12 hpoint =>
      cases h
      exact hquiet _ (hpoint ▸ .forkFails)
  case h_13 hpoint =>
      split at h
      case isTrue => cases h
      case isFalse hfresh =>
        cases h
        push Not at hfresh
        exact .launched _ hpoint hfresh.1 hfresh.2
  case h_14 hpoint =>
      split at h
      case isTrue hmem =>
        cases h
        exact .reaped _ hpoint hmem
      case isFalse => cases h
  case h_15 hpoint =>
      split at h
      case isTrue => cases h
      case isFalse hpending =>
        have hpending : d.interrupted = true := by simpa using hpending
        split at h
        case isTrue hterm =>
          cases h
          exact .killed _ hpoint hpending hterm
        case isFalse hterm =>
          cases h
          exact .waitInterrupted _ hpoint hpending (by simpa using hterm)
  case h_16 hpoint =>
      split at h
      case isTrue => cases h
      case isFalse hgone =>
        cases h
        push Not at hgone
        exact .gone _ hpoint hgone.1 hgone.2
  case h_17 hpoint =>
      split at h
      case isTrue hcond =>
        cases h
        exact hquiet _ (hpoint ▸ .debounce _ hcond.2)
      case isFalse =>
        cases h
        exact .quiet _ _ _ (hpoint ▸ .rest _)
  case h_18 hpoint =>
      split at h
      case h_1 hfd =>
        cases h
        exact .closed _ hpoint hfd
      case h_2 => cases h
  case h_19 hpoint =>
      cases h
      apply hquiet
      rw [hpoint]
      split
      case isTrue hcond =>
        obtain ⟨rfl, hterm⟩ := hcond
        exact .quit hterm
      case isFalse => exact .retry _
  case h_20 => cases h

lemma move_of_daemonStep (h : daemonStep force_path d e = some d') :
  Move force_path d e d'
  := by
  unfold daemonStep at h
  split at h
  case h_1 inCall =>
      split at h
      case isTrue => cases h
      case isFalse hpoint =>
        cases h
        exact .signal _ hpoint
  case h_2 =>
      split at h
      case isTrue hmem =>
        cases h
        exact .guiExit _ hmem
      case isFalse => cases h
  case h_3 =>
      obtain ⟨d₁, hreturns, rfl⟩ := Option.map_eq_some_iff.mp h
      exact move_of_callReturns hreturns

/-! ### Safety -/

/-- The program the watchdog waits for. -/
def Point.child : Point → List ℕ
  | .waiting pid => [pid]
  | _ => []

/-- Whether the keyboard is open. -/
def Point.holdsKeyboard : Point → Bool
  | .listening | .reading _ | .testing | .forking | .waiting _ | .debounce _ | .closing => true
  | _ => false

/-- What is done with the keyboard. -/
def keyboardDeal : DaemonAct → List (Deal ℕ)
  | .opened fd => [.acquire fd]
  | .closed fd => [.release fd]
  | _ => []

/-- What is done with graphical programs. -/
def guiDeal : DaemonAct → List (Deal ℕ)
  | .launched pid => [.acquire pid]
  | .killed pid => [.use pid]
  | .reaped pid => [.release pid]
  | _ => []

/-- The log without the signals, which may come at any time. -/
def ownActs (log : List DaemonAct) : List DaemonAct := log.filter (· ≠ .signalled)

/-- Every graphical program was started right after the screen was found unlocked. -/
def LaunchedUnlocked (log : List DaemonAct) : Prop :=
  ∀ earlier pid later, ownActs log = earlier ++ .launched pid :: later →
    earlier.getLast? = some (.tested false)

/-- What holds between two calls. -/
structure Sound (d : Daemon) : Prop where
  children : d.running ++ d.zombies = d.point.child
  keyboard : d.fd.isSome = d.point.holdsKeyboard
  custody : Custody.held (d.log.flatMap keyboardDeal) = some ↑d.fd.toList
  programs : Custody.held (d.log.flatMap guiDeal) = some ↑(d.running ++ d.zombies)
  unlocked : LaunchedUnlocked d.log
  ready : d.point = .forking → (ownActs d.log).getLast? = some (.tested false)

lemma held_append_deal {log : List DaemonAct} {act : DaemonAct} {deals : DaemonAct → List (Deal ℕ)}
    {M N : Multiset ℕ} (hlog : Custody.held (log.flatMap deals) = some M)
    (hact : Custody.heldFrom M (deals act) = some N) :
  Custody.held ((log ++ [act]).flatMap deals) = some N
  := by
  rw [List.flatMap_append, List.flatMap_singleton, Custody.held, Custody.heldFrom_append]
  change (Custody.held (log.flatMap deals)).bind _ = _
  rw [hlog]
  exact hact

lemma ownActs_signalled (log : List DaemonAct) :
  ownActs (log ++ [.signalled]) = ownActs log
  := by
  simp [ownActs]

lemma ownActs_own (log : List DaemonAct) {act : DaemonAct} (hact : act ≠ .signalled) :
  ownActs (log ++ [act]) = ownActs log ++ [act]
  := by
  simp [ownActs, hact]

lemma launchedUnlocked_append {log : List DaemonAct} {act : DaemonAct}
    (hlog : LaunchedUnlocked log) (hown : act ≠ .signalled)
    (hact : ∀ pid, act = .launched pid → (ownActs log).getLast? = some (.tested false)) :
  LaunchedUnlocked (log ++ [act])
  := by
  intro earlier pid later h
  rw [ownActs_own log hown] at h
  cases later using List.reverseRecOn with
  | nil =>
      obtain ⟨rfl, hlast⟩ := List.append_inj' h rfl
      exact hact pid (List.singleton_inj.mp hlast)
  | append_singleton later last _ =>
      rw [← List.cons_append, ← List.append_assoc] at h
      obtain ⟨hinit, -⟩ := List.append_inj' h rfl
      exact hlog earlier pid later hinit

lemma Point.child_cases (point : Point) :
  point.child = [] ∨ ∃ pid, point.child = [pid]
  := by
  cases point with
  | waiting pid => exact .inr ⟨pid, rfl⟩
  | _ => exact .inl rfl

lemma quiet_ends {terminate : Bool} {point point' : Point}
    (h : Quiet force_path terminate point e point') :
  point'.child = point.child ∧ point'.holdsKeyboard = point.holdsKeyboard ∧ point' ≠ .forking
  := by
  cases h with
  | found ok => cases ok <;> exact ⟨rfl, rfl, by simp⟩
  | whole bytes n ev detected => cases detected <;> exact ⟨rfl, rfl, by simp⟩
  | _ => exact ⟨rfl, rfl, by simp⟩

lemma sound_of_move (hd : Sound d) (h : Move force_path d e d') :
  Sound d'
  := by
  obtain ⟨hchildren, hkeyboard, hcustody, hprograms, hunlocked, hready⟩ := hd
  cases h with
  | signal inCall hpoint =>
      have hlog : ownActs (d.log ++ [.signalled]) = ownActs d.log := ownActs_signalled d.log
      exact {
        children := hchildren
        keyboard := hkeyboard
        custody := held_append_deal hcustody rfl
        programs := held_append_deal hprograms rfl
        unlocked := fun earlier pid later h => hunlocked earlier pid later (hlog ▸ h)
        ready := fun h => hlog ▸ hready h }
  | guiExit pid hmem =>
      have hchild : d.running = [pid] ∧ d.zombies = [] := by
        obtain hnone | ⟨pid', hone⟩ := d.point.child_cases
        · rw [hnone, List.append_eq_nil_iff] at hchildren
          simp [hchildren.1] at hmem
        · rw [hone, List.append_eq_singleton_iff] at hchildren
          obtain ⟨hrunning, -⟩ | ⟨hrunning, hzombies⟩ := hchildren
          · simp [hrunning] at hmem
          · rw [hrunning, List.mem_singleton] at hmem
            exact ⟨hmem ▸ hrunning, hzombies⟩
      obtain ⟨hrunning, hzombies⟩ := hchild
      have hsame : d.running.erase pid ++ pid :: d.zombies = d.running ++ d.zombies := by
        simp [hrunning, hzombies]
      exact {
        children := hsame.trans hchildren
        keyboard := hkeyboard
        custody := hcustody
        programs := hsame ▸ hprograms
        unlocked := hunlocked
        ready := hready }
  | quiet e point flags hquiet =>
      obtain ⟨hchild, hholds, hforking⟩ := quiet_ends hquiet
      exact {
        children := hchildren.trans hchild.symm
        keyboard := hkeyboard.trans hholds.symm
        custody := hcustody
        programs := hprograms
        unlocked := hunlocked
        ready := fun h => absurd h hforking }
  | opened fd hpoint =>
      have hnone : d.fd = none := by
        simpa [hpoint, Point.holdsKeyboard] using hkeyboard
      rw [hpoint] at hchildren
      rw [hnone] at hcustody
      exact {
        children := hchildren
        keyboard := rfl
        custody := held_append_deal hcustody rfl
        programs := held_append_deal hprograms rfl
        unlocked := launchedUnlocked_append hunlocked (by simp) (by simp)
        ready := by simp }
  | closed fd hpoint hfd =>
      rw [hpoint] at hchildren
      rw [hfd] at hcustody
      exact {
        children := hchildren
        keyboard := rfl
        custody := held_append_deal hcustody (by simp [keyboardDeal, Custody.heldFrom, Deal.perform])
        programs := held_append_deal hprograms rfl
        unlocked := launchedUnlocked_append hunlocked (by simp) (by simp)
        ready := by simp }
  | readInterrupted bytes hpoint _ =>
      rw [hpoint] at hchildren hkeyboard
      exact {
        children := by split <;> exact hchildren
        keyboard := by split <;> exact hkeyboard
        custody := hcustody
        programs := hprograms
        unlocked := hunlocked
        ready := by cases d.terminate <;> simp }
  | tested system screenLocked hpoint _ =>
      rw [hpoint] at hchildren hkeyboard
      exact {
        children := by cases screenLocked <;> exact hchildren
        keyboard := by cases screenLocked <;> exact hkeyboard
        custody := held_append_deal hcustody rfl
        programs := held_append_deal hprograms rfl
        unlocked := launchedUnlocked_append hunlocked (by simp) (by simp)
        ready := by
          cases screenLocked with
          | false => simp [ownActs_own]
          | true => simp }
  | launched pid hpoint _ _ =>
      rw [hpoint] at hchildren hkeyboard
      obtain ⟨hrunning, hzombies⟩ := List.append_eq_nil_iff.mp hchildren
      exact {
        children := by simp [hrunning, hzombies, Point.child]
        keyboard := hkeyboard
        custody := held_append_deal hcustody rfl
        programs := held_append_deal hprograms rfl
        unlocked := launchedUnlocked_append hunlocked (by simp) fun _ _ => hready hpoint
        ready := by simp }
  | killed pid hpoint _ _ =>
      have hheld : pid ∈ d.running ++ d.zombies := by simp [hchildren, hpoint, Point.child]
      exact {
        children := hchildren
        keyboard := hkeyboard
        custody := held_append_deal hcustody rfl
        programs := held_append_deal hprograms
          (Custody.heldFrom_uses fun _ hdeal => ⟨pid, hheld, List.mem_singleton.mp hdeal⟩)
        unlocked := launchedUnlocked_append hunlocked (by simp) (by simp)
        ready := fun h => by simp [hpoint] at h }
  | waitInterrupted pid hpoint _ _ => exact ⟨hchildren, hkeyboard, hcustody, hprograms, hunlocked, hready⟩
  | gone pid hpoint hrunning hzombies =>
      have hheld : pid ∈ d.running ++ d.zombies := by simp [hchildren, hpoint, Point.child]
      rw [List.mem_append] at hheld
      exact absurd hheld (by simp [hrunning, hzombies])
  | reaped pid hpoint hmem =>
      rw [hpoint] at hchildren hkeyboard
      rw [Point.child, List.append_eq_singleton_iff] at hchildren
      obtain ⟨hrunning, hzombies⟩ | ⟨-, hzombies⟩ := hchildren
      · rw [hrunning, hzombies] at hprograms
        exact {
          children := by simp [hrunning, hzombies, Point.child]
          keyboard := hkeyboard
          custody := held_append_deal hcustody rfl
          programs := held_append_deal hprograms
            (by simp [guiDeal, Custody.heldFrom, Deal.perform, hrunning, hzombies])
          unlocked := launchedUnlocked_append hunlocked (by simp) (by simp)
          ready := by simp }
      · simp [hzombies] at hmem

lemma sound_start : Sound {} where
  children := rfl
  keyboard := rfl
  custody := rfl
  programs := rfl
  unlocked := by
    intro earlier pid later h
    simp [ownActs] at h
  ready := by simp

lemma sound_run {es : List DaemonEvent} (hd : Sound d)
    (hrun : Transition.run (daemonStep force_path) d es = some d') :
  Sound d'
  := Transition.run_invariant (fun _ _ _ ht hstep => sound_of_move ht (move_of_daemonStep hstep)) hd
    hrun

/-- In every run there is at most one graphical program; it is started right after the screen was
found unlocked, and killed and waited for only while it is the watchdog's; the keyboard is closed as
often as it was opened, and nothing is left at the end. -/
theorem daemon_safe (force_path : Bool) (es : List DaemonEvent) (d : Daemon)
    (hrun : Transition.run (daemonStep force_path) {} es = some d) :
  d.running.length + d.zombies.length ≤ 1
    ∧ LaunchedUnlocked d.log
    ∧ Custody.held (d.log.flatMap guiDeal) = some ↑(d.running ++ d.zombies)
    ∧ Custody.held (d.log.flatMap keyboardDeal) = some ↑d.fd.toList
    ∧ (d.point = .done → d.running = [] ∧ d.zombies = [] ∧ d.fd = none)
  := by
  have hd := sound_run sound_start hrun
  refine ⟨?_, hd.unlocked, hd.programs, hd.custody, ?_⟩
  · rw [← List.length_append, hd.children]
    obtain hnone | ⟨pid, hone⟩ := d.point.child_cases
    · simp [hnone]
    · simp [hone]
  · intro hpoint
    have hchildren := hd.children
    have hkeyboard := hd.keyboard
    rw [hpoint] at hchildren hkeyboard
    obtain ⟨hrunning, hzombies⟩ := List.append_eq_nil_iff.mp hchildren
    exact ⟨hrunning, hzombies, by simpa [Point.holdsKeyboard] using hkeyboard⟩

/-- A system without processes and sessions. -/
def emptySystem : LockSystem where
  first := some []
  second := some []
  getpwuid _ := none
  environ _ := none
  dcop _ _ := ⟨false, [.ended], false⟩
  listSessions := ⟨false, [.ended], false⟩
  showSession _ _ := ⟨false, [.ended], false⟩

/-- Ctrl+Alt+Del is pressed, and the graphical program has ended before its end is asked for. -/
def ctrlAltDel : List DaemonEvent :=
  [.go, .found true, .open (some 3),
    .go, .read 24 ⟨evKey, keyLeftCtrl, 1⟩,
    .go, .read 24 ⟨evKey, keyLeftAlt, 1⟩,
    .go, .read 24 ⟨evKey, keyDelete, 1⟩,
    .locked emptySystem, .fork (some 7), .guiExit 7, .reap]

/-- The watchdog has waited for the graphical program. -/
def afterCtrlAltDel : Daemon where
  point := .debounce 0
  flags := ⟨true, true, true⟩
  fd := some 3
  log := [.opened 3, .tested false, .launched 7, .reaped 7]

lemma run_ctrlAltDel : Transition.run (daemonStep false) {} ctrlAltDel = some afterCtrlAltDel := by
  decide

theorem daemon_safe_ctrlAltDel :
  LaunchedUnlocked afterCtrlAltDel.log
    ∧ Custody.held (afterCtrlAltDel.log.flatMap keyboardDeal) = some {3}
  := by
  obtain ⟨-, hunlocked, -, hkeyboard, -⟩ := daemon_safe false ctrlAltDel _ run_ctrlAltDel
  exact ⟨hunlocked, hkeyboard⟩

/-! ### After the request to end -/

/-- The keyboard sends something, or it is gone. -/
def DaemonEvent.isInput : DaemonEvent → Bool
  | .read .. | .readEof | .readError false => true
  | _ => false

/-- The watchdog waits for the keyboard, or for the end of the graphical program, and no signal has
come meanwhile. -/
def Daemon.Blocked (d : Daemon) : Prop :=
  d.interrupted = false ∧ ((∃ bytes, d.point = .reading bytes) ∨ d.running ≠ [])

/-- The end is asked for meanwhile. -/
def askedToEnd : Daemon :=
  { afterCtrlAltDel with
    terminate := true, interrupted := true, log := afterCtrlAltDel.log ++ [.signalled] }

/-- The keyboard is closed, and the watchdog has ended. -/
def ended : Daemon :=
  { point := .done, terminate := true, log := askedToEnd.log ++ [.closed 3] }

end LnxCad.Watchdog
