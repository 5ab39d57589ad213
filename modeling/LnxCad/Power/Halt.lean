import LnxCad.Lib.Custody
import LnxCad.Text

/-!
# Sleep, restart and shutdown

`execute_restart` and `execute_shutdown` run in a process of their own.  They give back what the
graphical program has open, write the disks, ask the system to halt, and halt it themselves six seconds
later; `execute_sleep` locks the session and writes the disks before it suspends the machine.

None of them waits for anything that may hang: whatever the system calls return, the machine is halted
or suspended after a bounded time of sleep.
-/

namespace LnxCad.Power

/-! ### What is done -/

/-- What is done for the power of the machine. -/
inductive PowerAct where
  | ignoreTerm
  | dropMaster
  | close (fd : ℕ)
  | slept (ms : ℕ)
  | forkSync
  | kill (pid : ℤ) (sig : ℕ)
  | start (cmd : Bytes)
  | asUser (cmd : Bytes)
  | loginctl (args : List Bytes)
  | remountReadOnly
  | suspend
  | setCrtc
  | reboot (cmd : ℕ)
  | exit
deriving DecidableEq

/-- The descriptors of the journal that are open. -/
structure JournalFds where
  drm : Option ℕ
  kbd : Option ℕ
  mouse : Option ℕ
  rescueTty : Option ℕ
  tty : Option ℕ

/-- A descriptor is closed if it is open. -/
def closeFd (fd : Option ℕ) : List PowerAct := fd.toList.map .close

/-- The graphics card is given back. -/
def releaseDrm (fds : JournalFds) : List PowerAct :=
  (if fds.drm.isSome then [.dropMaster] else []) ++ closeFd fds.drm

/-- All descriptors of the journal are closed. -/
def closeAll (fds : JournalFds) : List PowerAct :=
  releaseDrm fds ++ closeFd fds.kbd ++ closeFd fds.mouse ++ closeFd fds.rescueTty ++ closeFd fds.tty

/-- The milliseconds of sleep. -/
def PowerAct.ms : PowerAct → ℕ
  | .slept ms => ms
  | _ => 0

/-- The milliseconds of sleep in all. -/
def slept (acts : List PowerAct) : ℕ := (acts.map PowerAct.ms).sum

/-- The signals that are sent. -/
def signals (acts : List PowerAct) : List (ℤ × ℕ) :=
  acts.filterMap fun act =>
    match act with
    | .kill pid sig => some (pid, sig)
    | _ => none

/-- What is done with descriptors. -/
def fdDeals (acts : List PowerAct) : List (Deal ℕ) :=
  acts.filterMap fun act =>
    match act with
    | .close fd => some (.release fd)
    | _ => none

@[simp]
theorem slept_cons (act : PowerAct) (acts : List PowerAct) :
  slept (act :: acts) = act.ms + slept acts
  := rfl

@[simp]
theorem slept_append (acts acts' : List PowerAct) :
  slept (acts ++ acts') = slept acts + slept acts'
  := by
  simp [slept]

theorem signals_append (acts acts' : List PowerAct) :
  signals (acts ++ acts') = signals acts ++ signals acts'
  := List.filterMap_append

theorem fdDeals_append (acts acts' : List PowerAct) :
  fdDeals (acts ++ acts') = fdDeals acts ++ fdDeals acts'
  := List.filterMap_append

/-! ### The disks -/

/-- A loop that waits for a process and sleeps between, where `gone i` says whether it ends at turn
`i`. -/
def awaitChild (gone : ℕ → Bool) (ms : ℕ) : ℕ → ℕ → List PowerAct
  | 0, _ => []
  | n + 1, i => if gone i then [] else .slept ms :: awaitChild gone ms n (i + 1)

/-- The process that writes the disks, if there is one, and when the two loops see its end. -/
structure SyncCalls where
  pid : Option ℕ
  gone : ℕ → Bool
  killed : ℕ → Bool

/-- The disks are written by a process that is killed after two seconds. -/
def syncDisks (c : SyncCalls) : List PowerAct :=
  .forkSync :: awaitChild c.gone 100 20 0
    ++ match c.pid with
      | some pid => .kill pid 9 :: awaitChild c.killed 1 50 0
      | none => []

/-! ### `execute_restart`, `execute_shutdown` and `execute_sleep` -/

/-- The answers of the system; `sysrqWritten` says whether the file that takes the SysRq keys can be
written once it is open. -/
structure HaltCalls where
  first : SyncCalls
  second : SyncCalls
  sysrqOpens : Bool
  sysrqWritten : Bool

/-- `trigger_sysrq`, with the key that makes the file systems read-only. -/
def triggerSysrq (c : HaltCalls) : List PowerAct :=
  if c.sysrqOpens then if c.sysrqWritten then [.remountReadOnly] else [] else []

/-- What `execute_restart` and `execute_shutdown` do up to the system call. -/
def prepareHalt (cmd : Bytes) (fds : JournalFds) (c : HaltCalls) : List PowerAct :=
  [.ignoreTerm] ++ closeAll fds ++ syncDisks c.first ++ [.start cmd, .slept 6000]
    ++ syncDisks c.second ++ [.slept 1000] ++ triggerSysrq c ++ [.slept 1000]

/-- What `execute_restart` and `execute_shutdown` have in common. -/
def executeHalt (cmd : Bytes) (rebootCmd : ℕ) (fds : JournalFds) (c : HaltCalls) : List PowerAct :=
  prepareHalt cmd fds c ++ [.reboot rebootCmd, .exit]

/-- `execute_restart`. -/
def executeRestart : JournalFds → HaltCalls → List PowerAct :=
  executeHalt (chars "systemctl reboot || reboot".toList) 0x01234567

/-- `execute_shutdown`. -/
def executeShutdown : JournalFds → HaltCalls → List PowerAct :=
  executeHalt (chars "systemctl poweroff || poweroff".toList) 0x4321FEDC

/-- `execute_sleep`; `setCrtc i` says whether the screen is taken back at attempt `i`. -/
def executeSleep (lock_cmd : Bytes) (c : SyncCalls) (stateOpens : Bool) (drm : Option ℕ)
    (setCrtc : ℕ → Bool) : List PowerAct :=
  (if lock_cmd ≠ [] then [.asUser lock_cmd, .slept 200] else []) ++ syncDisks c
    ++ (if stateOpens then [.suspend] else [])
    ++ (if drm.isSome then
        [.slept 100, .setCrtc] ++ (if setCrtc 0 then [] else [.slept 500, .setCrtc])
      else [])

/-! ### Bounded sleep -/

theorem slept_awaitChild (gone : ℕ → Bool) (ms n i : ℕ) :
  slept (awaitChild gone ms n i) ≤ ms * n
  := by
  induction n generalizing i with
  | zero => exact Nat.le_refl _
  | succ n ih =>
      rw [awaitChild]
      split
      · exact Nat.zero_le _
      · have hrest := ih (i + 1)
        rw [slept_cons, PowerAct.ms, Nat.mul_succ]
        omega

theorem quiet_awaitChild (gone : ℕ → Bool) (ms n i : ℕ) :
  signals (awaitChild gone ms n i) = [] ∧ fdDeals (awaitChild gone ms n i) = []
  := by
  induction n generalizing i with
  | zero => exact ⟨rfl, rfl⟩
  | succ n ih =>
      rw [awaitChild]
      split
      · exact ⟨rfl, rfl⟩
      · exact ih (i + 1)

theorem mem_awaitChild {gone : ℕ → Bool} {ms n i : ℕ} {act : PowerAct}
    (h : act ∈ awaitChild gone ms n i) :
  act = .slept ms
  := by
  induction n generalizing i with
  | zero => cases h
  | succ n ih =>
      rw [awaitChild] at h
      split at h
      · cases h
      · obtain h | h := List.mem_cons.mp h
        · exact h
        · exact ih h

theorem slept_syncDisks (c : SyncCalls) :
  slept (syncDisks c) ≤ 2050
  := by
  have hwait := slept_awaitChild c.gone 100 20 0
  unfold syncDisks
  cases c.pid with
  | none =>
      simp only [List.append_nil, slept_cons, PowerAct.ms]
      omega
  | some pid =>
      have hkilled := slept_awaitChild c.killed 1 50 0
      simp only [slept_append, slept_cons, PowerAct.ms]
      omega

/-- Only the process that writes the disks is killed. -/
theorem signals_syncDisks (c : SyncCalls) :
  signals (syncDisks c) = c.pid.toList.map fun (pid : ℕ) => ((pid : ℤ), 9)
  := by
  have hwait := (quiet_awaitChild c.gone 100 20 0).1
  unfold syncDisks
  cases c.pid with
  | none =>
      rw [List.append_nil]
      exact hwait
  | some pid =>
      have hkilled := (quiet_awaitChild c.killed 1 50 0).1
      rw [signals_append]
      change signals (awaitChild c.gone 100 20 0)
        ++ ((pid : ℤ), 9) :: signals (awaitChild c.killed 1 50 0) = _
      rw [hwait, hkilled]
      rfl

theorem fdDeals_syncDisks (c : SyncCalls) :
  fdDeals (syncDisks c) = []
  := by
  have hwait := (quiet_awaitChild c.gone 100 20 0).2
  unfold syncDisks
  cases c.pid with
  | none =>
      rw [List.append_nil]
      exact hwait
  | some pid =>
      have hkilled := (quiet_awaitChild c.killed 1 50 0).2
      rw [fdDeals_append]
      change fdDeals (awaitChild c.gone 100 20 0) ++ fdDeals (awaitChild c.killed 1 50 0) = _
      rw [hwait, hkilled]
      rfl

theorem mem_syncDisks {c : SyncCalls} {act : PowerAct} (h : act ∈ syncDisks c) :
  act = .forkSync ∨ (∃ ms, act = .slept ms) ∨ ∃ pid, act = .kill pid 9
  := by
  unfold syncDisks at h
  rw [List.mem_append, List.mem_cons] at h
  obtain (h | h) | h := h
  · exact .inl h
  · exact .inr (.inl ⟨_, mem_awaitChild h⟩)
  · cases hpid : c.pid with
    | none =>
        rw [hpid] at h
        cases h
    | some pid =>
        rw [hpid] at h
        obtain h | h := List.mem_cons.mp h
        · exact .inr (.inr ⟨pid, h⟩)
        · exact .inr (.inl ⟨_, mem_awaitChild h⟩)

/-! ### Descriptors -/

/-- The descriptors that are open. -/
def JournalFds.held (fds : JournalFds) : List ℕ :=
  fds.drm.toList ++ fds.kbd.toList ++ fds.mouse.toList ++ fds.rescueTty.toList ++ fds.tty.toList

theorem fdDeals_closeFd (fd : Option ℕ) :
  fdDeals (closeFd fd) = fd.toList.map .release
  := by
  cases fd <;> rfl

theorem fdDeals_releaseDrm (fds : JournalFds) :
  fdDeals (releaseDrm fds) = fds.drm.toList.map .release
  := by
  unfold releaseDrm
  cases fds.drm <;> rfl

theorem fdDeals_closeAll (fds : JournalFds) :
  fdDeals (closeAll fds) = fds.held.map .release
  := by
  simp only [closeAll, JournalFds.held, fdDeals_append, fdDeals_releaseDrm, fdDeals_closeFd,
    List.map_append]

/-- What is held is given back once. -/
theorem heldFrom_releases (fds : List ℕ) :
  Custody.heldFrom (fds : Multiset ℕ) (fds.map .release) = some 0
  := by
  induction fds with
  | nil => rfl
  | cons fd fds ih =>
      rw [List.map_cons, Custody.heldFrom_cons, Deal.perform, if_pos (by simp), Option.bind_some,
        Multiset.coe_erase, List.erase_cons_head]
      exact ih

theorem mem_closeAll {fds : JournalFds} {act : PowerAct} (h : act ∈ closeAll fds) :
  act = .dropMaster ∨ ∃ fd, act = .close fd
  := by
  have hclose : ∀ fd : Option ℕ, act ∈ closeFd fd → ∃ n, act = .close n := by
    intro fd hfd
    obtain ⟨n, -, rfl⟩ := List.mem_map.mp hfd
    exact ⟨n, rfl⟩
  simp only [closeAll, releaseDrm, List.mem_append] at h
  obtain ((((h | h) | h) | h) | h) | h := h
  · split at h
    · exact .inl (List.mem_singleton.mp h)
    · cases h
  all_goals exact .inr (hclose _ h)

theorem slept_closeAll (fds : JournalFds) :
  slept (closeAll fds) = 0
  := by
  apply List.sum_eq_zero
  intro ms hms
  obtain ⟨act, hact, rfl⟩ := List.mem_map.mp hms
  obtain rfl | ⟨fd, rfl⟩ := mem_closeAll hact
  · rfl
  · rfl

theorem signals_closeAll (fds : JournalFds) :
  signals (closeAll fds) = []
  := by
  apply List.filterMap_eq_nil_iff.mpr
  intro act hact
  obtain rfl | ⟨fd, rfl⟩ := mem_closeAll hact
  · rfl
  · rfl

/-! ### The machine is halted -/

/-- The two ways to halt the machine. -/
inductive Halt where
  | restart
  | shutdown

def Halt.execute : Halt → JournalFds → HaltCalls → List PowerAct
  | restart => executeRestart
  | shutdown => executeShutdown

/-- What is asked of the kernel. -/
def Halt.rebootCmd : Halt → ℕ
  | restart => 0x01234567
  | shutdown => 0x4321FEDC

/-- The SysRq key remounts the file systems, if anything; it does not sleep, and concerns neither the
descriptors nor other processes. -/
theorem triggerSysrq_spec (c : HaltCalls) :
  (∀ act ∈ triggerSysrq c, act = .remountReadOnly)
    ∧ slept (triggerSysrq c) = 0 ∧ fdDeals (triggerSysrq c) = [] ∧ signals (triggerSysrq c) = []
  := by
  unfold triggerSysrq
  split_ifs
  · exact ⟨fun _ hact => List.mem_singleton.mp hact, rfl, rfl, rfl⟩
  · exact ⟨fun _ hact => absurd hact List.not_mem_nil, rfl, rfl, rfl⟩
  · exact ⟨fun _ hact => absurd hact List.not_mem_nil, rfl, rfl, rfl⟩

theorem mem_prepareHalt {cmd : Bytes} {fds : JournalFds} {c : HaltCalls} {act : PowerAct}
    (h : act ∈ prepareHalt cmd fds c) :
  act ≠ .exit ∧ ∀ n, act ≠ .reboot n
  := by
  simp only [prepareHalt, List.mem_append, List.mem_cons, List.not_mem_nil, or_false] at h
  obtain ((((((rfl | h) | h) | rfl | rfl) | h) | rfl) | h) | rfl := h
  · simp
  · obtain rfl | ⟨fd, rfl⟩ := mem_closeAll h
    · simp
    · simp
  · obtain rfl | ⟨ms, rfl⟩ | ⟨pid, rfl⟩ := mem_syncDisks h
    all_goals simp
  · simp
  · simp
  · obtain rfl | ⟨ms, rfl⟩ | ⟨pid, rfl⟩ := mem_syncDisks h
    all_goals simp
  · simp
  · obtain rfl := (triggerSysrq_spec c).1 act h
    simp
  · simp

/-- Whatever the system calls return, the machine is halted after at most 12.1 seconds of sleep, and
behind that nothing else is done; before that every descriptor of the journal that was open is closed
once, only the processes that write the disks are sent a signal, and the file systems are made
read-only if the SysRq key can be written. -/
theorem halt_execute (halt : Halt) (fds : JournalFds) (c : HaltCalls) :
  ∃ before, halt.execute fds c = before ++ [.reboot halt.rebootCmd, .exit]
    ∧ (∀ act ∈ before, act ≠ .exit ∧ ∀ n, act ≠ .reboot n)
    ∧ before.head? = some .ignoreTerm
    ∧ slept before ≤ 12100
    ∧ Custody.heldFrom (fds.held : Multiset ℕ) (fdDeals before) = some 0
    ∧ signals before = (c.first.pid.toList ++ c.second.pid.toList).map (fun (pid : ℕ) => ((pid : ℤ), 9))
    ∧ (c.sysrqOpens = true → c.sysrqWritten = true → ∃ first,
      before = first ++ syncDisks c.second ++ [.slept 1000, .remountReadOnly, .slept 1000])
  := by
  have hspec : ∀ cmd : Bytes, (∀ act ∈ prepareHalt cmd fds c, act ≠ .exit ∧ ∀ n, act ≠ .reboot n)
      ∧ (prepareHalt cmd fds c).head? = some .ignoreTerm
      ∧ slept (prepareHalt cmd fds c) ≤ 12100
      ∧ Custody.heldFrom (fds.held : Multiset ℕ) (fdDeals (prepareHalt cmd fds c)) = some 0
      ∧ signals (prepareHalt cmd fds c)
        = (c.first.pid.toList ++ c.second.pid.toList).map (fun (pid : ℕ) => ((pid : ℤ), 9))
      ∧ (c.sysrqOpens = true → c.sysrqWritten = true → ∃ first, prepareHalt cmd fds c
        = first ++ syncDisks c.second ++ [.slept 1000, .remountReadOnly, .slept 1000]) := by
    intro cmd
    obtain ⟨-, hslept, hdeals, hsignals⟩ := triggerSysrq_spec c
    refine ⟨fun act hact => mem_prepareHalt hact, rfl, ?_, ?_, ?_, ?_⟩
    · have hfirst := slept_syncDisks c.first
      have hsecond := slept_syncDisks c.second
      simp only [prepareHalt, slept_append, slept_closeAll, slept_cons, PowerAct.ms, hslept]
      have hnil : slept [] = 0 := rfl
      omega
    · have hquiet : fdDeals (prepareHalt cmd fds c) = fds.held.map .release := by
        simp only [prepareHalt, fdDeals_append, fdDeals_closeAll, fdDeals_syncDisks, hdeals]
        simp [fdDeals]
      rw [hquiet]
      exact heldFrom_releases fds.held
    · simp only [prepareHalt, signals_append, signals_closeAll, signals_syncDisks, hsignals,
        List.map_append]
      simp [signals]
    · intro hopens hwritten
      refine ⟨[.ignoreTerm] ++ closeAll fds ++ syncDisks c.first ++ [.start cmd, .slept 6000], ?_⟩
      rw [prepareHalt, triggerSysrq, if_pos hopens, if_pos hwritten]
      simp only [List.append_assoc, List.cons_append, List.nil_append]
  cases halt with
  | restart => exact ⟨_, rfl, hspec _⟩
  | shutdown => exact ⟨_, rfl, hspec _⟩

/-! ### The machine is suspended -/

/-- The machine is suspended once, after the session was locked if that can be done, and after at most
2.25 seconds of sleep; behind that the screen is taken back, at the second attempt at the latest. -/
theorem executeSleep_eq (lock_cmd : Bytes) (c : SyncCalls) (drm : Option ℕ) (setCrtc : ℕ → Bool) :
  ∃ before behind, executeSleep lock_cmd c true drm setCrtc = before ++ .suspend :: behind
    ∧ .suspend ∉ before ∧ .suspend ∉ behind
    ∧ (lock_cmd ≠ [] → ∃ rest, before = .asUser lock_cmd :: .slept 200 :: rest)
    ∧ slept before ≤ 2250 ∧ slept behind ≤ 600
    ∧ behind.count .setCrtc ≤ 2 ∧ (drm.isSome = true → .setCrtc ∈ behind)
  := by
  have hsync : .suspend ∉ syncDisks c := by
    intro hmem
    obtain h | ⟨ms, h⟩ | ⟨pid, h⟩ := mem_syncDisks hmem
    all_goals cases h
  have hslept := slept_syncDisks c
  refine ⟨(if lock_cmd ≠ [] then [.asUser lock_cmd, .slept 200] else []) ++ syncDisks c,
    if drm.isSome then
      [.slept 100, .setCrtc] ++ (if setCrtc 0 then [] else [.slept 500, .setCrtc])
    else [], ?_, ?_, ?_, ?_, ?_, ?_, ?_, ?_⟩
  · simp [executeSleep]
  · by_cases hlock : lock_cmd = []
    · simpa [hlock] using hsync
    · simpa [hlock] using hsync
  · cases drm with
    | none => simp
    | some fd => cases setCrtc 0 <;> simp
  · intro hlock
    rw [if_pos hlock]
    exact ⟨_, rfl⟩
  · have hnil : slept [] = 0 := rfl
    by_cases hlock : lock_cmd = []
    · rw [if_neg (by simpa using hlock), List.nil_append]
      omega
    · rw [if_pos hlock]
      simp only [slept_append, slept_cons, PowerAct.ms]
      omega
  · cases drm with
    | none => simp [slept]
    | some fd => cases setCrtc 0 <;> simp [slept, PowerAct.ms]
  · cases drm with
    | none => simp
    | some fd => cases setCrtc 0 <;> simp
  · cases drm with
    | none => simp
    | some fd => cases setCrtc 0 <;> simp

end LnxCad.Power
