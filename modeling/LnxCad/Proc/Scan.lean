import LnxCad.Text
import Mathlib.Data.List.DropRight

/-!
# The process scan of the task manager

`scan_processes` walks `/proc` and keeps, among the processes it meets, three lists of at
most fifteen entries: the largest by resident memory, the largest by processor time since
the previous scan, and the largest by resident memory among those whose name matches the
search text.  The processor times of a scan are kept in a hash table with linear probing
for the next one.

An entry of `/proc` is given by the number its name denotes and by the fields of its
`stat` line.
-/

namespace LnxCad

/-- The value of an `unsigned` quantity stored in an `int`. -/
def toInt32 (n : ℕ) : ℤ := Int.bmod n (2 ^ 32)

/-- `process_info`, without the user name, which is only drawn. -/
structure ProcessInfo where
  pid : ℤ
  name : Bytes
  rssPages : ℤ
  cpuPercent : ℤ
  state : UInt8
  uid : ℕ
deriving DecidableEq

/-- An entry of `/proc` whose `stat` file could be read. -/
structure ProcEntry where
  pid : ℕ
  name : Bytes
  state : UInt8
  cpuTime : ℕ
  rssPages : ℤ
  uid : ℕ
deriving DecidableEq

/-- What one scan meets: the entries of `/proc`, unless it cannot be opened, and the
clock. -/
structure ProcSnapshot where
  entries : Option (List ProcEntry)
  currentMs : ℕ

/-- The length of the lists. -/
def maxTopProcs : ℕ := 15

/-- `is_process_blacklisted`. -/
def isProcessBlacklisted (name : Bytes) : Bool :=
  strstr name (chars ['s', 'y', 's', 't', 'e', 'm', 'd'])
    || strstr name (chars ['k', 't', 'h', 'r', 'e', 'a', 'd'])
    || strstr name (chars ['s', 'd', '-', 'p', 'a', 'm'])
    || strstr name (chars ['d', 'b', 'u', 's'])
    || strstr name (chars ['X', 'o', 'r', 'g'])
    || strstr name (chars ['X', 'w', 'a', 'y', 'l', 'a', 'n', 'd'])
    || strstr name (chars ['k', 'w', 'o', 'r', 'k', 'e', 'r'])
    || strstr name (chars ['p', 'u', 'l', 's', 'e', 'a', 'u', 'd', 'i', 'o'])
    || strstr name (chars ['p', 'i', 'p', 'e', 'w', 'i', 'r', 'e'])

/-! ### The history of processor times -/

/-- The number of slots of a history. -/
def histSize : ℕ := 16384

/-- `pid_hist`: a process and its processor time; the number `0` marks an empty slot. -/
structure PidHist where
  pid : ℕ
  cpuTime : ℕ

/-- A history, by slot. -/
def Hist := ℕ → PidHist

/-- The history with every slot empty. -/
def Hist.empty : Hist := fun _ => ⟨0, 0⟩

/-- The search for a process along its probe sequence, up to an empty slot or once round
the table; a process not found has processor time `0`. -/
def Hist.find (h : Hist) (pid : ℕ) : ℕ → ℕ → ℕ
  | 0, _ => 0
  | fuel + 1, slot =>
      if (h slot).pid = 0 then 0
      else if (h slot).pid = pid then (h slot).cpuTime
      else h.find pid fuel ((slot + 1) % histSize)

/-- The insertion of a process at the first empty slot of its probe sequence; a full table
is left as it is. -/
def Hist.insert (h : Hist) (pid cpuTime : ℕ) : ℕ → ℕ → Hist
  | 0, _ => h
  | fuel + 1, slot =>
      if (h slot).pid = 0 then fun i => if i = slot then ⟨pid, cpuTime⟩ else h i
      else h.insert pid cpuTime fuel ((slot + 1) % histSize)

/-! ### The lists -/

/-- The key in the last slot of a list; the slots not filled yet hold `-1`. -/
def lastKey (key : ProcessInfo → ℤ) (top : List ProcessInfo) : ℤ :=
  match top[maxTopProcs - 1]? with
  | some q => key q
  | none => -1

/-- The insertion of a process into a list: behind the last entry whose key is at least
its own, the entries behind moved down and the one past the end dropped. -/
def insertTop (key : ProcessInfo → ℤ) (p : ProcessInfo) (top : List ProcessInfo) :
    List ProcessInfo :=
  if key p > lastKey key top then
    (top.rdropWhile (fun q => key p > key q)
      ++ p :: top.rtakeWhile (fun q => key p > key q)).take maxTopProcs
  else top

/-- The lists and the history the program keeps between scans. -/
structure Procs where
  topProcsMem : List ProcessInfo
  topProcsCpu : List ProcessInfo
  topProcsSearch : List ProcessInfo
  currentHist : Hist
  prevScanMs : ℕ

/-- No process listed and no scan made yet. -/
def Procs.init : Procs := ⟨[], [], [], Hist.empty, 0⟩

/-- What a scan depends on besides the processes. -/
structure ScanSetup where
  myPid : ℕ
  logicalCores : ℕ
  search : Option Bytes

/-- `delta_ticks`: the processor time since the scan before. -/
def deltaTicks (prev : Hist) (prevScanMs : ℕ) (e : ProcEntry) : ℕ :=
  let prevCpuTime := prev.find e.pid histSize (e.pid % histSize)
  if prevScanMs ≠ 0 ∧ prevCpuTime ≤ e.cpuTime then e.cpuTime - prevCpuTime else 0

/-- `cpu_percent`, by the processor time spent in some milliseconds and the cores. -/
def cpuPercent (logicalCores deltaTicks deltaMs : ℕ) : ℤ :=
  let percent := toInt32 (deltaTicks * 1000 % 2 ^ 64 / deltaMs)
  if logicalCores > 0 then percent.tdiv logicalCores else percent

/-- The record of an entry. -/
def processInfo (u : ScanSetup) (prev : Hist) (prevScanMs deltaMs : ℕ) (e : ProcEntry) :
    ProcessInfo where
  pid := e.pid
  name := e.name
  rssPages := e.rssPages
  cpuPercent := cpuPercent u.logicalCores (deltaTicks prev prevScanMs e) deltaMs
  state := e.state
  uid := e.uid

/-- One entry of `/proc`: the program's own process and the number `0` are passed over,
the processor time enters the history, and a process that is not blacklisted is offered
to the lists. -/
def scanEntry (u : ScanSetup) (prev : Hist) (prevScanMs deltaMs : ℕ) (r : Procs)
    (e : ProcEntry) : Procs :=
  if e.pid ≠ u.myPid ∧ e.pid ≠ 0 then
    let p := processInfo u prev prevScanMs deltaMs e
    let r := { r with
      currentHist := r.currentHist.insert e.pid e.cpuTime histSize (e.pid % histSize) }
    if isProcessBlacklisted p.name then r
    else { r with
      topProcsMem := insertTop ProcessInfo.rssPages p r.topProcsMem
      topProcsCpu := insertTop ProcessInfo.cpuPercent p r.topProcsCpu
      topProcsSearch :=
        match u.search with
        | some needle =>
            if strcasestr p.name needle then insertTop ProcessInfo.rssPages p r.topProcsSearch
            else r.topProcsSearch
        | none => r.topProcsSearch }
  else r

/-- `scan_processes`: starts from empty lists and an empty history and takes the entries
in order.  Nothing changes when `/proc` cannot be opened. -/
def scanProcesses (u : ScanSetup) (s : ProcSnapshot) (r : Procs) : Procs :=
  match s.entries with
  | none => r
  | some entries =>
      let delta := (s.currentMs + 2 ^ 64 - r.prevScanMs) % 2 ^ 64
      let deltaMs := if delta = 0 then 1 else delta
      entries.foldl (scanEntry u r.currentHist r.prevScanMs deltaMs)
        { Procs.init with prevScanMs := s.currentMs }

/-! ### What a list can hold -/

/-- Every process listed satisfies a condition. -/
structure Procs.All (P : ProcessInfo → Prop) (r : Procs) : Prop where
  mem : ∀ p ∈ r.topProcsMem, P p
  cpu : ∀ p ∈ r.topProcsCpu, P p
  search : ∀ p ∈ r.topProcsSearch, P p

theorem mem_insertTop
    {key : ProcessInfo → ℤ} {p q : ProcessInfo} {top : List ProcessInfo}
    (h : q ∈ insertTop key p top) :
  q = p ∨ q ∈ top
  := by
  unfold insertTop at h
  split at h
  · obtain h | h := List.mem_append.mp (List.mem_of_mem_take h)
    · right
      apply (List.rdropWhile_prefix _ _).subset h
    · obtain h | h := List.mem_cons.mp h
      · left
        apply h
      · right
        apply (List.rtakeWhile_suffix _ _).subset h
  · right
    apply h

/-- A process number other than `0` and the program's own: what a scan may list. -/
def Foreign (myPid : ℕ) (p : ProcessInfo) : Prop :=
  0 < p.pid ∧ p.pid ≠ myPid

theorem scanEntry_foreign
    {u : ScanSetup} {prev : Hist} {prevScanMs deltaMs : ℕ} {r : Procs} (e : ProcEntry)
    (h : r.All (Foreign u.myPid)) :
  (scanEntry u prev prevScanMs deltaMs r e).All (Foreign u.myPid)
  := by
  unfold scanEntry
  split
  case isFalse => apply h
  case isTrue he =>
    have hp : Foreign u.myPid (processInfo u prev prevScanMs deltaMs e) := by
      simp only [Foreign, processInfo]
      omega
    have hins : ∀ {key : ProcessInfo → ℤ} {top : List ProcessInfo},
        (∀ q ∈ top, Foreign u.myPid q) →
        ∀ q ∈ insertTop key (processInfo u prev prevScanMs deltaMs e) top, Foreign u.myPid q := by
      intro key top htop q hq
      obtain rfl | hq := mem_insertTop hq
      · apply hp
      · apply htop q hq
    dsimp only
    split
    · exact ⟨h.mem, h.cpu, h.search⟩
    · constructor
      · apply hins h.mem
      · apply hins h.cpu
      · dsimp only
        split
        · split
          · apply hins h.search
          · apply h.search
        · apply h.search

theorem Procs.All.empty (P : ProcessInfo → Prop) (h : Hist) (ms : ℕ) :
  Procs.All P ⟨[], [], [], h, ms⟩
  := by
  constructor
  · simp
  · simp
  · simp

theorem Procs.All.imp
    {P Q : ProcessInfo → Prop} (hPQ : ∀ p, P p → Q p) {r : Procs} (h : r.All P) :
  r.All Q
  := by
  constructor
  · intro p hp
    apply hPQ p (h.mem p hp)
  · intro p hp
    apply hPQ p (h.cpu p hp)
  · intro p hp
    apply hPQ p (h.search p hp)

/-- A scan lists only processes other than the program's own, with positive numbers, or
leaves the lists as they were. -/
theorem scanProcesses_all
    {P : ProcessInfo → Prop} {u : ScanSetup} (hP : ∀ p, Foreign u.myPid p → P p)
    (s : ProcSnapshot) {r : Procs} (h : r.All P) :
  (scanProcesses u s r).All P
  := by
  unfold scanProcesses
  split
  · apply h
  · apply Procs.All.imp hP
    dsimp only
    apply List.foldlRecOn (motive := fun r : Procs => r.All (Foreign u.myPid))
    · apply Procs.All.empty
    · intro r hr e _
      apply scanEntry_foreign e hr

end LnxCad
