import LnxCad.Lib.Int32
import LnxCad.Proc.Scan
import LnxCad.Session.Passwd

/-!
# The figures of the system

`scan_sysinfo` reads the memory and the processor time of the system.  The share of the time in
which the processors were busy is taken between two calls, from the total time and the idle
time.  A total that does not rise leaves the share as it was, but nothing is asked of the idle
time, and the share is a percentage only if the idle time moves with the total.
-/

namespace LnxCad

open LnxCad.Session

/-- What `scan_sysinfo` keeps. -/
structure SysInfo where
  totalRamMb : ℕ
  usedRamMb : ℕ
  totalSwapMb : ℕ
  usedSwapMb : ℕ
  globalCpuPercent : ℤ
  prevCpuTotal : ℕ
  prevCpuIdle : ℕ
  logicalCores : ℤ

/-- Before the first call. -/
def SysInfo.init : SysInfo := ⟨0, 0, 0, 0, 0, 0, 0, 0⟩

/-- What one call reads: the number of processors that `sysconf` gives, as an `int`, and the
files `/proc/meminfo` and `/proc/stat`, if they can be opened. -/
structure SysReads where
  processors : ℤ
  meminfo : Option Bytes
  stat : Option Bytes

/-! ### The memory -/

/-- The fields of `/proc/meminfo`. -/
structure MemInfo where
  mTotal : ℕ
  mFree : ℕ
  mBuf : ℕ
  mCache : ℕ
  sTotal : ℕ
  sFree : ℕ

/-- One line of `/proc/meminfo`. -/
def memLine (m : MemInfo) (p : Bytes) : MemInfo :=
  if (chars ['M', 'e', 'm', 'T', 'o', 't', 'a', 'l', ':']).isPrefixOf p then
    { m with mTotal := strToUll (p.drop 9) }
  else if (chars ['M', 'e', 'm', 'F', 'r', 'e', 'e', ':']).isPrefixOf p then
    { m with mFree := strToUll (p.drop 8) }
  else if (chars ['B', 'u', 'f', 'f', 'e', 'r', 's', ':']).isPrefixOf p then
    { m with mBuf := strToUll (p.drop 8) }
  else if (chars ['C', 'a', 'c', 'h', 'e', 'd', ':']).isPrefixOf p then
    { m with mCache := strToUll (p.drop 7) }
  else if (chars ['S', 'w', 'a', 'p', 'T', 'o', 't', 'a', 'l', ':']).isPrefixOf p then
    { m with sTotal := strToUll (p.drop 10) }
  else if (chars ['S', 'w', 'a', 'p', 'F', 'r', 'e', 'e', ':']).isPrefixOf p then
    { m with sFree := strToUll (p.drop 9) }
  else m

/-- What is in use of some memory, in megabytes. -/
def usedMb (total available : ℕ) : ℕ :=
  if total > available then (total - available) / 1024 else 0

/-- The figures of the memory. -/
def scanMeminfo (s : SysInfo) (file : Bytes) : SysInfo :=
  let m := (lines (cstr (file.take 2047))).foldl memLine ⟨0, 0, 0, 0, 0, 0⟩
  { s with
    totalRamMb := m.mTotal / 1024
    usedRamMb := usedMb m.mTotal ((m.mFree + m.mBuf + m.mCache) % 2 ^ 64)
    totalSwapMb := m.sTotal / 1024
    usedSwapMb := usedMb m.sTotal m.sFree }

/-! ### The processor time -/

/-- The counters in the first line of `/proc/stat`. -/
structure CpuCounters where
  user : ℕ
  nice : ℕ
  system : ℕ
  idle : ℕ
  iowait : ℕ
  irq : ℕ
  softirq : ℕ
  steal : ℕ

/-- `p` moved behind a counter. -/
def nextCounter (p : Bytes) : Bytes :=
  (p.dropWhile (· = 32)).dropWhile fun c => (digit c).isSome

/-- The counters of a file that begins with those of all processors. -/
def cpuCounters (file : Bytes) : Option CpuCounters :=
  let buf := cstr (file.take 511)
  if (chars ['c', 'p', 'u', ' ']).isPrefixOf buf then
    let p (i : ℕ) := nextCounter^[i] (buf.drop 4)
    some
      { user := strToUll (p 0)
        nice := strToUll (p 1)
        system := strToUll (p 2)
        idle := strToUll (p 3)
        iowait := strToUll (p 4)
        irq := strToUll (p 5)
        softirq := strToUll (p 6)
        steal := strToUll (p 7) }
  else none

/-- `current_idle`. -/
def CpuCounters.currentIdle (c : CpuCounters) : ℕ := (c.idle + c.iowait) % 2 ^ 64

/-- `current_total`. -/
def CpuCounters.currentTotal (c : CpuCounters) : ℕ :=
  let currentNonIdle := (c.user + c.nice + c.system + c.irq + c.softirq + c.steal) % 2 ^ 64
  (c.currentIdle + currentNonIdle) % 2 ^ 64

/-- The share that is not idle, in percent, before it is stored in an `int`. -/
def busyShare (totald idled : ℕ) : ℕ :=
  (totald + 2 ^ 64 - idled) % 2 ^ 64 * 100 % 2 ^ 64 / totald

/-- The share since the counters of the call before, unless the total did not rise. -/
def scanCounters (s : SysInfo) (c : CpuCounters) : SysInfo :=
  { s with
    globalCpuPercent :=
      if c.currentTotal > s.prevCpuTotal then
        let totald := c.currentTotal - s.prevCpuTotal
        let idled := (c.currentIdle + 2 ^ 64 - s.prevCpuIdle) % 2 ^ 64
        toInt32 (busyShare totald idled)
      else s.globalCpuPercent
    prevCpuTotal := c.currentTotal
    prevCpuIdle := c.currentIdle }

/-- The counters a call reads. -/
def SysReads.counters (r : SysReads) : Option CpuCounters :=
  match r.stat with
  | some (c :: file) => cpuCounters (c :: file)
  | _ => none

/-- The number of processors is asked for until it is known. -/
def scanCores (s : SysInfo) (processors : ℤ) : SysInfo :=
  if s.logicalCores = 0 then
    { s with logicalCores := if processors ≤ 0 then 1 else processors }
  else s

/-- The memory is left as it was where nothing can be read of it. -/
def scanMemory (s : SysInfo) (meminfo : Option Bytes) : SysInfo :=
  match meminfo with
  | some (c :: file) => scanMeminfo s (c :: file)
  | _ => s

/-- `scan_sysinfo`. -/
def scanSysinfo (s : SysInfo) (r : SysReads) : SysInfo :=
  let s := scanMemory (scanCores s r.processors) r.meminfo
  match r.counters with
  | some c => scanCounters s c
  | none => s

/-! ### What is in use -/

/-- No more memory is in use than there is. -/
structure SysInfo.Fits (s : SysInfo) : Prop where
  ram : s.usedRamMb ≤ s.totalRamMb
  swap : s.usedSwapMb ≤ s.totalSwapMb

theorem usedMb_le (total available : ℕ) :
  usedMb total available ≤ total / 1024
  := by
  unfold usedMb
  split
  · apply Nat.div_le_div_right
    omega
  · apply Nat.zero_le

theorem scanMemory_fits {s : SysInfo} (h : s.Fits) (meminfo : Option Bytes) :
  (scanMemory s meminfo).Fits
  := by
  unfold scanMemory
  split
  · exact ⟨usedMb_le _ _, usedMb_le _ _⟩
  · exact h

theorem scanSysinfo_fits {s : SysInfo} (h : s.Fits) (r : SysReads) :
  (scanSysinfo s r).Fits
  := by
  have hcores : (scanCores s r.processors).Fits := by
    unfold scanCores
    split
    · exact ⟨h.ram, h.swap⟩
    · exact h
  have hmemory := scanMemory_fits hcores r.meminfo
  unfold scanSysinfo
  cases r.counters with
  | none => exact hmemory
  | some c => exact ⟨hmemory.ram, hmemory.swap⟩

/-- After any calls no more memory is in use than there is, whatever the files say. -/
theorem foldl_scanSysinfo_fits (rs : List SysReads) :
  (rs.foldl scanSysinfo SysInfo.init).Fits
  := by
  apply List.foldlRecOn (motive := SysInfo.Fits)
  · exact ⟨le_refl 0, le_refl 0⟩
  · intro s hs r _
    exact scanSysinfo_fits hs r

/-! ### When the share is a percentage -/

/-- The counters are in a range in which the sums do not overflow. -/
def CpuCounters.Small (c : CpuCounters) : Prop :=
  c.user < 2 ^ 50 ∧ c.nice < 2 ^ 50 ∧ c.system < 2 ^ 50 ∧ c.idle < 2 ^ 50 ∧ c.iowait < 2 ^ 50
    ∧ c.irq < 2 ^ 50 ∧ c.softirq < 2 ^ 50 ∧ c.steal < 2 ^ 50

instance (c : CpuCounters) : Decidable c.Small :=
  inferInstanceAs (Decidable (c.user < 2 ^ 50 ∧ c.nice < 2 ^ 50 ∧ c.system < 2 ^ 50
    ∧ c.idle < 2 ^ 50 ∧ c.iowait < 2 ^ 50 ∧ c.irq < 2 ^ 50 ∧ c.softirq < 2 ^ 50
    ∧ c.steal < 2 ^ 50))

/-- The idle time rises by no more than the total, and falls by less than a hundredth of what
the total rises. -/
def IdleMoves (prevIdle idle prevTotal total : ℤ) : Prop :=
  idle - prevIdle ≤ total - prevTotal ∧ -(total - prevTotal) < 100 * (idle - prevIdle)

instance (prevIdle idle prevTotal total : ℤ) :
    Decidable (IdleMoves prevIdle idle prevTotal total) :=
  inferInstanceAs (Decidable (idle - prevIdle ≤ total - prevTotal
    ∧ -(total - prevTotal) < 100 * (idle - prevIdle)))

/-- Where the idle time rises by no more than the total, the share is taken from the difference
of the two. -/
theorem busyShare_eq {t prevIdle idle : ℕ} (ht : t < 2 ^ 53) (hprev : prevIdle < 2 ^ 53)
    (hidle : idle < 2 ^ 53) (hle : idle ≤ prevIdle + t) :
  busyShare t ((idle + 2 ^ 64 - prevIdle) % 2 ^ 64) = (prevIdle + t - idle) * 100 / t
  := by
  have hbusy : (t + 2 ^ 64 - (idle + 2 ^ 64 - prevIdle) % 2 ^ 64) % 2 ^ 64 = prevIdle + t - idle := by
    omega
  have hfits : (prevIdle + t - idle) * 100 % 2 ^ 64 = (prevIdle + t - idle) * 100 := by
    apply Nat.mod_eq_of_lt
    omega
  rw [busyShare, hbusy, hfits]

/-- Where it rises by more, the difference wraps around. -/
theorem busyShare_wraps {t prevIdle idle : ℕ} (ht : 0 < t) (hidle : idle < 2 ^ 53)
    (hlt : prevIdle + t < idle) :
  101 ≤ busyShare t ((idle + 2 ^ 64 - prevIdle) % 2 ^ 64)
  := by
  obtain ⟨x, hx⟩ : ∃ x, idle = prevIdle + t + x := ⟨idle - (prevIdle + t), by omega⟩
  have hbound : 101 * t ≤ 2 ^ 64 - 100 * x := by omega
  have hidled : (idle + 2 ^ 64 - prevIdle) % 2 ^ 64 = t + x := by
    have hadd : idle + 2 ^ 64 - prevIdle = t + x + 2 ^ 64 := by omega
    rw [hadd, Nat.add_mod_right, Nat.mod_eq_of_lt]
    omega
  have hbusy : (t + 2 ^ 64 - (t + x)) % 2 ^ 64 = 2 ^ 64 - x := by
    rw [Nat.mod_eq_of_lt]
    · omega
    · omega
  have hwrap : (2 ^ 64 - x) * 100 % 2 ^ 64 = 2 ^ 64 - 100 * x := by
    have hmul : (2 ^ 64 - x) * 100 = 2 ^ 64 - 100 * x + 2 ^ 64 * 99 := by omega
    rw [hmul, Nat.add_mul_mod_self_left, Nat.mod_eq_of_lt]
    omega
  rw [busyShare, hidled, hbusy, hwrap]
  exact (Nat.le_div_iff_mul_le ht).mpr hbound

/-- The share is at most a hundred exactly if the idle time moves with the total. -/
theorem busyShare_le_iff
    {prevTotal total prevIdle idle : ℕ} (hrise : prevTotal < total) (htotal : total < 2 ^ 53)
    (hprev : prevIdle < 2 ^ 53) (hidle : idle < 2 ^ 53) :
  busyShare (total - prevTotal) ((idle + 2 ^ 64 - prevIdle) % 2 ^ 64) ≤ 100
    ↔ IdleMoves prevIdle idle prevTotal total
  := by
  obtain ⟨t, rfl⟩ : ∃ t, total = prevTotal + t := ⟨total - prevTotal, by omega⟩
  rw [Nat.add_sub_cancel_left, IdleMoves]
  obtain hle | hlt := le_or_gt idle (prevIdle + t)
  · rw [busyShare_eq (by omega) hprev hidle hle, ← Nat.lt_succ_iff,
      Nat.div_lt_iff_lt_mul (by omega)]
    omega
  · have hwraps := busyShare_wraps (by omega) hidle hlt
    apply iff_of_false
    · omega
    · omega

/-! ### Runs -/

/-- Every call that reads counters finds a total that does not rise, or an idle time that moves
with it. -/
def Steady : SysInfo → List SysReads → Prop
  | _, [] => True
  | s, r :: rs =>
      (∀ c ∈ r.counters, c.currentTotal ≤ s.prevCpuTotal
          ∨ IdleMoves s.prevCpuIdle c.currentIdle s.prevCpuTotal c.currentTotal)
        ∧ Steady (scanSysinfo s r) rs

/-- What holds between two calls. -/
structure SysInfo.Sound (s : SysInfo) : Prop where
  total : s.prevCpuTotal < 2 ^ 53
  idle : s.prevCpuIdle < 2 ^ 53
  percent : 0 ≤ s.globalCpuPercent ∧ s.globalCpuPercent ≤ 100

theorem CpuCounters.Small.lt {c : CpuCounters} (h : c.Small) :
  c.currentTotal < 2 ^ 53 ∧ c.currentIdle < 2 ^ 53
  := by
  obtain ⟨huser, hnice, hsystem, hidle, hiowait, hirq, hsoftirq, hsteal⟩ := h
  have hcurrent : c.currentIdle = c.idle + c.iowait := by
    apply Nat.mod_eq_of_lt
    omega
  have htotal : c.currentTotal
      ≤ c.currentIdle + (c.user + c.nice + c.system + c.irq + c.softirq + c.steal) := by
    apply (Nat.mod_le _ _).trans
    apply Nat.add_le_add_left
    apply Nat.mod_le
  omega

theorem scanCounters_sound {s : SysInfo} (h : s.Sound) {c : CpuCounters} (hsmall : c.Small)
    (hmoves : c.currentTotal ≤ s.prevCpuTotal
      ∨ IdleMoves s.prevCpuIdle c.currentIdle s.prevCpuTotal c.currentTotal) :
  (scanCounters s c).Sound
  := by
  obtain ⟨htotal, hidle⟩ := hsmall.lt
  refine ⟨htotal, hidle, ?_⟩
  unfold scanCounters
  dsimp only
  split
  case isTrue hrise =>
    have hshare := (busyShare_le_iff hrise htotal h.idle hidle).mpr
      (hmoves.resolve_left (by omega))
    have hint : toInt32 (busyShare (c.currentTotal - s.prevCpuTotal)
          ((c.currentIdle + 2 ^ 64 - s.prevCpuIdle) % 2 ^ 64))
        = busyShare (c.currentTotal - s.prevCpuTotal)
          ((c.currentIdle + 2 ^ 64 - s.prevCpuIdle) % 2 ^ 64) := by
      apply int32_eq
      · omega
      · omega
    rw [hint]
    omega
  case isFalse => exact h.percent

/-- The figures of the processor time are the same. -/
def SysInfo.SameTime (s s' : SysInfo) : Prop :=
  s'.prevCpuTotal = s.prevCpuTotal ∧ s'.prevCpuIdle = s.prevCpuIdle
    ∧ s'.globalCpuPercent = s.globalCpuPercent

/-- What is done in front of the counters does not touch the processor time. -/
theorem scanMemory_sameTime (s : SysInfo) (r : SysReads) :
  s.SameTime (scanMemory (scanCores s r.processors) r.meminfo)
  := by
  unfold scanMemory scanCores
  split
  · unfold scanMeminfo
    split
    · exact ⟨rfl, rfl, rfl⟩
    · exact ⟨rfl, rfl, rfl⟩
  · split
    · exact ⟨rfl, rfl, rfl⟩
    · exact ⟨rfl, rfl, rfl⟩

theorem scanSysinfo_sound {s : SysInfo} (h : s.Sound) {r : SysReads}
    (hsmall : ∀ c ∈ r.counters, c.Small)
    (hmoves : ∀ c ∈ r.counters, c.currentTotal ≤ s.prevCpuTotal
      ∨ IdleMoves s.prevCpuIdle c.currentIdle s.prevCpuTotal c.currentTotal) :
  (scanSysinfo s r).Sound
  := by
  obtain ⟨htotal, hidle, hpercent⟩ := scanMemory_sameTime s r
  unfold scanSysinfo
  generalize scanMemory (scanCores s r.processors) r.meminfo = s' at htotal hidle hpercent ⊢
  have hsound : s'.Sound := by
    constructor
    · rw [htotal]
      exact h.total
    · rw [hidle]
      exact h.idle
    · rw [hpercent]
      exact h.percent
  cases hc : r.counters with
  | none => exact hsound
  | some c =>
      apply scanCounters_sound hsound (hsmall c hc)
      rw [htotal, hidle]
      exact hmoves c hc

/-- In a run in which the idle time moves with the total, the share is a percentage after every
call. -/
theorem scanSysinfo_percent
    {rs : List SysReads} (hsmall : ∀ r ∈ rs, ∀ c ∈ r.counters, c.Small)
    (hsteady : Steady SysInfo.init rs) :
  ∀ s ∈ rs.scanl scanSysinfo SysInfo.init, 0 ≤ s.globalCpuPercent ∧ s.globalCpuPercent ≤ 100
  := by
  have hinit : SysInfo.init.Sound := ⟨by decide, by decide, by decide⟩
  generalize SysInfo.init = s at hsteady hinit
  induction rs generalizing s with
  | nil =>
      rintro s' hs'
      rw [List.scanl_nil, List.mem_singleton] at hs'
      rw [hs']
      exact hinit.percent
  | cons r rs ih =>
      intro s' hs'
      rw [List.scanl_cons] at hs'
      obtain rfl | hs' := List.mem_cons.mp hs'
      · exact hinit.percent
      · apply ih _ _ hsteady.2 _ s' hs'
        · intro r' hr'
          apply hsmall r' (by simp [hr'])
        · exact scanSysinfo_sound hinit (hsmall r (by simp)) hsteady.1

/-- A call that finds eight counters, of which those of the user and of waiting are given. -/
def readCounters (user iowait : Char) : SysReads where
  processors := 4
  meminfo := none
  stat := some (chars ['c', 'p', 'u', ' ', ' ', user, ' ', '0', ' ', '0', ' ', '0', ' ', iowait,
    ' ', '0', ' ', '0', ' ', '0', '\n'])

/-- The time of the user and that of waiting rise together. -/
theorem scanSysinfo_percent_half :
  0 ≤ (scanSysinfo (scanSysinfo SysInfo.init (readCounters '1' '1'))
      (readCounters '2' '2')).globalCpuPercent
    ∧ (scanSysinfo (scanSysinfo SysInfo.init (readCounters '1' '1'))
      (readCounters '2' '2')).globalCpuPercent ≤ 100
  := by
  apply @scanSysinfo_percent [readCounters '1' '1', readCounters '2' '2']
  · decide
  · exact ⟨by decide, by decide, trivial⟩
  · simp

/-- The time of waiting falls by six while that of the user rises by seven. -/
theorem not_scanSysinfo_percent_waiting :
  (∀ r ∈ [readCounters '0' '6', readCounters '7' '0'], ∀ c ∈ r.counters, c.Small)
    ∧ ([readCounters '0' '6', readCounters '7' '0'].foldl scanSysinfo
      SysInfo.init).globalCpuPercent = 700
  := by
  decide

end LnxCad
