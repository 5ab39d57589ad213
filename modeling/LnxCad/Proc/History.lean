import LnxCad.Proc.Tables

/-!
# The history of processor times

The two histories are hash tables: a history finds the first 16384 processes that were put into
it and no other.  So the processor time of a process since the scan before is taken from the
sample of that scan, and a process whose sample did not fit is charged all it ever used.
-/

namespace LnxCad

/-! ### Histories as tables -/

/-- The table a history stands for. -/
def Hist.table (h : Hist) : Probing.Table ℕ ℕ :=
  fun i => if (h i).pid = 0 then none else some ((h i).pid, (h i).cpuTime)

/-- The home of a process. -/
def slotOf (pid : ℕ) : ℕ := pid % histSize

theorem slotOf_lt (pid : ℕ) :
  slotOf pid < histSize
  := Nat.mod_lt _ (by decide)

/-- The processor times that are left in the slots do not matter. -/
theorem Hist.table_clear (h : Hist) :
  h.clear.table = fun _ => none
  := rfl

theorem Hist.find_eq (h : Hist) (pid : ℕ) (fuel i : ℕ) :
  h.find pid fuel i = (Probing.find histSize h.table pid fuel i).getD 0
  := by
  induction fuel generalizing i with
  | zero => rfl
  | succ fuel ih =>
      rw [Hist.find, Probing.find, Hist.table]
      by_cases hfree : (h i).pid = 0
      · rw [if_pos hfree, if_pos hfree]
        rfl
      · rw [if_neg hfree, if_neg hfree]
        dsimp only
        split
        · rfl
        · exact ih _

theorem Hist.table_insert (h : Hist) {pid : ℕ} (hpid : pid ≠ 0) (cpuTime fuel i : ℕ) :
  (h.insert pid cpuTime fuel i).table = Probing.insert histSize h.table pid cpuTime fuel i
  := by
  induction fuel generalizing i with
  | zero => rfl
  | succ fuel ih =>
      have hslot : h.table i = none ↔ (h i).pid = 0 := by simp [Hist.table]
      rw [Probing.insert]
      by_cases hfree : (h i).pid = 0
      · have hinsert : h.insert pid cpuTime (fuel + 1) i
            = fun j => if j = i then ⟨pid, cpuTime⟩ else h j := if_pos hfree
        rw [if_pos (hslot.mpr hfree), hinsert]
        funext j
        by_cases hj : j = i
        · simp [Hist.table, hj, hpid]
        · simp [Hist.table, hj]
      · have hinsert : h.insert pid cpuTime (fuel + 1) i
            = h.insert pid cpuTime fuel ((i + 1) % histSize) := if_neg hfree
        rw [if_neg (mt hslot.mp hfree), hinsert]
        exact ih _

/-- What a search finds depends on the table only. -/
theorem Hist.find_congr {h h' : Hist} (heq : h.table = h'.table) (pid fuel i : ℕ) :
  h.find pid fuel i = h'.find pid fuel i
  := by rw [Hist.find_eq, Hist.find_eq, heq]

/-! ### The scan and its abstraction -/

/-- The tables of a scan stand for lists and a history. -/
structure ScanTables.Refines (t : ScanTables) (r : Procs) : Prop where
  mem : t.mem.Lists ProcessInfo.rssPages r.topProcsMem
  cpu : t.cpu.Lists ProcessInfo.cpuPercent r.topProcsCpu
  search : t.search.Lists ProcessInfo.rssPages r.topProcsSearch
  hist : t.currentHist.table = r.currentHist.table

/-- The tables kept between scans stand for lists and a history. -/
structure ProcTables.Refines (t : ProcTables) (r : Procs) : Prop where
  mem : t.topProcsMem.Lists ProcessInfo.rssPages r.topProcsMem
  cpu : t.topProcsCpu.Lists ProcessInfo.cpuPercent r.topProcsCpu
  search : t.topProcsSearch.Lists ProcessInfo.rssPages r.topProcsSearch
  hist : t.currentHist.table = r.currentHist.table
  prevScanMs : t.prevScanMs = r.prevScanMs

theorem ScanStack.refines (k : ScanStack) (h : Hist) (ms : ℕ) :
  (k.tables h.clear).Refines { Procs.init with prevScanMs := ms }
  := by
  constructor
  · exact @TopTable.Lists.blank _ (fun p => { p with rssPages := -1 }) (fun _ => rfl) k.mem
  · exact @TopTable.Lists.blank _ (fun p => { p with cpuPercent := -1 }) (fun _ => rfl) k.cpu
  · exact @TopTable.Lists.blank _ (fun p => { p with rssPages := -1 }) (fun _ => rfl) k.search
  · exact h.table_clear

theorem processInfo_congr {prev prev' : Hist} (heq : prev.table = prev'.table) (u : ScanSetup)
    (prevScanMs deltaMs : ℕ) (e : ProcEntry) :
  processInfo u prev prevScanMs deltaMs e = processInfo u prev' prevScanMs deltaMs e
  := by
  unfold processInfo deltaTicks
  rw [Hist.find_congr heq]

/-- An entry of the scan of lists, by the conditions that the tables use. -/
theorem scanEntry_eq (u : ScanSetup) (prev : Hist) (prevScanMs deltaMs : ℕ) (r : Procs)
    (e : ProcEntry) :
  scanEntry u prev prevScanMs deltaMs r e
    = if IsScanned u e then
        let p := processInfo u prev prevScanMs deltaMs e
        let r := { r with
          currentHist := r.currentHist.insert e.pid e.cpuTime histSize (e.pid % histSize) }
        if isProcessBlacklisted p.name then r
        else { r with
          topProcsMem := insertTop ProcessInfo.rssPages p r.topProcsMem
          topProcsCpu := insertTop ProcessInfo.cpuPercent p r.topProcsCpu
          topProcsSearch :=
            if isSearched u p then insertTop ProcessInfo.rssPages p r.topProcsSearch
            else r.topProcsSearch }
      else r
  := by
  unfold scanEntry isSearched
  cases u.search with
  | none => rfl
  | some needle => rfl

/-- One entry keeps what the tables stand for. -/
theorem tableEntry_refines {prev prev' : Hist} (hprev : prev.table = prev'.table) (u : ScanSetup)
    (prevScanMs deltaMs : ℕ) {t : ScanTables} {r : Procs} (h : t.Refines r) (e : ProcEntry) :
  (tableEntry u prev prevScanMs deltaMs t e).Refines (scanEntry u prev' prevScanMs deltaMs r e)
  := by
  rw [tableEntry, scanEntry_eq]
  by_cases hscanned : IsScanned u e
  case neg =>
    rw [if_neg hscanned, if_neg hscanned]
    exact h
  case pos =>
    rw [if_pos hscanned, if_pos hscanned, processInfo_congr hprev]
    dsimp only
    have hhist : (t.currentHist.insert e.pid e.cpuTime histSize (e.pid % histSize)).table
        = (r.currentHist.insert e.pid e.cpuTime histSize (e.pid % histSize)).table := by
      rw [Hist.table_insert _ hscanned.2, Hist.table_insert _ hscanned.2, h.hist]
    split
    · exact ⟨h.mem, h.cpu, h.search, hhist⟩
    · refine ⟨h.mem.insert _, h.cpu.insert _, ?_, hhist⟩
      dsimp only
      split
      · exact h.search.insert _
      · exact h.search

/-- All the entries keep what the tables stand for. -/
theorem foldl_tableEntry_refines {prev prev' : Hist} (hprev : prev.table = prev'.table)
    (u : ScanSetup) (prevScanMs deltaMs : ℕ) {t : ScanTables} {r : Procs} (h : t.Refines r)
    (es : List ProcEntry) :
  (es.foldl (tableEntry u prev prevScanMs deltaMs) t).Refines
    (es.foldl (scanEntry u prev' prevScanMs deltaMs) r)
  := by
  induction es generalizing t r with
  | nil => exact h
  | cons e es ih => exact ih (tableEntry_refines hprev u prevScanMs deltaMs h e)

theorem scanEntry_prevScanMs (u : ScanSetup) (prev : Hist) (prevScanMs deltaMs : ℕ) (r : Procs)
    (e : ProcEntry) :
  (scanEntry u prev prevScanMs deltaMs r e).prevScanMs = r.prevScanMs
  := by
  rw [scanEntry_eq]
  dsimp only
  split
  · split
    · rfl
    · rfl
  · rfl

/-- A scan with its tables does what the scan of lists does. -/
theorem scanTables_refines (u : ScanSetup) (k : ScanStack) (s : ProcSnapshot) {t : ProcTables}
    {r : Procs} (h : t.Refines r) :
  (scanTables u k s t).Refines (scanProcesses u s r)
  := by
  unfold scanTables scanProcesses
  cases s.entries with
  | none => exact h
  | some entries =>
      dsimp only
      rw [h.prevScanMs]
      have hms : (entries.foldl (scanEntry u r.currentHist r.prevScanMs
          (deltaMs s.currentMs r.prevScanMs)) { Procs.init with prevScanMs := s.currentMs }).prevScanMs
          = s.currentMs := by
        apply List.foldlRecOn (motive := fun b : Procs => b.prevScanMs = s.currentMs)
        · rfl
        · intro b hb e _
          rw [scanEntry_prevScanMs, hb]
      have hall := foldl_tableEntry_refines h.hist u r.prevScanMs
        (deltaMs s.currentMs r.prevScanMs) (k.refines t.prevHist s.currentMs) entries
      exact ⟨hall.mem, hall.cpu, hall.search, hall.hist, hms.symm⟩

/-! ### What the next scan finds -/

/-- The entries of `/proc` that are scanned. -/
def scanned (u : ScanSetup) (s : ProcSnapshot) : List ProcEntry :=
  (s.entries.getD []).filter (IsScanned u)

/-- The entries that are scanned, each with its `delta_ticks`. -/
def scanDeltas (u : ScanSetup) (s : ProcSnapshot) (t : ProcTables) : List (ProcEntry × ℕ) :=
  (scanned u s).map fun e => (e, deltaTicks t.currentHist t.prevScanMs e)

/-- The samples a scan puts into its history. -/
def samples (u : ScanSetup) (es : List ProcEntry) : List (ℕ × ℕ) :=
  (es.filter (IsScanned u)).map fun e => (e.pid, e.cpuTime)

theorem mem_samples {u : ScanSetup} {es : List ProcEntry} {pid cpuTime : ℕ} :
  (pid, cpuTime) ∈ samples u es
    ↔ ∃ e ∈ es, IsScanned u e ∧ e.pid = pid ∧ e.cpuTime = cpuTime
  := by
  simp [samples, and_assoc]

theorem nodup_samples {u : ScanSetup} {es : List ProcEntry}
    (h : (es.map ProcEntry.pid).Nodup) :
  ((samples u es).map Prod.fst).Nodup
  := by
  have hfst : (samples u es).map Prod.fst = (es.filter (IsScanned u)).map ProcEntry.pid := by
    rw [samples, List.map_map]
    rfl
  rw [hfst]
  exact h.sublist (List.filter_sublist.map _)

theorem tableEntry_hist (u : ScanSetup) (prev : Hist) (prevScanMs deltaMs : ℕ) (t : ScanTables)
    (e : ProcEntry) :
  (tableEntry u prev prevScanMs deltaMs t e).currentHist
    = if IsScanned u e then t.currentHist.insert e.pid e.cpuTime histSize (e.pid % histSize)
      else t.currentHist
  := by
  unfold tableEntry
  split
  · dsimp only
    split
    · rfl
    · rfl
  · rfl

/-- A scan puts its samples into a history that was empty. -/
theorem scanTables_table (u : ScanSetup) (k : ScanStack) (es : List ProcEntry) (ms : ℕ)
    (t : ProcTables) :
  (scanTables u k ⟨some es, ms⟩ t).currentHist.table
    = Probing.insertAll histSize slotOf (fun _ => none) (samples u es)
  := by
  have hfold : ∀ (es : List ProcEntry) (a : ScanTables),
      (es.foldl (tableEntry u t.currentHist t.prevScanMs (deltaMs ms t.prevScanMs))
        a).currentHist.table
        = Probing.insertAll histSize slotOf a.currentHist.table (samples u es) := by
    intro es
    induction es with
    | nil => exact fun _ => rfl
    | cons e es ih =>
        intro a
        rw [List.foldl_cons, ih, tableEntry_hist, samples, samples]
        by_cases hscanned : IsScanned u e
        · rw [if_pos hscanned, Hist.table_insert _ hscanned.2,
            List.filter_cons_of_pos (by simpa using hscanned), List.map_cons]
          rfl
        · rw [if_neg hscanned, List.filter_cons_of_neg (by simpa using hscanned)]
  rw [← t.prevHist.table_clear]
  exact hfold es _

section Next

variable {u : ScanSetup} {k : ScanStack} {t : ProcTables} {first : List ProcEntry} {ms : ℕ}

/-- The next scan finds a sample that fitted. -/
theorem find_of_mem_samples (hnodup : (first.map ProcEntry.pid).Nodup) {pid cpuTime : ℕ}
    (h : (pid, cpuTime) ∈ (samples u first).take histSize) :
  (scanTables u k ⟨some first, ms⟩ t).currentHist.find pid histSize (pid % histSize) = cpuTime
  := by
  have hfind := (Probing.find_insertAll slotOf_lt (nodup_samples (u := u) hnodup) pid).1 cpuTime h
  rw [Hist.find_eq, scanTables_table]
  rw [slotOf] at hfind
  rw [hfind]
  rfl

/-- The next scan finds nothing of a process without a sample. -/
theorem find_of_notMem_samples (hnodup : (first.map ProcEntry.pid).Nodup) {pid : ℕ}
    (h : ∀ cpuTime, (pid, cpuTime) ∉ (samples u first).take histSize) :
  (scanTables u k ⟨some first, ms⟩ t).currentHist.find pid histSize (pid % histSize) = 0
  := by
  have hfind := (Probing.find_insertAll slotOf_lt (nodup_samples (u := u) hnodup) pid).2 h
  rw [Hist.find_eq, scanTables_table]
  rw [slotOf] at hfind
  rw [hfind]
  rfl

theorem prevScanMs_scanTables :
  (scanTables u k ⟨some first, ms⟩ t).prevScanMs = ms
  := rfl

/-- A process without a sample is charged all its processor time. -/
theorem deltaTicks_of_notMem_samples (hnodup : (first.map ProcEntry.pid).Nodup) {e : ProcEntry}
    (h : ∀ cpuTime, (e.pid, cpuTime) ∉ (samples u first).take histSize) :
  deltaTicks (scanTables u k ⟨some first, ms⟩ t).currentHist ms e = if ms ≠ 0 then e.cpuTime else 0
  := by
  rw [deltaTicks, find_of_notMem_samples hnodup h]
  simp

/-- The processor time of a process is that since its sample of the scan before, or nothing if
it went back; without a sample it is all its processor time. -/
theorem scanDeltas_baseline
    {u' : ScanSetup} (hme : u'.myPid = u.myPid) (hms : ms ≠ 0)
    (hnodup : (first.map ProcEntry.pid).Nodup) (hsize : first.length ≤ histSize)
    {second : List ProcEntry} {ms' : ℕ} {e : ProcEntry} {d : ℕ}
    (hd : (e, d) ∈ scanDeltas u' ⟨some second, ms'⟩ (scanTables u k ⟨some first, ms⟩ t)) :
  (∀ e₁ ∈ first, e₁.pid = e.pid →
      d = if e₁.cpuTime ≤ e.cpuTime then e.cpuTime - e₁.cpuTime else 0)
    ∧ ((∀ e₁ ∈ first, e₁.pid ≠ e.pid) → d = e.cpuTime)
  := by
  obtain ⟨e', he', heq⟩ := List.mem_map.mp hd
  obtain ⟨rfl, rfl⟩ := Prod.mk.inj heq
  have hscanned : IsScanned u e' := by
    have := (List.mem_filter.mp he').2
    simpa [IsScanned, hme] using this
  have hfits : (samples u first).take histSize = samples u first := by
    apply List.take_of_length_le
    rw [samples, List.length_map]
    exact (List.length_filter_le _ _).trans hsize
  rw [prevScanMs_scanTables]
  constructor
  · intro e₁ he₁ hpid
    have hsample : (e'.pid, e₁.cpuTime) ∈ (samples u first).take histSize := by
      rw [hfits, mem_samples]
      refine ⟨e₁, he₁, ?_, hpid, rfl⟩
      rw [IsScanned, hpid]
      exact hscanned
    rw [deltaTicks, find_of_mem_samples hnodup hsample]
    simp [hms]
  · intro habsent
    rw [deltaTicks_of_notMem_samples hnodup, if_pos hms]
    intro cpuTime hmem
    rw [hfits, mem_samples] at hmem
    obtain ⟨e₁, he₁, -, hpid, -⟩ := hmem
    exact habsent e₁ he₁ hpid

end Next

/-- A scan before which nothing was kept. -/
def noTables : ProcTables :=
  ⟨⟨[], 0⟩, ⟨[], 0⟩, ⟨[], 0⟩, Hist.empty, Hist.empty, 0⟩

/-- A stack of zeros. -/
def zeroStack : ScanStack :=
  ⟨fun _ => ⟨0, [], 0, 0, 0, 0⟩, fun _ => ⟨0, [], 0, 0, 0, 0⟩, fun _ => ⟨0, [], 0, 0, 0, 0⟩⟩

/-- A scan by process 20000 on four cores, without a search. -/
def fourCores : ScanSetup := ⟨20000, 4, none⟩

/-- An entry with a processor time only. -/
def plainEntry (pid cpuTime : ℕ) : ProcEntry := ⟨pid, [], 83, cpuTime, 0, 0⟩

/-- Of two processes with the same home the second one is found behind the first. -/
theorem scanDeltas_baseline_sameHome :
  deltaTicks (scanTables fourCores zeroStack ⟨some [plainEntry 1 100, plainEntry 16385 50], 1000⟩
      noTables).currentHist 1000 (plainEntry 16385 80) = 30
  := by
  have hd : (plainEntry 16385 80, deltaTicks (scanTables fourCores zeroStack
      ⟨some [plainEntry 1 100, plainEntry 16385 50], 1000⟩ noTables).currentHist 1000
      (plainEntry 16385 80)) ∈ scanDeltas fourCores ⟨some [plainEntry 16385 80], 2000⟩
        (scanTables fourCores zeroStack ⟨some [plainEntry 1 100, plainEntry 16385 50], 1000⟩
          noTables) :=
    List.mem_map.mpr ⟨plainEntry 16385 80, by decide, rfl⟩
  exact (scanDeltas_baseline rfl (by decide) (by decide) (by decide) hd).1 (plainEntry 16385 50)
    (by simp) rfl

/-! ### Processes that do not fit -/

/-- The record a scan makes of an entry. -/
def recordOf (u : ScanSetup) (s : ProcSnapshot) (t : ProcTables) : ProcEntry → ProcessInfo :=
  processInfo u t.currentHist t.prevScanMs (deltaMs s.currentMs t.prevScanMs)

/-- A share is shown as zero exactly if it is less than one percent of a core for each core. -/
theorem cpuPercent_eq_zero_iff (logicalCores ticks ms : ℕ) :
  cpuPercent logicalCores ticks ms = 0
    ↔ (toInt32 (ticks * 1000 % 2 ^ 64 / ms)).natAbs < max 1 logicalCores
  := by
  unfold cpuPercent
  dsimp only
  split
  case isTrue hcores =>
    have hdiv : ∀ v : ℤ, (v.tdiv logicalCores).natAbs = v.natAbs / logicalCores := by
      intro v
      rw [Int.natAbs_tdiv]
      rfl
    rw [← Int.natAbs_eq_zero, hdiv, Nat.div_eq_zero_iff]
    omega
  case isFalse hcores => omega

/-- A process whose sample did not fit into the history has no sample in it. -/
theorem notMem_samples_of_lost {u : ScanSetup} {first : List ProcEntry} {ms : ℕ}
    (hnodup : (first.map ProcEntry.pid).Nodup) {e₁ : ProcEntry}
    (hlost : e₁ ∈ (scanned u ⟨some first, ms⟩).drop histSize) (cpuTime : ℕ) :
  (e₁.pid, cpuTime) ∉ (samples u first).take histSize
  := by
  intro hmem
  rw [samples, ← List.map_take] at hmem
  obtain ⟨e₂, he₂, heq⟩ := List.mem_map.mp hmem
  have hpids : ((first.filter (IsScanned u)).map ProcEntry.pid).Nodup :=
    hnodup.sublist (List.filter_sublist.map _)
  rw [← List.take_append_drop histSize (first.filter (IsScanned u)), List.map_append] at hpids
  exact (List.nodup_append.mp hpids).2.2 e₂.pid (List.mem_map.mpr ⟨e₂, he₂, rfl⟩) e₁.pid
    (List.mem_map.mpr ⟨e₁, hlost, rfl⟩) (Prod.mk.inj heq).1

/-- Such a process is shown with all its processor time. -/
theorem recordOf_lost
    {u : ScanSetup} {first : List ProcEntry} {ms : ℕ} (hnodup : (first.map ProcEntry.pid).Nodup)
    {e₁ e : ProcEntry} (hlost : e₁ ∈ (scanned u ⟨some first, ms⟩).drop histSize)
    (hpid : e₁.pid = e.pid) (k : ScanStack) (t : ProcTables) (u' : ScanSetup) (s : ProcSnapshot) :
  (recordOf u' s (scanTables u k ⟨some first, ms⟩ t) e).cpuPercent
    = cpuPercent u'.logicalCores (if ms ≠ 0 then e.cpuTime else 0) (deltaMs s.currentMs ms)
  := by
  have hnone := notMem_samples_of_lost hnodup hlost
  rw [hpid] at hnone
  rw [← deltaTicks_of_notMem_samples (u := u) (k := k) (t := t) hnodup hnone]
  rfl

/-- A process whose sample did not fit into the history is shown with nothing in the next scan
exactly if all its processor time is less than one percent of a core for each core, in the time
since the scan before. -/
theorem recordOf_lost_iff
    {u : ScanSetup} {first : List ProcEntry} {ms : ℕ} (hnodup : (first.map ProcEntry.pid).Nodup)
    {e₁ e : ProcEntry} (hlost : e₁ ∈ (scanned u ⟨some first, ms⟩).drop histSize)
    (hpid : e₁.pid = e.pid) (k : ScanStack) (t : ProcTables) (u' : ScanSetup) (s : ProcSnapshot) :
  (recordOf u' s (scanTables u k ⟨some first, ms⟩ t) e).cpuPercent = 0
    ↔ ms = 0 ∨ (toInt32 (e.cpuTime * 1000 % 2 ^ 64 / deltaMs s.currentMs ms)).natAbs
      < max 1 u'.logicalCores
  := by
  have hzero : toInt32 0 = 0 := rfl
  rw [recordOf_lost hnodup hlost hpid, cpuPercent_eq_zero_iff]
  by_cases hms : ms = 0
  · rw [if_neg (not_not.mpr hms), Nat.zero_mul, Nat.zero_mod, Nat.zero_div, hzero, Int.natAbs_zero]
    apply iff_of_true
    · exact lt_of_lt_of_le Nat.zero_lt_one (le_max_left _ _)
    · exact Or.inl hms
  · rw [if_pos hms]
    constructor
    · exact Or.inr
    · exact fun h => h.resolve_left hms

/-- One process more than there are slots, each with the same processor time. -/
def crowd (cpuTime : ℕ) : List ProcEntry :=
  (List.range' 1 (histSize + 1)).map fun pid => plainEntry pid cpuTime

theorem nodup_crowd (cpuTime : ℕ) :
  ((crowd cpuTime).map ProcEntry.pid).Nodup
  := by
  have hpids : (crowd cpuTime).map ProcEntry.pid = List.range' 1 (histSize + 1) := by
    rw [crowd, List.map_map]
    exact List.map_id _
  rw [hpids]
  exact List.nodup_range'

/-- The last process of the crowd does not fit. -/
theorem mem_drop_crowd (cpuTime ms : ℕ) :
  plainEntry 16385 cpuTime ∈ (scanned fourCores ⟨some (crowd cpuTime), ms⟩).drop histSize
  := by
  have hall : scanned fourCores ⟨some (crowd cpuTime), ms⟩ = crowd cpuTime := by
    apply List.filter_eq_self.mpr
    intro e he
    obtain ⟨pid, hpid, rfl⟩ := List.mem_map.mp he
    obtain ⟨hlo, hhi⟩ := List.mem_range'_1.mp hpid
    have hsize : histSize = 16384 := rfl
    rw [decide_eq_true_eq]
    constructor
    · rintro (hme : pid = 20000)
      omega
    · rintro (hzero : pid = 0)
      omega
  rw [hall, crowd, ← List.map_drop, List.drop_range']
  apply List.mem_map.mpr
  refine ⟨16385, ?_, rfl⟩
  rw [List.mem_range'_1]
  have hsize : histSize = 16384 := rfl
  omega

/-- Three ticks of all the time are not seen in a second on four cores. -/
theorem recordOf_lost_iff_idle :
  (recordOf fourCores ⟨some (crowd 3), 2000⟩ (scanTables fourCores zeroStack
    ⟨some (crowd 3), 1000⟩ noTables) (plainEntry 16385 3)).cpuPercent = 0
  := by
  apply (recordOf_lost_iff (nodup_crowd 3) (mem_drop_crowd 3 1000) rfl _ _ _ _).mpr
  right
  decide

/-- A process that did nothing between two scans is shown with 125 percent, for five hundred
ticks that it used before. -/
theorem not_recordOf_lost_zero :
  plainEntry 16385 500 ∈ (scanned fourCores ⟨some (crowd 500), 1000⟩).drop histSize
    ∧ (recordOf fourCores ⟨some (crowd 500), 2000⟩ (scanTables fourCores zeroStack
      ⟨some (crowd 500), 1000⟩ noTables) (plainEntry 16385 500)).cpuPercent = 125
  := by
  refine ⟨mem_drop_crowd 500 1000, ?_⟩
  rw [recordOf_lost (nodup_crowd 500) (mem_drop_crowd 500 1000) rfl]
  decide

end LnxCad
