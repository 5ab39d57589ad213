import LnxCad.Proc.History

/-!
# The lists of the task manager

At the end of a scan each list holds the first fifteen records, by its key, of those that are
offered to it: the ones that are not blacklisted, and for the search the ones among them whose
name has the text in it.  Records of the same key stand in the order in which they were met.
-/

namespace LnxCad

/-- The records a scan makes. -/
def scanRecords (u : ScanSetup) (s : ProcSnapshot) (t : ProcTables) : List ProcessInfo :=
  (scanned u s).map (recordOf u s t)

/-- The records that may be listed. -/
def listable (ps : List ProcessInfo) : List ProcessInfo :=
  ps.filter fun p => !isProcessBlacklisted p.name

/-- An array holds the first fifteen of some records, with their number beside it. -/
def TopTable.IsTop (key : ProcessInfo → ℤ) (t : TopTable) (ps : List ProcessInfo) : Prop :=
  t.top = (TopList.sortDesc key ps).take maxTopProcs ∧ t.num = min maxTopProcs ps.length

theorem lastKey_eq (key : ProcessInfo → ℤ) (top : List ProcessInfo) :
  lastKey key top = TopList.lastKey key maxTopProcs (-1) top
  := by
  unfold lastKey TopList.lastKey
  cases top[maxTopProcs - 1]? with
  | none => rfl
  | some q => rfl

theorem insertTop_eq_offer (key : ProcessInfo → ℤ) (p : ProcessInfo) (top : List ProcessInfo) :
  insertTop key p top = TopList.offer key maxTopProcs (-1) p top
  := by
  rw [insertTop, TopList.offer, lastKey_eq]
  rfl

/-- An array that stands for what is left of some records offered to an empty list holds the
first of them. -/
theorem TopTable.Lists.isTop {key : ProcessInfo → ℤ} {t : TopTable} {ps : List ProcessInfo}
    (h : t.Lists key (ps.foldl (fun top p => insertTop key p top) []))
    (hkeys : ∀ p ∈ ps, 0 ≤ key p) :
  t.IsTop key ps
  := by
  have hfold : ps.foldl (fun top p => insertTop key p top) []
      = (TopList.sortDesc key ps).take maxTopProcs := by
    simp only [insertTop_eq_offer]
    apply TopList.foldl_offer (by decide)
    intro p hp
    have := hkeys p hp
    omega
  rw [hfold] at h
  constructor
  · exact h.top_eq
  · rw [h.num, List.length_take, TopList.length_sortDesc]

/-- Records of the same key stand in a list in the order in which they were met, the first ones
first. -/
theorem TopTable.IsTop.filter_prefix {key : ProcessInfo → ℤ} {t : TopTable} {ps : List ProcessInfo}
    (h : t.IsTop key ps) (b : ℤ) :
  t.top.filter (fun p => key p = b) <+: ps.filter (fun p => key p = b)
  := by
  rw [h.1, ← TopList.filter_sortDesc ps]
  exact (List.take_prefix _ _).filter _

/-- A list holds records that were offered to it. -/
theorem TopTable.IsTop.subset {key : ProcessInfo → ℤ} {t : TopTable} {ps : List ProcessInfo}
    (h : t.IsTop key ps) :
  t.top ⊆ ps
  := by
  intro p hp
  rw [h.1] at hp
  exact TopList.mem_sortDesc.mp (List.mem_of_mem_take hp)

/-! ### One scan -/

/-- The lists are what some records that were offered to them leave. -/
structure Procs.Offered (u : ScanSetup) (r : Procs) (ps : List ProcessInfo) : Prop where
  mem : r.topProcsMem
    = (listable ps).foldl (fun top p => insertTop ProcessInfo.rssPages p top) []
  cpu : r.topProcsCpu
    = (listable ps).foldl (fun top p => insertTop ProcessInfo.cpuPercent p top) []
  search : r.topProcsSearch
    = ((listable ps).filter (isSearched u)).foldl
      (fun top p => insertTop ProcessInfo.rssPages p top) []

/-- The record of an entry is offered to the lists. -/
theorem scanEntry_offered {u : ScanSetup} {r : Procs} {ps : List ProcessInfo}
    (h : r.Offered u ps) (prev : Hist) (prevScanMs deltaMs : ℕ) (e : ProcEntry) :
  (scanEntry u prev prevScanMs deltaMs r e).Offered u
    (ps ++ ([e].filter (IsScanned u)).map (processInfo u prev prevScanMs deltaMs))
  := by
  rw [scanEntry_eq]
  by_cases hscanned : IsScanned u e
  case neg =>
    rw [if_neg hscanned, List.filter_cons_of_neg (by simpa using hscanned)]
    simpa using h
  case pos =>
    rw [if_pos hscanned, List.filter_cons_of_pos (by simpa using hscanned)]
    rw [List.filter_nil, List.map_cons, List.map_nil]
    generalize processInfo u prev prevScanMs deltaMs e = p
    dsimp only
    by_cases hblack : isProcessBlacklisted p.name = true
    · have hlist : listable (ps ++ [p]) = listable ps := by simp [listable, hblack]
      rw [if_pos hblack]
      exact ⟨by rw [hlist]; exact h.mem, by rw [hlist]; exact h.cpu, by rw [hlist]; exact h.search⟩
    · have hlist : listable (ps ++ [p]) = listable ps ++ [p] := by simp [listable, hblack]
      rw [if_neg hblack]
      constructor
      case mem =>
        rw [hlist, List.foldl_append, ← h.mem]
        rfl
      case cpu =>
        rw [hlist, List.foldl_append, ← h.cpu]
        rfl
      case search =>
        rw [hlist, List.filter_append]
        dsimp only
        by_cases hsearched : isSearched u p = true
        · rw [if_pos hsearched, List.filter_cons_of_pos hsearched, List.foldl_append, ← h.search]
          rfl
        · rw [if_neg hsearched, List.filter_cons_of_neg hsearched, List.filter_nil, List.append_nil]
          exact h.search

/-- All the records of a scan are offered to the lists. -/
theorem foldl_scanEntry_offered {u : ScanSetup} {r : Procs} {ps : List ProcessInfo}
    (h : r.Offered u ps) (prev : Hist) (prevScanMs deltaMs : ℕ) (es : List ProcEntry) :
  (es.foldl (scanEntry u prev prevScanMs deltaMs) r).Offered u
    (ps ++ (es.filter (IsScanned u)).map (processInfo u prev prevScanMs deltaMs))
  := by
  induction es generalizing r ps with
  | nil => simpa using h
  | cons e es ih =>
      have hnext := ih (scanEntry_offered h prev prevScanMs deltaMs e)
      rw [List.append_assoc, ← List.map_append, ← List.filter_append, List.singleton_append] at hnext
      exact hnext

/-- The arrays of a scan stand for what its records leave of empty lists. -/
theorem scanTables_lists (u : ScanSetup) (k : ScanStack) {s : ProcSnapshot}
    (hopen : s.entries ≠ none) (t : ProcTables) :
  (scanTables u k s t).topProcsMem.Lists ProcessInfo.rssPages
      ((listable (scanRecords u s t)).foldl (fun top p => insertTop ProcessInfo.rssPages p top) [])
    ∧ (scanTables u k s t).topProcsCpu.Lists ProcessInfo.cpuPercent
      ((listable (scanRecords u s t)).foldl (fun top p => insertTop ProcessInfo.cpuPercent p top) [])
    ∧ (scanTables u k s t).topProcsSearch.Lists ProcessInfo.rssPages
      (((listable (scanRecords u s t)).filter (isSearched u)).foldl
        (fun top p => insertTop ProcessInfo.rssPages p top) [])
  := by
  obtain ⟨entries, hentries⟩ := Option.ne_none_iff_exists'.mp hopen
  have hhist : t.currentHist.table = t.currentHist.table := rfl
  have hrefines := foldl_tableEntry_refines hhist u t.prevScanMs
    (deltaMs s.currentMs t.prevScanMs) (k.refines t.prevHist 0) entries
  have hempty : Procs.Offered u { Procs.init with prevScanMs := 0 } [] := ⟨rfl, rfl, rfl⟩
  have hoffered := foldl_scanEntry_offered hempty t.currentHist t.prevScanMs
    (deltaMs s.currentMs t.prevScanMs) entries
  have hrecords : scanRecords u s t = [] ++ (entries.filter (IsScanned u)).map
      (processInfo u t.currentHist t.prevScanMs (deltaMs s.currentMs t.prevScanMs)) := by
    rw [scanRecords, scanned, hentries]
    rfl
  rw [← hrecords] at hoffered
  unfold scanTables
  rw [hentries, ← hoffered.mem, ← hoffered.cpu, ← hoffered.search]
  exact ⟨hrefines.mem, hrefines.cpu, hrefines.search⟩

/-- The records a search asks for. -/
def found (sortModeCpu searchLen : ℕ) (searchBuffer : Bytes) (ps : List ProcessInfo) :
    List ProcessInfo :=
  if sortModeCpu = 2 ∧ 3 ≤ searchLen then
    ps.filter fun p => strcasestr p.name (cstr searchBuffer)
  else []

theorem filter_isSearched (myPid logicalCores sortModeCpu searchLen : ℕ) (searchBuffer : Bytes)
    (ps : List ProcessInfo) :
  ps.filter (isSearched ⟨myPid, logicalCores, searchNeedle sortModeCpu searchLen searchBuffer⟩)
    = found sortModeCpu searchLen searchBuffer ps
  := by
  unfold found searchNeedle
  split
  case isTrue => rfl
  case isFalse =>
    rw [List.filter_eq_nil_iff]
    intro p _ hp
    cases hp

/-- At the end of a scan whose records have no negative keys, each list holds the first fifteen
of the records it is for. -/
theorem scanTables_isTop
    {u : ScanSetup} {sortModeCpu searchLen : ℕ} {searchBuffer : Bytes}
    (hsearch : u.search = searchNeedle sortModeCpu searchLen searchBuffer) (k : ScanStack)
    {s : ProcSnapshot} (hopen : s.entries ≠ none) (t : ProcTables)
    (hrss : ∀ p ∈ scanRecords u s t, 0 ≤ p.rssPages)
    (hcpu : ∀ p ∈ scanRecords u s t, 0 ≤ p.cpuPercent) :
  (scanTables u k s t).topProcsMem.IsTop ProcessInfo.rssPages (listable (scanRecords u s t))
    ∧ (scanTables u k s t).topProcsCpu.IsTop ProcessInfo.cpuPercent (listable (scanRecords u s t))
    ∧ (scanTables u k s t).topProcsSearch.IsTop ProcessInfo.rssPages
      (found sortModeCpu searchLen searchBuffer (listable (scanRecords u s t)))
  := by
  obtain ⟨hm, hc, hs⟩ := scanTables_lists u k hopen t
  refine ⟨hm.isTop ?_, hc.isTop ?_, ?_⟩
  · intro p hp
    exact hrss p (List.mem_of_mem_filter hp)
  · intro p hp
    exact hcpu p (List.mem_of_mem_filter hp)
  · have hfound : (listable (scanRecords u s t)).filter (isSearched u)
        = found sortModeCpu searchLen searchBuffer (listable (scanRecords u s t)) := by
      rw [← filter_isSearched u.myPid u.logicalCores, ← hsearch]
    rw [← hfound]
    apply hs.isTop
    intro p hp
    exact hrss p (List.mem_of_mem_filter (List.mem_of_mem_filter hp))

/-- Of three processes, of which the one with the most memory is blacklisted, the list by memory
holds the other two, those with more memory in front. -/
theorem scanTables_isTop_three :
  (scanTables fourCores zeroStack
      ⟨some [⟨1, chars ['c', 'a', 't'], 83, 0, 10, 0⟩, ⟨2, chars ['d', 'b', 'u', 's'], 83, 0, 90, 0⟩,
        ⟨3, chars ['v', 'i'], 83, 0, 40, 0⟩], 1000⟩ noTables).topProcsMem.top.map ProcessInfo.pid
    = [3, 1]
  := by
  have hmem := (@scanTables_isTop fourCores 0 0 [] rfl zeroStack
    ⟨some [⟨1, chars ['c', 'a', 't'], 83, 0, 10, 0⟩, ⟨2, chars ['d', 'b', 'u', 's'], 83, 0, 90, 0⟩,
      ⟨3, chars ['v', 'i'], 83, 0, 40, 0⟩], 1000⟩ (by decide) noTables (by decide) (by decide)).1.1
  rw [hmem]
  decide

end LnxCad
