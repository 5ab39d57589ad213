import LnxCad.Lib.Probing
import LnxCad.Lib.TopList
import LnxCad.Proc.Scan

/-!
# The tables of the process scan

`scan_processes` keeps each of its lists in an array of fifteen slots with a counter beside it,
where `-1` is the key of a slot that is not filled yet.  The processor times stand in two hash
tables, which are exchanged at the start of a scan: the one filled last is searched, the other
one is cleared, though of its slots only the process numbers, and filled again.  Such a scan
does what `scanProcesses` says, in which the lists are lists and only one table is left.
-/

namespace LnxCad

/-! ### The lists -/

/-- One of the arrays `current_scan_mem`, `current_scan_cpu` and `current_scan_search` with its
counter. -/
structure TopTable where
  slots : List ProcessInfo
  num : ℕ

/-- The slots in use. -/
def TopTable.top (t : TopTable) : List ProcessInfo := t.slots.take t.num

/-- `insert_idx`, lowered while the key of the slot below is less. -/
def insertIdx (key : ProcessInfo → ℤ) (p : ProcessInfo) (slots : List ProcessInfo) : ℕ → ℕ
  | 0 => 0
  | i + 1 => if slots[i]?.any (fun q => key p > key q) then insertIdx key p slots i else i + 1

/-- A process is offered to an array: the slots from `insert_idx` on move down, and what was in
the last one is lost. -/
def TopTable.insert (key : ProcessInfo → ℤ) (p : ProcessInfo) (t : TopTable) : TopTable :=
  if t.slots[maxTopProcs - 1]?.any (fun q => key p > key q) then
    let i := insertIdx key p t.slots (maxTopProcs - 1)
    { slots := t.slots.take i ++ p :: (t.slots.drop i).dropLast
      num := if t.num < maxTopProcs then t.num + 1 else t.num }
  else t

/-- An array whose keys are set to `-1`, the other fields being what the stack holds. -/
def TopTable.blank (setKey : ProcessInfo → ProcessInfo) (stack : Fin maxTopProcs → ProcessInfo) :
    TopTable :=
  ⟨List.ofFn fun i => setKey (stack i), 0⟩

/-! ### The scan -/

/-- A history with every slot free, its processor times left as they are. -/
def Hist.clear (h : Hist) : Hist := fun i => { h i with pid := 0 }

/-- What `scan_processes` searches for, if it does. -/
def searchNeedle (sortModeCpu searchLen : ℕ) (searchBuffer : Bytes) : Option Bytes :=
  if sortModeCpu = 2 ∧ 3 ≤ searchLen then some (cstr searchBuffer) else none

/-- Whether a record is one the search asks for. -/
def isSearched (u : ScanSetup) (p : ProcessInfo) : Bool :=
  match u.search with
  | some needle => strcasestr p.name needle
  | none => false

/-- The arrays and `current_hist` during a scan. -/
structure ScanTables where
  mem : TopTable
  cpu : TopTable
  search : TopTable
  currentHist : Hist

/-- Whether an entry of `/proc` is scanned. -/
def IsScanned (u : ScanSetup) (e : ProcEntry) : Prop := e.pid ≠ u.myPid ∧ e.pid ≠ 0

instance (u : ScanSetup) : DecidablePred (IsScanned u) := fun e =>
  inferInstanceAs (Decidable (e.pid ≠ u.myPid ∧ e.pid ≠ 0))

/-- One entry of `/proc`. -/
def tableEntry (u : ScanSetup) (prev : Hist) (prevScanMs deltaMs : ℕ) (t : ScanTables)
    (e : ProcEntry) : ScanTables :=
  if IsScanned u e then
    let p := processInfo u prev prevScanMs deltaMs e
    let t := { t with
      currentHist := t.currentHist.insert e.pid e.cpuTime histSize (e.pid % histSize) }
    if isProcessBlacklisted p.name then t
    else { t with
      mem := t.mem.insert ProcessInfo.rssPages p
      cpu := t.cpu.insert ProcessInfo.cpuPercent p
      search := if isSearched u p then t.search.insert ProcessInfo.rssPages p else t.search }
  else t

/-- What the program keeps between scans: the lists and the two histories, of which
`currentHist` was filled last. -/
structure ProcTables where
  topProcsMem : TopTable
  topProcsCpu : TopTable
  topProcsSearch : TopTable
  currentHist : Hist
  prevHist : Hist
  prevScanMs : ℕ

/-- What the stack holds where the arrays of a scan are put. -/
structure ScanStack where
  mem : Fin maxTopProcs → ProcessInfo
  cpu : Fin maxTopProcs → ProcessInfo
  search : Fin maxTopProcs → ProcessInfo

/-- The arrays and the history to be filled, at the start of a scan. -/
def ScanStack.tables (k : ScanStack) (cleared : Hist) : ScanTables where
  mem := .blank (fun p => { p with rssPages := -1 }) k.mem
  cpu := .blank (fun p => { p with cpuPercent := -1 }) k.cpu
  search := .blank (fun p => { p with rssPages := -1 }) k.search
  currentHist := cleared

/-- `delta_ms`. -/
def deltaMs (currentMs prevScanMs : ℕ) : ℕ :=
  let delta := (currentMs + 2 ^ 64 - prevScanMs) % 2 ^ 64
  if delta = 0 then 1 else delta

/-- `scan_processes`: the table filled last becomes the one that is searched, and the other
one is cleared and filled. -/
def scanTables (u : ScanSetup) (k : ScanStack) (s : ProcSnapshot) (t : ProcTables) : ProcTables :=
  match s.entries with
  | none => t
  | some entries =>
      let r := entries.foldl
        (tableEntry u t.currentHist t.prevScanMs (deltaMs s.currentMs t.prevScanMs))
        (k.tables t.prevHist.clear)
      { topProcsMem := r.mem
        topProcsCpu := r.cpu
        topProcsSearch := r.search
        currentHist := r.currentHist
        prevHist := t.currentHist
        prevScanMs := s.currentMs }

/-! ### The lists an array stands for -/

/-- An array stands for a list: the slots in use are its entries, and those behind have the key
`-1`. -/
structure TopTable.Lists (key : ProcessInfo → ℤ) (t : TopTable) (top : List ProcessInfo) : Prop where
  num : t.num = top.length
  length : t.slots.length = maxTopProcs
  slots : ∃ rest, t.slots = top ++ rest ∧ ∀ q ∈ rest, key q = -1
  keys : ∀ q ∈ top, 0 ≤ key q

namespace TopTable.Lists

variable {key : ProcessInfo → ℤ} {t : TopTable} {top : List ProcessInfo}

/-- The list is the slots in use. -/
theorem top_eq (h : t.Lists key top) :
  t.top = top
  := by
  obtain ⟨rest, hslots, -⟩ := h.slots
  rw [TopTable.top, hslots, h.num, List.take_left]

theorem length_le (h : t.Lists key top) :
  top.length ≤ maxTopProcs
  := by
  obtain ⟨rest, hslots, -⟩ := h.slots
  have := h.length
  rw [hslots, List.length_append] at this
  omega

theorem blank {setKey : ProcessInfo → ProcessInfo} (hkey : ∀ p, key (setKey p) = -1)
    (stack : Fin maxTopProcs → ProcessInfo) :
  (TopTable.blank setKey stack).Lists key []
  := by
  constructor
  · rfl
  · exact List.length_ofFn
  · refine ⟨List.ofFn fun i => setKey (stack i), rfl, ?_⟩
    intro q hq
    obtain ⟨i, rfl⟩ := List.mem_ofFn.mp hq
    apply hkey
  · simp

/-- The key of the last slot is the last key of the list. -/
theorem key_last (h : t.Lists key top) :
  ∃ q, t.slots[maxTopProcs - 1]? = some q ∧ key q = lastKey key top
  := by
  obtain ⟨rest, hslots, hrest⟩ := h.slots
  have hlength := h.length
  have hlt : maxTopProcs - 1 < t.slots.length := by
    rw [hlength]
    decide
  refine ⟨t.slots[maxTopProcs - 1], List.getElem?_eq_getElem hlt, ?_⟩
  rw [lastKey]
  simp only [hslots]
  rw [hslots, List.length_append] at hlength hlt
  by_cases hfull : maxTopProcs - 1 < top.length
  · rw [List.getElem?_eq_getElem hfull, List.getElem_append_left hfull]
  · rw [List.getElem?_eq_none (by omega), List.getElem_append_right (by omega)]
    apply hrest
    apply List.getElem_mem

end TopTable.Lists

/-- `insert_idx` comes to the place in front of the slots whose keys are less. -/
theorem insertIdx_eq (key : ProcessInfo → ℤ) (p : ProcessInfo) (slots : List ProcessInfo) {n : ℕ}
    (hn : n ≤ slots.length) :
  insertIdx key p slots n = ((slots.take n).rdropWhile (fun q => key p > key q)).length
  := by
  induction n with
  | zero => rfl
  | succ n ih =>
      have hlt : n < slots.length := by omega
      rw [insertIdx, List.take_succ_eq_append_getElem hlt, List.getElem?_eq_getElem hlt,
        Option.any_some]
      by_cases hkey : key p > key slots[n]
      · rw [if_pos (by simpa using hkey), ih (by omega), List.rdropWhile_concat_pos]
        simpa using hkey
      · rw [if_neg (by simpa using hkey), List.rdropWhile_concat_neg _ _ _ (by simpa using hkey),
          List.length_append, List.length_take, List.length_singleton]
        omega

/-- Where the key of the last slot is less, `insert_idx` comes to the same place from there as
from behind it. -/
theorem insertIdx_last {key : ProcessInfo → ℤ} {p q : ProcessInfo} {slots : List ProcessInfo}
    (hlength : slots.length = maxTopProcs) (hq : slots[maxTopProcs - 1]? = some q)
    (hkey : key p > key q) :
  insertIdx key p slots (maxTopProcs - 1) = (slots.rdropWhile (fun q => key p > key q)).length
  := by
  have hlt : maxTopProcs - 1 < slots.length := by
    rw [hlength]
    decide
  have hconcat : slots = slots.take (maxTopProcs - 1) ++ [q] := by
    rw [List.getElem?_eq_getElem hlt] at hq
    rw [← Option.some.inj hq, ← List.take_succ_eq_append_getElem hlt, List.take_of_length_le]
    omega
  rw [insertIdx_eq _ _ _ (by omega)]
  conv_rhs => rw [hconcat]
  rw [List.rdropWhile_concat_pos]
  simpa using hkey

/-- A last key is that of an entry, or `-1`. -/
theorem neg_one_le_lastKey {key : ProcessInfo → ℤ} {top : List ProcessInfo}
    (h : ∀ q ∈ top, 0 ≤ key q) :
  -1 ≤ lastKey key top
  := by
  unfold lastKey
  split
  case h_1 q hq =>
    have := h q (List.mem_of_getElem? hq)
    omega
  case h_2 => exact le_refl _

theorem insertIdx_le (key : ProcessInfo → ℤ) (p : ProcessInfo) (slots : List ProcessInfo) (n : ℕ) :
  insertIdx key p slots n ≤ n
  := by
  induction n with
  | zero => exact le_refl 0
  | succ n ih =>
      unfold insertIdx
      split
      · omega
      · exact le_refl _

/-- The slots moved down are the list with the process in its place, as far as it fits, and
slots not in use. -/
theorem shift_eq {s u rest : List ProcessInfo}
    (hlength : s.length + u.length + rest.length = maxTopProcs) (hs : s.length < maxTopProcs)
    (p : ProcessInfo) :
  ∃ rest', s ++ p :: (u ++ rest).dropLast = (s ++ p :: u).take maxTopProcs ++ rest'
    ∧ rest' ⊆ rest
  := by
  obtain rfl | ⟨rest, x, rfl⟩ := List.eq_nil_or_concat rest
  · -- the array is full, and the last entry is lost
    refine ⟨[], ?_, List.Subset.refl _⟩
    rw [List.length_nil] at hlength
    have hne : u ≠ [] := by
      rintro rfl
      rw [List.length_nil] at hlength
      omega
    have hpu : p :: u ≠ [] := by simp
    rw [List.append_nil, List.append_nil, ← List.dropLast_cons_of_ne_nil hne,
      ← List.dropLast_append_of_ne_nil hpu, List.dropLast_eq_take]
    congr 1
    simp only [List.length_append, List.length_cons]
    omega
  · refine ⟨rest, ?_, by simp⟩
    rw [List.concat_eq_append] at hlength ⊢
    rw [List.length_append, List.length_singleton] at hlength
    rw [← List.append_assoc, List.dropLast_concat, List.take_of_length_le]
    · simp
    · simp only [List.length_append, List.length_cons]
      omega

/-- What is offered to an array is offered to the list it stands for. -/
theorem TopTable.Lists.insert {key : ProcessInfo → ℤ} {t : TopTable} {top : List ProcessInfo}
    (h : t.Lists key top) (p : ProcessInfo) :
  (t.insert key p).Lists key (insertTop key p top)
  := by
  obtain ⟨q, hq, hlast⟩ := h.key_last
  unfold TopTable.insert
  rw [hq, Option.any_some, hlast]
  by_cases hkey : key p > lastKey key top
  case neg =>
    rw [if_neg (by simpa using hkey), insertTop, if_neg hkey]
    exact h
  case pos =>
    rw [if_pos (by simpa using hkey)]
    have hlow := neg_one_le_lastKey h.keys
    obtain ⟨rest, hslots, hrest⟩ := h.slots
    have hlength := h.length
    have hnum := h.num
    have hback : ∀ q ∈ rest, decide (key p > key q) = true := by
      intro q hq
      rw [hrest q hq, decide_eq_true_eq]
      omega
    have hidx : insertIdx key p t.slots (maxTopProcs - 1)
        = (top.rdropWhile (fun q => key p > key q)).length := by
      rw [insertIdx_last hlength hq (by rw [hlast]; exact hkey), hslots,
        (TopList.rdropWhile_append_of_all hback top).1]
    have hfit : (top.rdropWhile (fun q => key p > key q)).length < maxTopProcs := by
      have := insertIdx_le key p t.slots (maxTopProcs - 1)
      have : maxTopProcs = 15 := rfl
      omega
    have hkeys : ∀ q ∈ insertTop key p top, 0 ≤ key q := by
      intro q hq
      obtain rfl | hq := mem_insertTop hq
      · omega
      · exact h.keys q hq
    have htop : top.rdropWhile (fun q => key p > key q) ++ top.rtakeWhile (fun q => key p > key q)
        = top := List.rdropWhile_append_rtakeWhile
    rw [insertTop, if_pos hkey] at hkeys ⊢
    dsimp only
    rw [hidx]
    generalize top.rdropWhile (fun q => key p > key q) = s at htop hfit hkeys ⊢
    generalize top.rtakeWhile (fun q => key p > key q) = u at htop hkeys ⊢
    subst htop
    rw [hslots, List.length_append, List.length_append] at hlength
    rw [List.length_append] at hnum
    obtain ⟨rest', hmoved, hsub⟩ := shift_eq hlength hfit p
    have hslots' : t.slots.take s.length ++ p :: (t.slots.drop s.length).dropLast
        = (s ++ p :: u).take maxTopProcs ++ rest' := by
      rw [hslots, List.append_assoc, List.take_left, List.drop_left, hmoved]
    constructor
    case num =>
      dsimp only
      rw [List.length_take, List.length_append, List.length_cons]
      split
      · omega
      · omega
    case length =>
      dsimp only
      rw [hslots, List.append_assoc, List.take_left, List.drop_left, List.length_append,
        List.length_cons, List.length_dropLast, List.length_append]
      omega
    case slots => exact ⟨rest', hslots', fun q hq => hrest q (hsub hq)⟩
    case keys => exact hkeys

end LnxCad
