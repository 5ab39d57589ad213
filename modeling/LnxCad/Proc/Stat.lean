import LnxCad.Lib.Fields
import LnxCad.Proc.Environ
import LnxCad.Proc.Scan
import LnxCad.Proc.Sessions

/-!
# The stat files

`scan_processes` and `scan_sessions` read the first 1023 bytes of `/proc/<pid>/stat` and take
the name of the process from between the first opening and the last closing parenthesis.  From
there `scan_processes` counts blanks to the fields it wants, while `scan_sessions` skips four
fields with the blanks behind them.  A name may have blanks and parentheses in it.
-/

namespace LnxCad

open LnxCad.Session

/-- The name between the parentheses, cut after `limit` bytes, and the text behind it.  Without
a closing parenthesis `ptr` is left behind the opening one. -/
def statName (limit : ℕ) (buf : Bytes) : Bytes × Bytes :=
  match buf.dropWhile (· ≠ 40) with
  | [] => ([], [])
  | _ :: s =>
      match Fields.splitLast 41 s with
      | some (name, rest) => (name.take limit, rest)
      | none => ([], s)

/-- The buffer after `read`. -/
def statBuf (file : Bytes) : Bytes := cstr (file.take 1023)

/-- `current_cpu_time`, from the state on: the fields 14 and 15. -/
def statCpuTime (s : Bytes) : ℕ :=
  match Fields.past 32 11 s with
  | [] => 0
  | c :: s =>
      let utime := strToUll (c :: s)
      match (c :: s).dropWhile (· ≠ 32) with
      | [] => utime
      | _ :: s => (utime + strToUll s) % 2 ^ 64

/-- `rss_pages`, from the state on: the field 24. -/
def statRss (s : Bytes) : ℤ :=
  match Fields.past 32 21 s with
  | [] => 0
  | c :: s => strToInt (c :: s)

/-- What `scan_processes` takes from a stat file. -/
def statEntry (pid uid : ℕ) (file : Bytes) : ProcEntry :=
  let r := statName 31 (statBuf file)
  let s := r.2.dropWhile (· = 32)
  { pid := pid
    name := r.1
    state := s.headD 63
    cpuTime := statCpuTime s
    rssPages := statRss s
    uid := uid }

/-- The name and `tty_nr` that `scan_sessions` takes from a stat file, unless it ends behind the
name. -/
def statTty (file : Bytes) : Option (Bytes × ℤ) :=
  let r := statName 63 (statBuf file)
  match r.2.dropWhile (· = 32) with
  | [] => none
  | c :: s =>
      some (r.1, strToInt
        (Fields.skip 32 (Fields.skip 32 (Fields.skip 32 (Fields.skip 32 (c :: s))))))

/-! ### The entries of `/proc` -/

/-- An entry of `/proc` with what can be read of its stat file and where its descriptors
lead. -/
structure ProcDirent extends ProcDir where
  stat : Option Bytes
  fds : Option (List Bytes)

/-- The number an entry stands for, if its name begins with a digit. -/
def ProcDirent.pid (d : ProcDirent) : Option ℕ :=
  match d.name.head?.bind digit with
  | some _ => some (strToInt d.name).toNat
  | none => none

/-- The entry as `scan_processes` meets it: without an owner it is that of root, and a stat file
with nothing in it is passed over. -/
def procEntry (d : ProcDirent) : Option ProcEntry :=
  match d.pid, d.stat with
  | some pid, some (c :: file) => some (statEntry pid (d.uid.getD 0) (c :: file))
  | _, _ => none

/-- The terminal a descriptor leads to. -/
def fdVt (target : Bytes) : Option ℤ :=
  if (chars ['/', 'd', 'e', 'v', '/', 't', 't', 'y']).isPrefixOf target
      ∧ target[8]?.bind digit ≠ none then
    some (strToInt (target.drop 8))
  else none

/-- `get_vt_from_fds`, by the targets of the descriptors, if they can be listed. -/
def getVtFromFds (fds : Option (List Bytes)) : ℤ :=
  match fds with
  | some targets => (targets.findSome? fun target => fdVt (target.take 511)).getD (-1)
  | none => -1

/-- The entry as `scan_sessions` meets it. -/
def sessionSighting (d : ProcDirent) : Option SessionSighting :=
  match d.pid, d.uid, d.stat with
  | some pid, some uid, some (c :: file) =>
      (statTty (c :: file)).map fun r =>
        { pid := pid
          name := r.1
          ttyNr := r.2
          uid := uid
          vtFromEnviron :=
            if getVtFromEnviron d.environ = -1 then none else some (getVtFromEnviron d.environ)
          vtFromFds := some (getVtFromFds d.fds) }
  | _, _, _ => none

/-! ### The lines of the kernel -/

/-- The stat line of a process by its number, name and state and by its fields from 4 to 52. -/
def statLine (pid : ℕ) (comm : Bytes) (state : UInt8) (f : ℕ → ℤ) : Bytes :=
  natDigits pid ++ [32, 40] ++ comm ++ [41, 32, state]
    ++ Fields.line 32 ((List.range' 4 49).map fun i => intToStr (f i))

theorem notMem_intToStr {c : UInt8} (hdigit : digit c = none) (hsign : c ≠ 45) (v : ℤ) :
  c ∉ intToStr v
  := by
  intro hc
  obtain h | h := digit_of_mem_intToStr hc
  · exact hsign h
  · exact h hdigit

theorem intToStr_ne_nil (v : ℤ) :
  intToStr v ≠ []
  := by
  unfold intToStr
  split
  · simp
  · obtain ⟨c, cs, hdigits, -⟩ := digit_head_natDigits v.natAbs
    rw [hdigits]
    simp

/-- The text from a field on to the end of the line. -/
def fieldsFrom (f : ℕ → ℤ) (i n : ℕ) : Bytes :=
  Fields.line 32 ((List.range' i n).map fun i => intToStr (f i))

theorem fieldsFrom_succ (f : ℕ → ℤ) (i n : ℕ) :
  fieldsFrom f i (n + 1) = 32 :: intToStr (f i) ++ fieldsFrom f (i + 1) n
  := by
  rw [fieldsFrom, List.range'_succ, List.map_cons, Fields.line_cons]
  rfl

theorem notMem_fieldsFrom {c : UInt8} (hdigit : digit c = none) (hsign : c ≠ 45) (hblank : c ≠ 32)
    (f : ℕ → ℤ) (i n : ℕ) :
  c ∉ fieldsFrom f i n
  := by
  induction n generalizing i with
  | zero => simp [fieldsFrom]
  | succ n ih =>
      rw [fieldsFrom_succ, List.mem_append, List.mem_cons, not_or, not_or]
      exact ⟨⟨hblank, notMem_intToStr hdigit hsign (f i)⟩, ih (i + 1)⟩

/-- Behind a field there is no digit. -/
theorem noDigit_fieldsFrom (f : ℕ → ℤ) (i n : ℕ) (s : Bytes) :
  NoDigit (fieldsFrom f i (n + 1) ++ s)
  := by
  rw [fieldsFrom_succ]
  rintro c ⟨⟩
  rfl

/-- Counting blanks from the state leads to a field. -/
theorem past_fieldsFrom {state : UInt8} (hstate : state ≠ 32) (f : ℕ → ℤ) {k : ℕ} (hk : k < 49)
    (s : Bytes) :
  Fields.past 32 (k + 1) (state :: (fieldsFrom f 4 49 ++ s))
    = intToStr (f (4 + k)) ++ (fieldsFrom f (5 + k) (48 - k) ++ s)
  := by
  have hword : Fields.past 32 (k + 1) (state :: (fieldsFrom f 4 49 ++ s))
      = Fields.past 32 (k + 1) (fieldsFrom f 4 49 ++ s) := by
    apply Fields.past_append (w := [state])
    simpa using hstate.symm
  rw [hword]
  apply Fields.past_line
  · intro w hw
    obtain ⟨i, -, rfl⟩ := List.mem_map.mp hw
    exact notMem_intToStr rfl (by decide) (f i)
  · obtain ⟨m, hm⟩ : ∃ m, 49 - k = m + 1 := ⟨48 - k, by omega⟩
    have hm' : 48 - k = m := by omega
    rw [← List.map_drop, List.drop_range', hm, hm', List.range'_succ, List.map_cons]
    congr 3
    · omega
    · omega

/-- Skipping a field leads to the next one. -/
theorem skip_fieldsFrom {w : Bytes} (hw : 32 ∉ w) (f : ℕ → ℤ) (i n : ℕ) (s : Bytes) :
  Fields.skip 32 (w ++ (fieldsFrom f i (n + 1) ++ s))
    = intToStr (f i) ++ (fieldsFrom f (i + 1) n ++ s)
  := by
  have hline : fieldsFrom f i (n + 1)
      = Fields.line 32 (intToStr (f i) :: (List.range' (i + 1) n).map fun i => intToStr (f i)) := by
    rw [fieldsFrom, List.range'_succ, List.map_cons]
  rw [hline, Fields.skip_line hw (notMem_intToStr rfl (by decide) (f i)) (intToStr_ne_nil (f i))]
  rfl

/-! ### Reading a line -/

theorem statLine_eq (pid : ℕ) (comm : Bytes) (state : UInt8) (f : ℕ → ℤ) (s : Bytes) :
  statLine pid comm state f ++ s
    = (natDigits pid ++ [32])
      ++ 40 :: (comm ++ 41 :: (32 :: state :: (fieldsFrom f 4 49 ++ s)))
  := by
  simp [statLine, fieldsFrom]

/-- A line that fits in the buffer is read whole. -/
theorem statBuf_statLine {pid : ℕ} {comm : Bytes} (hcomm : 0 ∉ comm) {state : UInt8}
    (hstate : state ≠ 0) {f : ℕ → ℤ} (hlength : (statLine pid comm state f).length ≤ 1023)
    (rest : Bytes) :
  ∃ rest', rest' ⊆ rest
    ∧ statBuf (statLine pid comm state f ++ rest) = statLine pid comm state f ++ rest'
  := by
  have hall : ∀ c ∈ statLine pid comm state f, decide (c ≠ 0) = true := by
    intro c hc
    rw [decide_eq_true_eq]
    rintro rfl
    rw [← List.append_nil (statLine pid comm state f), statLine_eq, List.append_nil] at hc
    have hpid : (0 : UInt8) ∉ natDigits pid := fun h => digit_of_mem_natDigits h rfl
    have hfields : (0 : UInt8) ∉ fieldsFrom f 4 49 :=
      notMem_fieldsFrom rfl (by decide) (by decide) f 4 49
    simp [hpid, hcomm, hfields, hstate.symm] at hc
  refine ⟨cstr (rest.take (1023 - (statLine pid comm state f).length)), ?_, ?_⟩
  · exact List.Subset.trans (List.takeWhile_prefix _).subset (List.take_subset _ _)
  · rw [statBuf, List.take_append, List.take_of_length_le hlength, cstr,
      List.takeWhile_append_of_pos hall]
    rfl

/-- The name goes to the last closing parenthesis. -/
theorem statName_statLine {s : Bytes} (hs : 41 ∉ s) {state : UInt8} (hstate : state ≠ 41)
    (limit pid : ℕ) (comm : Bytes) (f : ℕ → ℤ) :
  statName limit (statLine pid comm state f ++ s)
    = (comm.take limit, 32 :: state :: (fieldsFrom f 4 49 ++ s))
  := by
  have hopen : ∀ c ∈ natDigits pid ++ [32], decide (c ≠ 40) = true := by
    intro c hc
    rw [decide_eq_true_eq]
    rintro rfl
    obtain hc | hc := List.mem_append.mp hc
    · exact digit_of_mem_natDigits hc rfl
    · simp at hc
  have hclose : 41 ∉ 32 :: state :: (fieldsFrom f 4 49 ++ s) := by
    have hfields : (41 : UInt8) ∉ fieldsFrom f 4 49 :=
      notMem_fieldsFrom rfl (by decide) (by decide) f 4 49
    simp [hs, hfields, hstate.symm]
  rw [statLine_eq, statName, List.dropWhile_append_of_pos hopen,
    List.dropWhile_cons_of_neg (by simp)]
  dsimp only
  rw [Fields.splitLast_append comm hclose]

theorem statCpuTime_of_past {s t : Bytes} {m n : ℕ}
    (h : Fields.past 32 11 s = natDigits m ++ 32 :: (natDigits n ++ t)) (ht : NoDigit t) :
  statCpuTime s = (m + n) % 2 ^ 64
  := by
  have hblank : ∀ c ∈ natDigits m, decide (c ≠ 32) = true := by
    intro c hc
    rw [decide_eq_true_eq]
    rintro rfl
    exact digit_of_mem_natDigits hc rfl
  have hutime : NoDigit (32 :: (natDigits n ++ t)) := by
    rintro c ⟨⟩
    rfl
  obtain ⟨c, cs, hdigits, -⟩ := digit_head_natDigits m
  rw [statCpuTime, h, hdigits]
  dsimp only [List.cons_append]
  rw [← List.cons_append, ← hdigits, List.dropWhile_append_of_pos hblank,
    List.dropWhile_cons_of_neg (by simp)]
  dsimp only
  rw [strToUll_natDigits m hutime, strToUll_natDigits n ht, ← Nat.add_mod]

theorem statRss_of_past {s t : Bytes} {n : ℕ} (h : Fields.past 32 21 s = natDigits n ++ t)
    (ht : NoDigit t) :
  statRss s = min (n : ℤ) 2147483647
  := by
  obtain ⟨c, cs, hdigits, -⟩ := digit_head_natDigits n
  rw [statRss, h, hdigits]
  dsimp only [List.cons_append]
  rw [← List.cons_append, ← hdigits, strToInt_natDigits n ht]
  exact Nat.cast_min n 2147483647

theorem intToStr_of_nonneg {v : ℤ} (h : 0 ≤ v) :
  intToStr v = natDigits v.toNat
  := by
  rw [intToStr, if_neg (by omega)]
  congr 1
  omega

section Line

variable {pid : ℕ} {comm : Bytes} {state : UInt8} {f : ℕ → ℤ} {rest : Bytes}

/-- The name and what is behind it, of a line that fits in the buffer. -/
theorem statName_statBuf (hcomm : 0 ∉ comm) (hstate : state ≠ 0 ∧ state ≠ 32 ∧ state ≠ 41)
    (hlength : (statLine pid comm state f).length ≤ 1023) (hrest : 41 ∉ rest) :
  ∃ rest', ∀ limit, statName limit (statBuf (statLine pid comm state f ++ rest))
    = (comm.take limit, 32 :: state :: (fieldsFrom f 4 49 ++ rest'))
  := by
  obtain ⟨rest', hsub, hbuf⟩ := statBuf_statLine hcomm hstate.1 hlength rest
  use rest'
  intro limit
  rw [hbuf]
  exact statName_statLine (fun h => hrest (hsub h)) hstate.2.2 limit pid comm f

theorem dropWhile_blank (hstate : state ≠ 32) (s : Bytes) :
  (32 :: state :: s).dropWhile (· = 32) = state :: s
  := by
  rw [List.dropWhile_cons_of_pos (by simp), List.dropWhile_cons_of_neg (by simpa using hstate)]

/-- `scan_processes` finds the fields of a line. -/
theorem statEntry_statLine (hcomm : 0 ∉ comm) (hstate : state ≠ 0 ∧ state ≠ 32 ∧ state ≠ 41)
    (hutime : 0 ≤ f 14) (hstime : 0 ≤ f 15) (hrss : 0 ≤ f 24)
    (hlength : (statLine pid comm state f).length ≤ 1023) (hrest : 41 ∉ rest) (dPid uid : ℕ) :
  statEntry dPid uid (statLine pid comm state f ++ rest)
    = { pid := dPid
        name := comm.take 31
        state := state
        cpuTime := (f 14 + f 15).toNat % 2 ^ 64
        rssPages := min (f 24) (2 ^ 31 - 1)
        uid := uid }
  := by
  obtain ⟨rest', hname⟩ := statName_statBuf hcomm hstate hlength hrest
  have hstimes : fieldsFrom f 15 38 = 32 :: intToStr (f 15) ++ fieldsFrom f 16 37 :=
    fieldsFrom_succ f 15 37
  have hcpu : statCpuTime (state :: (fieldsFrom f 4 49 ++ rest'))
      = ((f 14).toNat + (f 15).toNat) % 2 ^ 64 := by
    apply statCpuTime_of_past (t := fieldsFrom f 16 37 ++ rest')
    · rw [past_fieldsFrom hstate.2.1 f (by decide), ← intToStr_of_nonneg hutime,
        ← intToStr_of_nonneg hstime, hstimes, List.append_assoc]
      rfl
    · exact noDigit_fieldsFrom f 16 36 rest'
  have hpages : statRss (state :: (fieldsFrom f 4 49 ++ rest'))
      = min ((f 24).toNat : ℤ) 2147483647 := by
    apply statRss_of_past (t := fieldsFrom f 25 28 ++ rest')
    · rw [past_fieldsFrom hstate.2.1 f (by decide), ← intToStr_of_nonneg hrss]
    · exact noDigit_fieldsFrom f 25 27 rest'
  rw [statEntry, hname, dropWhile_blank hstate.2.1, hcpu, hpages, ← Int.toNat_add hutime hstime,
    Int.toNat_of_nonneg hrss]
  rfl

/-- `scan_sessions` finds the fields of a line. -/
theorem statTty_statLine (hcomm : 0 ∉ comm) (hstate : state ≠ 0 ∧ state ≠ 32 ∧ state ≠ 41)
    (htty : -2147483648 ≤ f 7 ∧ f 7 ≤ 2147483647)
    (hlength : (statLine pid comm state f).length ≤ 1023) (hrest : 41 ∉ rest) :
  statTty (statLine pid comm state f ++ rest) = some (comm.take 63, f 7)
  := by
  obtain ⟨rest', hname⟩ := statName_statBuf hcomm hstate hlength hrest
  have hskip := skip_fieldsFrom (w := [state]) (by simpa using hstate.2.1.symm) f 4 48 rest'
  have hnext : ∀ i n, Fields.skip 32 (intToStr (f i) ++ (fieldsFrom f (i + 1) (n + 1) ++ rest'))
      = intToStr (f (i + 1)) ++ (fieldsFrom f (i + 2) n ++ rest') := by
    intro i n
    exact skip_fieldsFrom (notMem_intToStr rfl (by decide) (f i)) f (i + 1) n rest'
  have hread : strToInt (intToStr (f 7) ++ (fieldsFrom f 8 45 ++ rest')) = f 7 :=
    strToInt_intToStr_append htty.1 htty.2 (noDigit_fieldsFrom f 8 44 rest')
  rw [List.singleton_append] at hskip
  rw [statTty, hname, dropWhile_blank hstate.2.1]
  dsimp only
  rw [hskip, hnext 4 47, hnext 5 46, hnext 6 45, hread]

theorem exists_cons_statLine (pid : ℕ) (comm : Bytes) (state : UInt8) (f : ℕ → ℤ) (rest : Bytes) :
  ∃ c file, statLine pid comm state f ++ rest = c :: file
  := by
  apply List.exists_cons_of_ne_nil
  simp [statLine]

/-- A process whose stat file has a line that fits in the buffer is met by `scan_processes` with
the fields of the line. -/
theorem procEntry_statLine (hcomm : 0 ∉ comm) (hstate : state ≠ 0 ∧ state ≠ 32 ∧ state ≠ 41)
    (hutime : 0 ≤ f 14) (hstime : 0 ≤ f 15) (hrss : 0 ≤ f 24)
    (hlength : (statLine pid comm state f).length ≤ 1023) (hrest : 41 ∉ rest) {d : ProcDirent}
    {dPid : ℕ} (hpid : d.pid = some dPid)
    (hstat : d.stat = some (statLine pid comm state f ++ rest)) :
  procEntry d = some
    { pid := dPid
      name := comm.take 31
      state := state
      cpuTime := (f 14 + f 15).toNat % 2 ^ 64
      rssPages := min (f 24) (2 ^ 31 - 1)
      uid := d.uid.getD 0 }
  := by
  have hentry := statEntry_statLine hcomm hstate hutime hstime hrss hlength hrest dPid
    (d.uid.getD 0)
  obtain ⟨c, file, hfile⟩ := exists_cons_statLine pid comm state f rest
  rw [hfile] at hstat hentry
  rw [procEntry, hpid, hstat, ← hentry]

/-- A process with an owner is met by `scan_sessions` with the name and the terminal of the
line. -/
theorem sessionSighting_statLine (hcomm : 0 ∉ comm)
    (hstate : state ≠ 0 ∧ state ≠ 32 ∧ state ≠ 41) (htty : -2147483648 ≤ f 7 ∧ f 7 ≤ 2147483647)
    (hlength : (statLine pid comm state f).length ≤ 1023) (hrest : 41 ∉ rest) {d : ProcDirent}
    {dPid uid : ℕ} (hpid : d.pid = some dPid) (huid : d.uid = some uid)
    (hstat : d.stat = some (statLine pid comm state f ++ rest)) :
  ∃ s, sessionSighting d = some s ∧ s.pid = dPid ∧ s.uid = uid ∧ s.name = comm.take 63
    ∧ s.ttyNr = f 7
  := by
  have hline := statTty_statLine hcomm hstate htty hlength hrest
  obtain ⟨c, file, hfile⟩ := exists_cons_statLine pid comm state f rest
  rw [hfile] at hstat hline
  rw [sessionSighting, hpid, huid, hstat]
  dsimp only
  rw [hline]
  exact ⟨_, rfl, rfl, rfl, rfl, rfl⟩

end Line

/-- Both scans find the fields of a line that fits in the buffer, whatever the name of the
process is; behind the line, where its end stands, there may be anything but a closing
parenthesis. -/
theorem stat_statLine
    {pid : ℕ} {comm : Bytes} (hcomm : 0 ∉ comm)
    {state : UInt8} (hstate : state ≠ 0 ∧ state ≠ 32 ∧ state ≠ 41)
    {f : ℕ → ℤ} (htty : -2147483648 ≤ f 7 ∧ f 7 ≤ 2147483647)
    (hutime : 0 ≤ f 14) (hstime : 0 ≤ f 15) (hrss : 0 ≤ f 24)
    (hlength : (statLine pid comm state f).length ≤ 1023) {rest : Bytes} (hrest : 41 ∉ rest)
    (dPid uid : ℕ) :
  statEntry dPid uid (statLine pid comm state f ++ rest)
    = { pid := dPid
        name := comm.take 31
        state := state
        cpuTime := (f 14 + f 15).toNat % 2 ^ 64
        rssPages := min (f 24) (2 ^ 31 - 1)
        uid := uid }
  ∧ statTty (statLine pid comm state f ++ rest) = some (comm.take 63, f 7)
  := by
  constructor
  · exact statEntry_statLine hcomm hstate hutime hstime hrss hlength hrest dPid uid
  · exact statTty_statLine hcomm hstate htty hlength hrest

/-- A process that gives itself a name like the rest of a line. -/
theorem stat_statLine_imitation :
  statEntry 9 1000 (statLine 9 (chars ['a', ')', ' ', 'R', ' ', '1', ' ', '(']) 83 (fun i => i)
      ++ [10])
    = { pid := 9
        name := chars ['a', ')', ' ', 'R', ' ', '1', ' ', '(']
        state := 83
        cpuTime := 29
        rssPages := 24
        uid := 1000 }
  ∧ statTty (statLine 9 (chars ['a', ')', ' ', 'R', ' ', '1', ' ', '(']) 83 (fun i => i) ++ [10])
    = some (chars ['a', ')', ' ', 'R', ' ', '1', ' ', '('], 7)
  := by
  apply stat_statLine (by decide) (by decide) (by decide) (by decide) (by decide) (by decide)
  · decide +kernel
  · decide

end LnxCad
