import LnxCad.Lib.Memo
import LnxCad.Session.Detect

/-!
# The names of users

`get_username_by_uid` looks a number up in a cache of at most 128 names, and in `/etc/passwd`
where the cache does not have it.  On the way through the file every number that is new enters
the cache with the name of its first line; the name returned is that of the last line of the
number looked up.  A number without a name is named by its digits.
-/

namespace LnxCad

open Session

/-! ### The program -/

/-- `uid_cache_entry`. -/
structure UidCacheEntry where
  uid : ℤ
  username : Bytes
deriving DecidableEq

/-- `UID_CACHE_MAX`. -/
def uidCacheMax : ℕ := 128

/-- What is taken from a line of `/etc/passwd`. -/
structure NameRow where
  user : Bytes
  uid : ℤ
deriving DecidableEq

/-- The row of a line with at least three colons. -/
def nameRow (line : Bytes) : Option NameRow :=
  match line.splitOn 58 with
  | user :: _ :: uidStr :: _ :: _ => some ⟨user, strToInt uidStr⟩
  | _ => none

/-- The rows of `/etc/passwd`, none where it cannot be opened. -/
def nameRows (passwd : Option Bytes) : List NameRow :=
  match passwd with
  | none => []
  | some file => (passwdLines file).filterMap nameRow

/-- The entry of a row in the cache. -/
def NameRow.entry (row : NameRow) : UidCacheEntry := ⟨row.uid, stored row.user 32⟩

/-- The cache and `username_out` while the lines are read. -/
structure NameLookup where
  cache : List UidCacheEntry
  usernameOut : Bytes

/-- One line of `/etc/passwd`. -/
def takeRow (uid : ℤ) (maxLen : ℕ) (l : NameLookup) (row : NameRow) : NameLookup where
  cache :=
    if l.cache.length < uidCacheMax then
      if l.cache.any (fun e => e.uid = row.uid) then l.cache else l.cache ++ [row.entry]
    else l.cache
  usernameOut := if row.uid = uid then stored row.user maxLen else l.usernameOut

/-- `get_username_by_uid`: the name and the cache it leaves. -/
def getUsernameByUid (passwd : Option Bytes) (uid : ℤ) (maxLen : ℕ)
    (cache : List UidCacheEntry) : Bytes × List UidCacheEntry :=
  match cache.find? (fun e => e.uid = uid) with
  | some e => (stored e.username maxLen, cache)
  | none =>
      let l := (nameRows passwd).foldl (takeRow uid maxLen) ⟨cache, []⟩
      if l.usernameOut = [] then
        (intToStr uid,
          if l.cache.length < uidCacheMax then l.cache ++ [⟨uid, stored (intToStr uid) 32⟩]
          else l.cache)
      else (l.usernameOut, l.cache)

/-! ### Runs -/

/-- A call: the number looked up and the size of the buffer for its name. -/
structure NameCall where
  uid : ℤ
  maxLen : ℕ
deriving DecidableEq

/-- The calls with the names they return. -/
def nameLookups (passwd : Option Bytes) :
    List UidCacheEntry → List NameCall → List (NameCall × Bytes)
  | _, [] => []
  | cache, c :: calls =>
      let r := getUsernameByUid passwd c.uid c.maxLen cache
      (c, r.1) :: nameLookups passwd r.2 calls

/-- The same call always returns the same name. -/
def SameNames (answers : List (NameCall × Bytes)) : Prop :=
  ∀ x ∈ answers, ∀ y ∈ answers, x.1 = y.1 → x.2 = y.2

/-! ### The names of a number -/

/-- The name on the last line of a number, or the digits of the number where there is none, or
where it is empty in the buffer. -/
def nameOfLast (rows : List NameRow) (c : NameCall) : Bytes :=
  match rows.reverse.find? (fun row => row.uid = c.uid) with
  | some row => if stored row.user c.maxLen = [] then intToStr c.uid else stored row.user c.maxLen
  | none => intToStr c.uid

/-- The name under which a number that is not in the cache enters it when it is looked up:
that of its first line, if the lines in front leave room, and its digits if it has no line and
all the lines leave room. -/
def Enters (rows : List NameRow) (cache : List UidCacheEntry) (uid : ℤ) (name : Bytes) : Prop :=
  (∃ before row after, rows = before ++ row :: after ∧ (∀ r ∈ before, r.uid ≠ uid)
      ∧ row.uid = uid
      ∧ Memo.Room UidCacheEntry.uid uidCacheMax cache (before.map NameRow.entry)
      ∧ name = stored row.user 32)
    ∨ ((∀ r ∈ rows, r.uid ≠ uid)
      ∧ Memo.Room UidCacheEntry.uid uidCacheMax cache (rows.map NameRow.entry)
      ∧ name = stored (intToStr uid) 32)

/-- A number that is not in the cache has the same name on its last line as the one under
which it enters the cache, in the buffer of the call. -/
def Settled (rows : List NameRow) (cache : List UidCacheEntry) (c : NameCall) : Prop :=
  Memo.lookup UidCacheEntry.uid cache c.uid = none →
    ∀ name, Enters rows cache c.uid name → nameOfLast rows c = stored name c.maxLen

/-! ### One call -/

/-- The cache behind the lines. -/
def fillCache (rows : List NameRow) (cache : List UidCacheEntry) : List UidCacheEntry :=
  (rows.map NameRow.entry).foldl (Memo.enter UidCacheEntry.uid uidCacheMax) cache

/-- The lines fill the cache and leave the last name of the number. -/
theorem foldl_takeRow (uid : ℤ) (maxLen : ℕ) (rows : List NameRow) (l : NameLookup) :
  rows.foldl (takeRow uid maxLen) l
    = ⟨fillCache rows l.cache,
        ((rows.reverse.find? (fun row => row.uid = uid)).map
          (fun row => stored row.user maxLen)).getD l.usernameOut⟩
  := by
  induction rows generalizing l with
  | nil => rfl
  | cons row rows ih =>
      have hcache : (takeRow uid maxLen l row).cache
          = Memo.enter UidCacheEntry.uid uidCacheMax l.cache row.entry := by
        have hany : l.cache.any (fun e => e.uid = row.uid) = true
            ↔ ¬ Memo.lookup UidCacheEntry.uid l.cache row.entry.uid = none := by
          simp only [Memo.lookup, List.any_eq_true, List.find?_eq_none, not_forall, not_not,
            exists_prop]
          exact Iff.rfl
        unfold takeRow Memo.enter
        dsimp only
        by_cases hroom : l.cache.length < uidCacheMax
        · by_cases hnone : Memo.lookup UidCacheEntry.uid l.cache row.entry.uid = none
          · rw [if_pos hroom, if_neg (fun h => hany.mp h hnone), if_pos ⟨hroom, hnone⟩]
          · rw [if_pos hroom, if_pos (hany.mpr hnone), if_neg (fun h => hnone h.2)]
        · rw [if_neg hroom, if_neg (fun h => hroom h.1)]
      rw [List.foldl_cons, ih, hcache, fillCache, fillCache, List.map_cons, List.foldl_cons,
        List.reverse_cons, List.find?_append]
      congr 1
      cases rows.reverse.find? (fun row => row.uid = uid) with
      | some r => rfl
      | none =>
          by_cases hrow : row.uid = uid
          · simp [takeRow, hrow]
          · simp [takeRow, hrow]

section Call

variable {passwd : Option Bytes} {cache : List UidCacheEntry} {c : NameCall}

/-- What is in the cache is returned, and the cache stays as it is. -/
theorem getUsernameByUid_of_some {e : UidCacheEntry}
    (h : Memo.lookup UidCacheEntry.uid cache c.uid = some e) :
  getUsernameByUid passwd c.uid c.maxLen cache = (stored e.username c.maxLen, cache)
  := by
  unfold Memo.lookup at h
  rw [getUsernameByUid, h]

/-- What is not in the cache is looked up in the file, whose lines fill the cache; the digits
enter it behind them where the number has no line. -/
theorem getUsernameByUid_of_none (h : Memo.lookup UidCacheEntry.uid cache c.uid = none) :
  (getUsernameByUid passwd c.uid c.maxLen cache).1 = nameOfLast (nameRows passwd) c
    ∧ ∃ es, (getUsernameByUid passwd c.uid c.maxLen cache).2
        = fillCache (nameRows passwd) cache ++ es
      ∧ ((∀ r ∈ nameRows passwd, r.uid ≠ c.uid) →
        (fillCache (nameRows passwd) cache).length < uidCacheMax →
        es = [⟨c.uid, stored (intToStr c.uid) 32⟩])
      ∧ (¬ (fillCache (nameRows passwd) cache).length < uidCacheMax → es = [])
  := by
  unfold Memo.lookup at h
  rw [getUsernameByUid, h]
  dsimp only
  rw [foldl_takeRow]
  dsimp only
  cases hlast : (nameRows passwd).reverse.find? (fun row => row.uid = c.uid) with
  | none =>
      simp only [Option.map_none, Option.getD_none, if_true]
      constructor
      · rw [nameOfLast, hlast]
      · split
        case isTrue hroom => exact ⟨_, rfl, fun _ _ => rfl, fun hnot => absurd hroom hnot⟩
        case isFalse hroom => exact ⟨[], by simp, fun _ h => absurd h hroom, fun _ => rfl⟩
  | some row =>
      have hrow : row ∈ nameRows passwd := List.mem_reverse.mp (List.mem_of_find?_eq_some hlast)
      have huid : row.uid = c.uid := by simpa using List.find?_some hlast
      have hline : ¬ ∀ r ∈ nameRows passwd, r.uid ≠ c.uid := fun hnone => hnone row hrow huid
      simp only [Option.map_some, Option.getD_some]
      constructor
      · rw [nameOfLast, hlast]
        dsimp only
        split
        · rfl
        · rfl
      · split
        case isTrue =>
          split
          case isTrue hroom =>
            exact ⟨_, rfl, fun hnone => absurd hnone hline, fun hnot => absurd hroom hnot⟩
          case isFalse hroom =>
            exact ⟨[], by simp, fun hnone => absurd hnone hline, fun _ => rfl⟩
        case isFalse => exact ⟨[], by simp, fun hnone => absurd hnone hline, fun _ => rfl⟩

/-- A number enters the cache under its name. -/
theorem lookup_of_enters (h : Memo.lookup UidCacheEntry.uid cache c.uid = none) {name : Bytes}
    (hname : Enters (nameRows passwd) cache c.uid name) :
  Memo.lookup UidCacheEntry.uid (getUsernameByUid passwd c.uid c.maxLen cache).2 c.uid
    = some ⟨c.uid, name⟩
  := by
  obtain ⟨-, es, hcache, hdigits, -⟩ := @getUsernameByUid_of_none passwd _ _ h
  rw [hcache]
  obtain ⟨before, row, after, hrows, hbefore, huid, hroom, rfl⟩ | ⟨hline, hroom, rfl⟩ := hname
  · have hentry : row.entry = ⟨c.uid, stored row.user 32⟩ := by rw [NameRow.entry, huid]
    have hfound : Memo.lookup UidCacheEntry.uid
        ((before.map NameRow.entry ++ row.entry :: after.map NameRow.entry).foldl
          (Memo.enter UidCacheEntry.uid uidCacheMax) cache) row.entry.uid = some row.entry := by
      apply Memo.lookup_fill_of_room
      · rw [hentry]
        exact h
      · intro d hd
        obtain ⟨r, hr, rfl⟩ := List.mem_map.mp hd
        rw [hentry]
        exact hbefore r hr
      · exact hroom
    apply Memo.lookup_append_of_some
    rw [fillCache, hrows, List.map_append, List.map_cons, ← hentry]
    rw [hentry] at hfound ⊢
    exact hfound
  · have hnone : Memo.lookup UidCacheEntry.uid (fillCache (nameRows passwd) cache) c.uid = none := by
      apply Memo.lookup_fill_of_notMem h
      intro d hd
      obtain ⟨r, hr, rfl⟩ := List.mem_map.mp hd
      exact hline r hr
    rw [hdigits hline (Memo.length_fill_lt_iff.mpr hroom), Memo.lookup_append_of_none hnone]
    simp [Memo.lookup]

/-- A number that does not enter the cache finds it full. -/
theorem full_of_not_enters (h : Memo.lookup UidCacheEntry.uid cache c.uid = none)
    (hname : ∀ name, ¬ Enters (nameRows passwd) cache c.uid name) :
  Memo.lookup UidCacheEntry.uid (getUsernameByUid passwd c.uid c.maxLen cache).2 c.uid = none
    ∧ uidCacheMax ≤ (getUsernameByUid passwd c.uid c.maxLen cache).2.length
  := by
  obtain ⟨-, es, hcache, -, hfull⟩ := @getUsernameByUid_of_none passwd _ _ h
  have hfill : Memo.lookup UidCacheEntry.uid (fillCache (nameRows passwd) cache) c.uid = none
      ∧ uidCacheMax ≤ (fillCache (nameRows passwd) cache).length := by
    cases hfind : (nameRows passwd).find? (fun r => r.uid = c.uid) with
    | none =>
        have hline : ∀ r ∈ nameRows passwd, r.uid ≠ c.uid := by simpa using hfind
        have hroom : ¬ Memo.Room UidCacheEntry.uid uidCacheMax cache
            ((nameRows passwd).map NameRow.entry) := fun hroom =>
          hname _ (Or.inr ⟨hline, hroom, rfl⟩)
        rw [← Memo.length_fill_lt_iff] at hroom
        constructor
        · apply Memo.lookup_fill_of_notMem h
          intro d hd
          obtain ⟨r, hr, rfl⟩ := List.mem_map.mp hd
          exact hline r hr
        · exact Nat.le_of_not_lt hroom
    | some row =>
        obtain ⟨huid, before, after, hrows, hbefore⟩ := List.find?_eq_some_iff_append.mp hfind
        have huid : row.uid = c.uid := by simpa using huid
        have hbefore : ∀ r ∈ before, r.uid ≠ c.uid := by simpa using hbefore
        have hroom : ¬ Memo.Room UidCacheEntry.uid uidCacheMax cache (before.map NameRow.entry) :=
          fun hroom => hname _ (Or.inl ⟨before, row, after, hrows, hbefore, huid, hroom, rfl⟩)
        have hnot : Memo.lookup UidCacheEntry.uid
              ((before.map NameRow.entry ++ row.entry :: after.map NameRow.entry).foldl
                (Memo.enter UidCacheEntry.uid uidCacheMax) cache) row.entry.uid = none
            ∧ uidCacheMax ≤ ((before.map NameRow.entry ++ row.entry :: after.map NameRow.entry).foldl
              (Memo.enter UidCacheEntry.uid uidCacheMax) cache).length := by
          apply Memo.lookup_fill_of_not_room
          · rw [NameRow.entry, huid]
            exact h
          · intro d hd
            obtain ⟨r, hr, rfl⟩ := List.mem_map.mp hd
            rw [NameRow.entry, NameRow.entry, huid]
            exact hbefore r hr
          · exact hroom
        rw [fillCache, hrows, List.map_append, List.map_cons]
        rw [NameRow.entry, huid] at hnot
        rw [NameRow.entry, huid]
        exact hnot
  rw [hcache, hfull (by omega), List.append_nil]
  exact hfill

/-- A full cache stays as it is. -/
theorem getUsernameByUid_of_full (hfull : uidCacheMax ≤ cache.length) :
  (getUsernameByUid passwd c.uid c.maxLen cache).2 = cache
  := by
  cases h : Memo.lookup UidCacheEntry.uid cache c.uid with
  | some e => rw [getUsernameByUid_of_some h]
  | none =>
      obtain ⟨-, es, hcache, -, hnil⟩ := @getUsernameByUid_of_none passwd _ _ h
      have hfill : fillCache (nameRows passwd) cache = cache := Memo.fill_of_full hfull
      rw [hfill] at hcache hnil
      rw [hcache, hnil (by omega), List.append_nil]

/-- What is in the cache stays there. -/
theorem lookup_getUsernameByUid {uid : ℤ} {e : UidCacheEntry}
    (he : Memo.lookup UidCacheEntry.uid cache uid = some e) :
  Memo.lookup UidCacheEntry.uid (getUsernameByUid passwd c.uid c.maxLen cache).2 uid = some e
  := by
  cases h : Memo.lookup UidCacheEntry.uid cache c.uid with
  | some _ =>
      rw [getUsernameByUid_of_some h]
      exact he
  | none =>
      obtain ⟨-, es, hcache, -, -⟩ := @getUsernameByUid_of_none passwd _ _ h
      rw [hcache]
      apply Memo.lookup_append_of_some
      exact Memo.lookup_of_prefix (Memo.prefix_fill _ _) he

end Call

/-! ### Many calls -/

section Run

variable {passwd : Option Bytes} {cache : List UidCacheEntry} {c : NameCall}

/-- Of a number in the cache, every call returns the name it has there. -/
theorem nameLookups_of_some {e : UidCacheEntry}
    (h : Memo.lookup UidCacheEntry.uid cache c.uid = some e) (calls : List NameCall) :
  ∀ y ∈ nameLookups passwd cache calls, y.1 = c → y.2 = stored e.username c.maxLen
  := by
  induction calls generalizing cache with
  | nil => simp [nameLookups]
  | cons d calls ih =>
      intro y hy heq
      rw [nameLookups] at hy
      obtain rfl | hy := List.mem_cons.mp hy
      · dsimp only at heq
        rw [heq, getUsernameByUid_of_some h]
      · exact ih (lookup_getUsernameByUid h) y hy heq

/-- Of a number that is not in a full cache, every call returns the name of the last line. -/
theorem nameLookups_of_full (h : Memo.lookup UidCacheEntry.uid cache c.uid = none)
    (hfull : uidCacheMax ≤ cache.length) (calls : List NameCall) :
  ∀ y ∈ nameLookups passwd cache calls, y.1 = c → y.2 = nameOfLast (nameRows passwd) c
  := by
  induction calls with
  | nil => simp [nameLookups]
  | cons d calls ih =>
      intro y hy heq
      rw [nameLookups, getUsernameByUid_of_full hfull] at hy
      obtain rfl | hy := List.mem_cons.mp hy
      · dsimp only at heq
        rw [heq, (getUsernameByUid_of_none h).1]
      · exact ih y hy heq

/-- The calls that were made. -/
theorem map_fst_nameLookups (calls : List NameCall) :
  (nameLookups passwd cache calls).map Prod.fst = calls
  := by
  induction calls generalizing cache with
  | nil => rfl
  | cons d calls ih => rw [nameLookups, List.map_cons, ih]

/-- The repetitions of a call return its name if and only if the call is settled, or there are
none. -/
theorem repeats_iff (calls : List NameCall) :
  (∀ y ∈ nameLookups passwd (getUsernameByUid passwd c.uid c.maxLen cache).2 calls, y.1 = c →
      y.2 = (getUsernameByUid passwd c.uid c.maxLen cache).1)
    ↔ (c ∈ calls → Settled (nameRows passwd) cache c)
  := by
  cases h : Memo.lookup UidCacheEntry.uid cache c.uid with
  | some e =>
      have hsettled : Settled (nameRows passwd) cache c := by
        intro hnone
        rw [hnone] at h
        cases h
      rw [getUsernameByUid_of_some h]
      exact iff_of_true (nameLookups_of_some h calls) (fun _ => hsettled)
  | none =>
      rw [(getUsernameByUid_of_none h).1]
      by_cases hname : ∃ name, Enters (nameRows passwd) cache c.uid name
      · obtain ⟨name, hname⟩ := hname
        have hfound := lookup_of_enters h hname
        have hall := @nameLookups_of_some passwd _ _ _ hfound calls
        constructor
        · intro heq hmem _ name' hname'
          rw [← @map_fst_nameLookups passwd
            (getUsernameByUid passwd c.uid c.maxLen cache).2 calls] at hmem
          obtain ⟨y, hy, hyc⟩ := List.mem_map.mp hmem
          have hsame := lookup_of_enters h hname'
          rw [hfound] at hsame
          obtain rfl : name = name' := by
            cases hsame
            rfl
          rw [← heq y hy hyc, hall y hy hyc]
        · intro hsettled y hy hyc
          have hmem : c ∈ calls := by
            rw [← @map_fst_nameLookups passwd
              (getUsernameByUid passwd c.uid c.maxLen cache).2 calls]
            exact List.mem_map.mpr ⟨y, hy, hyc⟩
          rw [hall y hy hyc, hsettled hmem h name hname]
      · push Not at hname
        obtain ⟨hnone, hfull⟩ := full_of_not_enters h hname
        apply iff_of_true
        · exact nameLookups_of_full hnone hfull calls
        · exact fun _ _ name hname' => absurd hname' (hname name)

end Run

theorem sameNames_cons {x : NameCall × Bytes} {answers : List (NameCall × Bytes)} :
  SameNames (x :: answers) ↔ (∀ y ∈ answers, y.1 = x.1 → y.2 = x.2) ∧ SameNames answers
  := by
  constructor
  · intro h
    constructor
    · intro y hy heq
      exact h y (by simp [hy]) x (by simp) heq
    · intro y hy z hz
      exact h y (by simp [hy]) z (by simp [hz])
  · rintro ⟨hx, h⟩ y hy z hz heq
    rw [List.mem_cons] at hy hz
    obtain hy | hy := hy
    · obtain hz | hz := hz
      · rw [hy, hz]
      · rw [hy] at heq ⊢
        exact (hx z hz heq.symm).symm
    · obtain hz | hz := hz
      · rw [hz] at heq ⊢
        exact hx y hy heq
      · exact h y hy z hz heq

/-- Every call that is repeated is settled in the cache it meets. -/
def AllSettled (passwd : Option Bytes) : List UidCacheEntry → List NameCall → Prop
  | _, [] => True
  | cache, c :: calls =>
      (c ∈ calls → Settled (nameRows passwd) cache c)
        ∧ AllSettled passwd (getUsernameByUid passwd c.uid c.maxLen cache).2 calls

/-- In every sequence of calls, and whatever is in the cache before it, the same call always
returns the same name if and only if every call that is repeated is settled. -/
theorem nameLookups_sameNames_iff
    (passwd : Option Bytes) (cache : List UidCacheEntry) (calls : List NameCall) :
  SameNames (nameLookups passwd cache calls) ↔ AllSettled passwd cache calls
  := by
  induction calls generalizing cache with
  | nil => simp [nameLookups, SameNames, AllSettled]
  | cons c calls ih =>
      rw [nameLookups, sameNames_cons, ih, AllSettled]
      exact and_congr_left' (repeats_iff calls)

/-- Two names for one number. -/
def annAndBob : Bytes := chars "ann:x:1000:1000::/:\nbob:x:1000:1000::/:\n".toList

/-- The first call returns the name of the last line, and the second one that of the first. -/
theorem not_nameLookups_sameNames_annAndBob :
  nameLookups (some annAndBob) [] [⟨1000, 32⟩, ⟨1000, 32⟩]
      = [(⟨1000, 32⟩, chars ['b', 'o', 'b']), (⟨1000, 32⟩, chars ['a', 'n', 'n'])]
    ∧ ¬ SameNames (nameLookups (some annAndBob) [] [⟨1000, 32⟩, ⟨1000, 32⟩])
  := by
  have hnames : nameLookups (some annAndBob) [] [⟨1000, 32⟩, ⟨1000, 32⟩]
      = [(⟨1000, 32⟩, chars ['b', 'o', 'b']), (⟨1000, 32⟩, chars ['a', 'n', 'n'])] := by
    decide +kernel
  refine ⟨hnames, ?_⟩
  rw [hnames]
  intro h
  have hsame := h (⟨1000, 32⟩, chars ['b', 'o', 'b']) (by simp)
    (⟨1000, 32⟩, chars ['a', 'n', 'n']) (by simp) rfl
  cases hsame

end LnxCad
