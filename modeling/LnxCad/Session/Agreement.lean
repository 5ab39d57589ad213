import LnxCad.Session.UserSession

/-!
# The two programs and the user of the session

The watchdog turns the number of the user it found into a name through the C library, and
the graphical program turns the name back into a number through its own reading of
`/etc/passwd`.  The two agree exactly when the first row the graphical program takes for
the user is one of the user found.
-/

namespace LnxCad.Session

/-! ### What is handed over -/

theorem stored_eq {src : Bytes} {size : ℕ} (h : size ≠ 0) :
  stored src size = (cstr src).take (size - 1)
  := by
  rw [stored, cstr_safeCopy _ _ h]

theorem ne_zero_of_mem_stored {src : Bytes} {size : ℕ} {c : UInt8} (h : c ∈ stored src size) :
  c ≠ 0
  := ne_zero_of_mem_cstr h

theorem ne_zero_of_mem_vtNum {s : Snapshot} {c : UInt8} (h : c ∈ vtNum s) :
  c ≠ 0
  := by
  unfold vtNum at h
  split at h
  · cases h
  · dsimp only at h
    split at h
    · apply ne_zero_of_mem_stored h
    · cases h

/-- The two programs look for the same string in the environments. -/
theorem expectedConcat_eq (s : Snapshot) :
  expectedConcat s = expectedPrinted s
  := by
  have hvt : cstr (vtNum s) = vtNum s := cstr_of_ne_zero (fun _ => ne_zero_of_mem_vtNum)
  rw [expectedConcat, expectedPrinted, printed, cstr_safeConcat _ _ (by decide),
    cstr_safeCopy _ _ (by decide), hvt]
  rfl

/-- A setting just made is the one that is found. -/
theorem valueOf_putenv (key value : Bytes) (environ : List Bytes) :
  valueOf key (putenv key (key ++ value) environ) = some value
  := by
  have hself : key.isPrefixOf (key ++ value) = true := by
    simp
  induction environ with
  | nil => simp [valueOf, putenv]
  | cons e environ ih =>
      unfold putenv
      split
      · simp [valueOf]
      case isFalse h =>
        rw [valueOf, List.find?_cons_of_neg (by simpa using h)]
        apply ih

theorem length_detectActiveUser_le (s : Snapshot) :
  (detectActiveUser s 64).length ≤ 63
  := by
  have hstored : ∀ src, (stored src 64).length ≤ 63 := by
    intro src
    rw [stored_eq (by decide), List.length_take]
    omega
  simp only [detectActiveUser]
  split
  · split
    · apply hstored
    · apply hstored
  · simpa using hstored unknownUser

/-- The graphical program takes over the name the watchdog detected. -/
theorem environUser_handOver (s : Snapshot) (environ : List Bytes) :
  environUser (handOver s environ) = detectActiveUser s 64
  := by
  have hlen := length_detectActiveUser_le s
  have hfits : printed (cadUser ++ detectActiveUser s 64) 128
      = cadUser ++ detectActiveUser s 64 := by
    apply List.take_of_length_le
    rw [List.length_append]
    have : cadUser.length = 9 := rfl
    omega
  rw [environUser, handOver, hfits, valueOf_putenv]

/-! ### The account the graphical program ends up with -/

/-- The number the session is given by the row it is found under. -/
def accountUid (row : Option PasswdRow) : ℤ :=
  match row with
  | some row => if row.uid = 0 then 1000 else row.uid
  | none => 1000

/-- A session starts with the account of the first row that matches. -/
theorem detectUserSession_uid (s : Snapshot) (username : Option Bytes) :
  (detectUserSession s username UserSession.init).uid
    = accountUid ((rows s).find? (fun row => IsMatch (targetUid s username) username row))
  := by
  have huid := congrArg Account.uid (detectUserSession_account s username UserSession.init)
  dsimp only [UserSession.account] at huid
  rw [huid]
  simp only [resolveAccount]
  cases (rows s).find? (fun row => IsMatch (targetUid s username) username row) with
  | none => rfl
  | some row =>
      by_cases hroot : row.uid = 0
      · simp [UserSession.setAccount, accountUid, defaultAccount, hroot]
      · simp [UserSession.setAccount, accountUid, hroot]

/-! ### The row of the user found -/

/-- The name under which the watchdog hands a user over: the one of the C library, cut
after 63 bytes, unless there is none. -/
def handedName (s : Snapshot) (uid : ℤ) : Bytes :=
  match s.getpwuid uid with
  | some pwName => if stored pwName 64 = [] then unknownUser else stored pwName 64
  | none => unknownUser

/-- Whether the user was found through the environment of a process. -/
def SeenInProc (s : Snapshot) : Prop :=
  searchVt s (expectedPrinted s) ≠ none ∨ searchGraphical s ≠ none

/-- The rows that are taken for those of a user: the rows of the name handed over, unless
this is `root`.  In that case they are the rows of the number if it was found through a
process, and otherwise those of `root` and of every user's account. -/
def Sought (s : Snapshot) (uid : ℤ) (row : PasswdRow) : Prop :=
  (handedName s uid ≠ rootUser ∧ row.user = handedName s uid)
    ∨ (handedName s uid = rootUser ∧ SeenInProc s ∧ row.uid = uid)
    ∨ (handedName s uid = rootUser ∧ ¬ SeenInProc s ∧ (row.user = rootUser ∨ IsUserUid row.uid))

/-- A row is the first of those taken for the user among the lines with at least six
colons in the first 8191 bytes of `/etc/passwd`. -/
def FirstSought (s : Snapshot) (uid : ℤ) (row : PasswdRow) : Prop :=
  Sought s uid row
    ∧ ∃ before after, rows s = before ++ row :: after ∧ ∀ r ∈ before, ¬ Sought s uid r

/-- The user is found again: the first row taken for the user has its number, or the
number is the one used when there is no such row or when it is the superuser's. -/
def FoundAgain (s : Snapshot) (uid : ℤ) : Prop :=
  (∃ row, FirstSought s uid row ∧ row.uid = uid)
    ∨ (uid = 1000 ∧ ∀ row, FirstSought s uid row → row.uid = 0)

theorem detectActiveUser_eq {s : Snapshot} {uid : ℤ} (h : foundUid s = some uid) :
  detectActiveUser s 64 = handedName s uid
  := by
  have hunknown : stored unknownUser 64 = unknownUser := by decide
  obtain hname | ⟨pwName, hname⟩ := Option.eq_none_or_eq_some (s.getpwuid uid)
  · simp [detectActiveUser, handedName, h, hname, hunknown]
  · simp [detectActiveUser, handedName, h, hname, hunknown]

theorem handedName_ne_nil (s : Snapshot) (uid : ℤ) :
  handedName s uid ≠ []
  := by
  unfold handedName
  split
  · split
    · decide
    case isFalse h => exact h
  · decide

theorem isOpenName_handedName_iff (s : Snapshot) (uid : ℤ) :
  IsOpenName (some (handedName s uid)) ↔ handedName s uid = rootUser
  := by
  simp [IsOpenName, handedName_ne_nil]

/-- Where the name is `root`, the graphical program finds the same process as the
watchdog. -/
theorem targetUid_root {s : Snapshot} {uid : ℤ} (h : foundUid s = some uid) :
  (SeenInProc s ∧ targetUid s (some rootUser) = some uid)
    ∨ (¬ SeenInProc s ∧ targetUid s (some rootUser) = none)
  := by
  have hopen : IsOpenName (some rootUser) := by decide
  rw [targetUid, if_pos hopen, expectedConcat_eq]
  unfold foundUid at h
  unfold SeenInProc
  cases hvt : searchVt s (expectedPrinted s) with
  | some v =>
      rw [hvt] at h
      simp [← h]
  | none =>
      rw [hvt] at h
      cases hgraphical : searchGraphical s with
      | some v =>
          rw [hgraphical] at h
          simp [← h]
      | none => simp

/-- The rows that match in the graphical program are those taken for the user found. -/
theorem isMatch_iff_sought {s : Snapshot} {uid : ℤ} (h : foundUid s = some uid) (row : PasswdRow) :
  IsMatch (targetUid s (some (handedName s uid))) (some (handedName s uid)) row ↔ Sought s uid row
  := by
  have hnamed : (some (handedName s uid) = some row.user ∧ row.user ≠ [])
      ↔ row.user = handedName s uid := by
    rw [Option.some.injEq]
    constructor
    · rintro ⟨heq, -⟩
      rw [heq]
    · intro heq
      rw [heq]
      exact ⟨rfl, handedName_ne_nil s uid⟩
  by_cases hroot : handedName s uid = rootUser
  · have hopen : IsOpenName (some rootUser) := by decide
    rw [hroot] at hnamed ⊢
    obtain ⟨hseen, htarget⟩ | ⟨hseen, htarget⟩ := targetUid_root h
    · simp [Sought, IsMatch, hroot, htarget, hseen]
    · rw [htarget, IsMatch, hnamed]
      simp [Sought, hroot, hseen, hopen]
  · have hopen : ¬ IsOpenName (some (handedName s uid)) := by
      rw [isOpenName_handedName_iff]
      exact hroot
    have htarget : targetUid s (some (handedName s uid)) = none := if_neg hopen
    rw [htarget, IsMatch, hnamed]
    simp [Sought, hroot, hopen]

theorem find?_eq_some_iff_firstSought
    {s : Snapshot} {uid : ℤ} (h : foundUid s = some uid) (row : PasswdRow) :
  (rows s).find? (fun row => IsMatch (targetUid s (some (handedName s uid)))
      (some (handedName s uid)) row) = some row
    ↔ FirstSought s uid row
  := by
  simp [List.find?_eq_some_iff_append, FirstSought, isMatch_iff_sought h]

/-- A number that is not the superuser's is the account's exactly when the first row has
it, or when it is the default number and no row overrides this. -/
theorem accountUid_eq_iff {uid : ℤ} (hpos : uid ≠ 0) (row : Option PasswdRow) :
  accountUid row = uid
    ↔ (∃ r, row = some r ∧ r.uid = uid) ∨ (uid = 1000 ∧ ∀ r, row = some r → r.uid = 0)
  := by
  cases row with
  | none => simp [accountUid, eq_comm]
  | some r =>
      simp only [accountUid, Option.some.injEq, exists_eq_left', forall_eq']
      split
      case isTrue h =>
        rw [h]
        omega
      case isFalse h =>
        omega

/-! ### Users found are users -/

theorem searchProc_isUserUid {s : Snapshot} {test : Bytes → Bool} {uid : ℤ}
    (h : searchProc s test = some uid) :
  IsUserUid uid
  := by
  unfold searchProc at h
  split at h
  · cases h
  · obtain ⟨p, hp, hpuid⟩ := Option.bind_eq_some_iff.mp h
    obtain ⟨v, hv, rfl⟩ := Option.map_eq_some_iff.mp hpuid
    have hpasses := List.find?_some hp
    unfold ProcDir.Passes at hpasses
    split at hpasses
    case h_1 c _ v' _ _ hv' _ =>
      rw [hv] at hv'
      cases hv'
      simp only [Bool.and_eq_true, decide_eq_true_eq] at hpasses
      rw [Int.ofNat_eq_natCast, IsUserUid]
      omega
    case h_2 => cases hpasses

/-- The search of the watchdog ends with a number from 1000 up to 59999, or with none. -/
theorem foundUid_isUserUid {s : Snapshot} {uid : ℤ} (h : foundUid s = some uid) :
  IsUserUid uid
  := by
  unfold foundUid at h
  split at h
  case h_1 v hvt =>
    cases h
    unfold searchVt at hvt
    split at hvt
    · cases hvt
    · apply searchProc_isUserUid hvt
  case h_2 =>
    split at h
    case h_1 v hgraphical =>
      cases h
      apply searchProc_isUserUid hgraphical
    case h_2 =>
      obtain ⟨file, -, hfirst⟩ := Option.bind_eq_some_iff.mp h
      have huser := List.find?_some hfirst
      simpa using huser

/-- In every environment and on every system on which the search of the watchdog ends with
a user, the session of the graphical program it starts is that user's exactly when the
user is found again in the part of `/etc/passwd` that is read. -/
theorem rescueSession_uid_iff
    (s : Snapshot) (environ : List Bytes) {uid : ℤ} (h : foundUid s = some uid) :
  (rescueSession s environ).uid = uid ↔ FoundAgain s uid
  := by
  have hpos : uid ≠ 0 := by
    have := foundUid_isUserUid h
    unfold IsUserUid at this
    omega
  rw [rescueSession, initStaticInfo, environUser_handOver, detectActiveUser_eq h,
    detectUserSession_uid, accountUid_eq_iff hpos]
  simp only [find?_eq_some_iff_firstSought h]
  rfl

/-! ### A crowded user database -/

/-- A system on which the account `eve`, with number 1001, runs a graphical process, and
whose `/etc/passwd` starts with the rows of a number of services. -/
def system (services : ℕ) : Snapshot where
  active := some (chars ['t', 't', 'y', '2', '\n'])
  proc := some [⟨chars ['7', '4', '1'], some 1001, some (chars ['D', 'I', 'S', 'P', 'L', 'A', 'Y',
    '=', ':', '0', Char.ofNat 0])⟩]
  passwd := some (database services)
  getpwuid := fun uid => firstEntryName (database services) uid.toNat
where
  /-- The rows of the services, and that of the account. -/
  database (services : ℕ) : Bytes :=
    (List.replicate services
        (chars "news:x:9:9:news:/var/spool/news:/usr/sbin/nologin\n".toList)).flatten
      ++ chars "eve:x:1001:1001:Eve:/home/eve:/bin/bash\n".toList

theorem system_givesFirstEntry (services : ℕ) :
  (system services).GivesFirstEntry
  := by
  intro uid
  rfl

/-- Behind the rows of two services the account is found again. -/
theorem rescueSession_uid_iff_system :
  foundUid (system 2) = some 1001 ∧ FoundAgain (system 2) 1001
  := by
  have hfound : foundUid (system 2) = some 1001 := by decide +kernel
  have huid : (rescueSession (system 2) []).uid = 1001 := by decide +kernel
  exact ⟨hfound, (rescueSession_uid_iff (system 2) [] hfound).mp huid⟩

/-- Behind the rows of 170 services the account lies past the part that is read, and the
session is that of the default number. -/
theorem rescueSession_uid_ne_crowded :
  (system 170).GivesFirstEntry ∧ foundUid (system 170) = some 1001
    ∧ (rescueSession (system 170) []).uid ≠ 1001
  := by
  have hfound : foundUid (system 170) = some 1001 := by decide +kernel
  have hdefault : (rescueSession (system 170) []).uid ≠ 1001 := by decide +kernel
  exact ⟨system_givesFirstEntry 170, hfound, hdefault⟩

end LnxCad.Session
