import LnxCad.Session.Agreement

/-!
# Who checks the root password

The password of root is checked by `su` and then by `sudo`, which a child of the graphical
program executes.  The program itself runs as root, for whom `su` accepts any password; so
the child drops to the user of the session first, provided that the session has a user
other than root.  It has one unless the row of the user has a negative number.
-/

namespace LnxCad.Session

/-! ### Dropping to the user -/

/-- The identity of a process. -/
structure Creds where
  uid : ℕ
  euid : ℕ
  gid : ℕ
  egid : ℕ
deriving DecidableEq

/-- What the calls that change an identity lead to, `none` being failure. -/
structure Kernel where
  initgroups : Bytes → ℕ → Creds → Option Creds
  setgid : ℕ → Creds → Option Creds
  setuid : ℕ → Creds → Option Creds

/-- An `int` as a `uid_t` or `gid_t`. -/
def uidT (v : ℤ) : ℕ := (v % 2 ^ 32).toNat

/-- The groups of the user are joined, which takes root. -/
def joinGroups (k : Kernel) (u : UserSession) (c : Creds) : Option Creds :=
  if c.uid = 0 then k.initgroups u.username (uidT u.gid) c else some c

/-- `drop_privs_to_user_with_groups`; `none` is `_exit(126)`. -/
def dropPrivsToUserWithGroups (k : Kernel) (u : UserSession) (c : Creds) : Option Creds := do
  let c ← joinGroups k u c
  let c ← k.setgid (uidT u.gid) c
  let c ← k.setuid (uidT u.uid) c
  if c.uid ≠ uidT u.uid ∨ c.euid ≠ uidT u.uid then none
  else if c.gid ≠ uidT u.gid ∨ c.egid ≠ uidT u.gid then none
  else some c

/-- What becomes of a child: it executes a program under an identity, or exits. -/
inductive Fate where
  | exec (argv : List Bytes) (creds : Creds)
  | exit (status : ℕ)
deriving DecidableEq

/-- The child of a password check that executes a program. -/
def checkChild (argv : List Bytes) (k : Kernel) (u : UserSession) (c : Creds) : Fate :=
  if c.uid = 0 ∧ 0 < u.uid then
    match dropPrivsToUserWithGroups k u c with
    | some c => .exec argv c
    | none => .exit 126
  else .exec argv c

/-- The child of `verify_root_password_pty_su`. -/
def suChild : Kernel → UserSession → Creds → Fate :=
  checkChild [chars ['s', 'u'], chars ['-', 'c'], chars ['t', 'r', 'u', 'e']]

/-- The child of `verify_root_password_pty_sudo`. -/
def sudoChild : Kernel → UserSession → Creds → Fate :=
  checkChild [chars ['s', 'u', 'd', 'o'], chars ['-', 'k'], chars ['-', 'S'],
    chars ['t', 'r', 'u', 'e']]

/-- A child that starts as root executes its program as the user only. -/
def DropsToUser (u : UserSession) (child : Kernel → UserSession → Creds → Fate) : Prop :=
  ∀ k c argv c', c.uid = 0 → child k u c = .exec argv c' →
    c'.uid = uidT u.uid ∧ c'.euid = uidT u.uid ∧ c'.uid ≠ 0

/-- The session has a user other than root, and both checks are made as that user. -/
def ChecksAsUser (u : UserSession) : Prop :=
  0 < u.uid ∧ DropsToUser u suChild ∧ DropsToUser u sudoChild

theorem dropPrivsToUserWithGroups_uid {k : Kernel} {u : UserSession} {c c' : Creds}
    (h : dropPrivsToUserWithGroups k u c = some c') :
  c'.uid = uidT u.uid ∧ c'.euid = uidT u.uid
  := by
  simp only [dropPrivsToUserWithGroups, Option.bind_eq_bind, Option.bind_eq_some_iff] at h
  obtain ⟨c₁, -, c₂, -, c₃, -, h⟩ := h
  split at h
  · cases h
  case isFalse huid =>
    split at h
    · cases h
    · cases h
      tauto

/-- A session with a positive number makes every child drop. -/
theorem dropsToUser_checkChild {u : UserSession} (hpos : 0 < u.uid) (hlt : u.uid < 2 ^ 32)
    (argv : List Bytes) :
  DropsToUser u (checkChild argv)
  := by
  intro k c argv' c' hroot hexec
  rw [checkChild, if_pos ⟨hroot, hpos⟩] at hexec
  split at hexec
  case h_2 => cases hexec
  case h_1 c₁ hdrop =>
    cases hexec
    obtain ⟨huid, heuid⟩ := dropPrivsToUserWithGroups_uid hdrop
    refine ⟨huid, heuid, ?_⟩
    rw [huid, uidT]
    omega

/-! ### The number of the session -/

theorem strToIntLoop_bounds {sign res : ℤ} (hsign : sign = 1 ∨ sign = -1) (hlo : 0 ≤ res)
    (hhi : res ≤ 2147483647) (s : Bytes) :
  -2147483648 ≤ strToIntLoop sign res s ∧ strToIntLoop sign res s ≤ 2147483647
  := by
  have hends : -2147483648 ≤ res * sign ∧ res * sign ≤ 2147483647 := by
    obtain rfl | rfl := hsign
    · omega
    · omega
  induction s generalizing res with
  | nil => exact hends
  | cons c s ih =>
      unfold strToIntLoop
      split
      · exact hends
      · dsimp only
        split
        · split
          · omega
          · omega
        case isFalse hle =>
          have hres : 0 ≤ res * 10 + (‹ℕ› : ℤ) := by positivity
          apply ih hres (by omega)
          obtain rfl | rfl := hsign
          · omega
          · omega

/-- A text is read as an `int`. -/
theorem strToInt_bounds (s : Bytes) :
  -2147483648 ≤ strToInt s ∧ strToInt s ≤ 2147483647
  := by
  unfold strToInt
  split
  · apply strToIntLoop_bounds (Or.inr rfl) (by omega) (by omega)
  · apply strToIntLoop_bounds (Or.inl rfl) (by omega) (by omega)
  · apply strToIntLoop_bounds (Or.inl rfl) (by omega) (by omega)

theorem rows_uid_lt {s : Snapshot} {row : PasswdRow} (h : row ∈ rows s) :
  row.uid < 2 ^ 32
  := by
  unfold rows at h
  split at h
  · cases h
  case h_2 file =>
    obtain ⟨line, -, hrow⟩ := List.mem_filterMap.mp h
    unfold passwdRow at hrow
    split at hrow
    case h_2 => cases hrow
    case h_1 uidStr _ _ _ _ _ _ =>
      cases hrow
      have := strToInt_bounds uidStr
      dsimp only
      omega

/-- The first row that is taken for a user by name has a negative number, and no process
stands for the user instead. -/
def NamesNegative (s : Snapshot) (username : Option Bytes) : Prop :=
  targetUid s username = none ∧ ∃ before row after, rows s = before ++ row :: after
    ∧ (∀ r ∈ before, ¬ IsMatch none username r) ∧ IsMatch none username row ∧ row.uid < 0

theorem targetUid_isUserUid {s : Snapshot} {username : Option Bytes} {uid : ℤ}
    (h : targetUid s username = some uid) :
  IsUserUid uid
  := by
  unfold targetUid at h
  split at h
  case isFalse => cases h
  case isTrue =>
    split at h
    case h_1 v hvt =>
      cases h
      unfold searchVt at hvt
      split at hvt
      · cases hvt
      · apply searchProc_isUserUid hvt
    case h_2 => apply searchProc_isUserUid h

theorem accountUid_pos_iff (row : PasswdRow) :
  0 < accountUid (some row) ↔ ¬ row.uid < 0
  := by
  simp only [accountUid]
  split
  case isTrue hzero =>
    rw [hzero]
    decide
  case isFalse => omega

/-- A row of a process's user has a positive number. -/
theorem not_neg_of_isMatch {s : Snapshot} {username : Option Bytes} {uid : ℤ} {row : PasswdRow}
    (htarget : targetUid s username = some uid) (hmatch : IsMatch (some uid) username row) :
  ¬ row.uid < 0
  := by
  have huid : row.uid = uid := hmatch
  have huser : 1000 ≤ uid := (targetUid_isUserUid htarget).1
  omega

/-- The session has a positive number unless a row with a negative one is taken for the
user. -/
theorem detectUserSession_uid_pos_iff (s : Snapshot) (username : Option Bytes) :
  0 < (detectUserSession s username UserSession.init).uid ↔ ¬ NamesNegative s username
  := by
  have hfirst : NamesNegative s username ↔ targetUid s username = none
      ∧ ∃ row, (rows s).find? (fun row => IsMatch (targetUid s username) username row) = some row
        ∧ row.uid < 0 := by
    unfold NamesNegative
    refine and_congr_right ?_
    intro htarget
    rw [htarget]
    constructor
    · rintro ⟨before, row, after, hrows, hbefore, hmatch, hneg⟩
      refine ⟨row, List.find?_eq_some_iff_append.mpr ⟨by simpa using hmatch, before, after, hrows, ?_⟩, hneg⟩
      intro r hr
      simpa using hbefore r hr
    · rintro ⟨row, hfind, hneg⟩
      obtain ⟨hmatch, before, after, hrows, hbefore⟩ := List.find?_eq_some_iff_append.mp hfind
      refine ⟨before, row, after, hrows, ?_, by simpa using hmatch, hneg⟩
      intro r hr
      simpa using hbefore r hr
  rw [detectUserSession_uid, hfirst]
  cases hfind : (rows s).find? (fun row => IsMatch (targetUid s username) username row) with
  | none => simp [accountUid]
  | some row =>
      rw [accountUid_pos_iff]
      cases htarget : targetUid s username with
      | none => simp
      | some uid =>
          have hmatch := List.find?_some hfind
          rw [htarget] at hmatch
          have hpos := not_neg_of_isMatch htarget (by simpa using hmatch)
          simp only [reduceCtorEq, false_and, not_false_iff, iff_true]
          exact hpos

/-! ### The checks -/

theorem detectUserSession_uid_lt (s : Snapshot) (username : Option Bytes) :
  (detectUserSession s username UserSession.init).uid < 2 ^ 32
  := by
  rw [detectUserSession_uid]
  cases hfind : (rows s).find? (fun row => IsMatch (targetUid s username) username row) with
  | none => decide
  | some row =>
      have hlt := rows_uid_lt (List.mem_of_find?_eq_some hfind)
      simp only [accountUid]
      split
      · decide
      · exact hlt

/-- In every environment and on every system, the root password is checked as the user,
exactly when the number of the row that is taken for the user is not negative. -/
theorem initStaticInfo_checksAsUser_iff (s : Snapshot) (environ : List Bytes) :
  ChecksAsUser (initStaticInfo s environ) ↔ ¬ NamesNegative s (some (environUser environ))
  := by
  rw [← detectUserSession_uid_pos_iff]
  constructor
  · rintro ⟨hpos, -, -⟩
    exact hpos
  · intro hpos
    have hlt := detectUserSession_uid_lt s (some (environUser environ))
    exact ⟨hpos, dropsToUser_checkChild hpos hlt _, dropsToUser_checkChild hpos hlt _⟩

/-- A system whose user database has one row, for an account with a negative number. -/
def negativeSystem : Snapshot where
  active := none
  proc := none
  passwd := some (chars "eve:x:-5:100:Eve:/home/eve:/bin/bash\n".toList)
  getpwuid := fun _ => none

/-- The environment that hands the account over. -/
def eveEnviron : List Bytes := [chars "CAD_USER=eve".toList]

/-- A process of root. -/
def rootCreds : Creds := ⟨0, 0, 0, 0⟩

/-- The session of an account with a negative number has this number, and `su` is executed
as root, whatever the calls that drop privileges would do. -/
theorem initStaticInfo_not_checksAsUser_negative :
  ¬ ChecksAsUser (initStaticInfo negativeSystem eveEnviron)
    ∧ (initStaticInfo negativeSystem eveEnviron).uid = -5
    ∧ ∀ k, suChild k (initStaticInfo negativeSystem eveEnviron) rootCreds
      = .exec [chars ['s', 'u'], chars ['-', 'c'], chars ['t', 'r', 'u', 'e']] rootCreds
  := by
  have huid : (initStaticInfo negativeSystem eveEnviron).uid = -5 := by decide +kernel
  refine ⟨?_, huid, ?_⟩
  · rintro ⟨hpos, -, -⟩
    rw [huid] at hpos
    omega
  · intro k
    rw [suChild, checkChild, if_neg]
    rw [huid]
    omega

end LnxCad.Session
