import LnxCad.Session.UserSession

/-!
# The account where nobody is at the keyboard

Where the name leaves the user open and no process tells who it is, the account is to be that
of the first user in `/etc/passwd`.  The rows are compared with the name first: where it is
`root`, the row of `root` itself matches it.
-/

namespace LnxCad.Session

/-- The entries of a user database. -/
def entries (file : Bytes) : List PasswdRow := (lines (cstr file)).filterMap passwdRow

/-- The program goes through all the entries of a file that fits in its buffer. -/
theorem passwdRows_of_le {file : Bytes} (h : file.length ≤ passwdWindow) :
  passwdRows file = entries file
  := by
  rw [passwdRows, passwdLines, List.take_of_length_le h, entries]

/-- No entry of `root` that is not a user's stands in front of the first user's, or else the
entry of `root` has the number `0` and the user has the account that stands for one not
found. -/
def RootBehind (file : Bytes) (row : PasswdRow) : Prop :=
  ∀ r, (entries file).find? (fun r => r.user = rootUser ∨ IsUserUid r.uid) = some r →
    IsUserUid r.uid ∨ (r.uid = 0 ∧ row.account = defaultAccount.account)

/-! ### The rows that match -/

/-- No name, and an empty one, match the users. -/
theorem isMatch_of_ne_root
    {username : Option Bytes} (hopen : IsOpenName username) (hne : username ≠ some rootUser)
    (row : PasswdRow) :
  IsMatch none username row ↔ IsUserUid row.uid
  := by
  have hname : ¬ (username = some row.user ∧ row.user ≠ []) := by
    rintro ⟨heq, hnil⟩
    obtain h | h | h := hopen
    · rw [h] at heq
      cases heq
    · rw [h] at heq
      exact hnil (Option.some.inj heq).symm
    · exact hne h
  simp [IsMatch, hname, hopen]

/-- The name of `root` matches its own entry as well. -/
theorem isMatch_root (row : PasswdRow) :
  IsMatch none (some rootUser) row ↔ row.user = rootUser ∨ IsUserUid row.uid
  := by
  have hopen : IsOpenName (some rootUser) := Or.inr (Or.inr rfl)
  simp only [IsMatch, hopen, true_and, Option.some.injEq]
  constructor
  · rintro (⟨heq, -⟩ | h)
    · exact Or.inl heq.symm
    · exact Or.inr h
  · rintro (heq | h)
    · left
      constructor
      · exact heq.symm
      · rw [heq]
        decide
    · exact Or.inr h

/-! ### The account -/

section Resolve

variable {s : Snapshot} {username : Option Bytes} {row : PasswdRow}

/-- The account where nobody was found, given the first row that matches. -/
theorem resolveAccount_of_find?
    (htarget : targetUid s username = none) {r : PasswdRow}
    (hfind : (rows s).find? (fun r => IsMatch none username r) = some r) (u : UserSession) :
  (resolveAccount s username u).account = if r.uid = 0 then defaultAccount.account else r.account
  := by
  simp only [resolveAccount, htarget, hfind]
  have huid : (u.setAccount r).uid = r.uid := rfl
  rw [huid]
  split
  · rfl
  · rfl

/-- A user that comes first is the account. -/
theorem resolveAccount_of_isUserUid
    (htarget : targetUid s username = none)
    (hfind : (rows s).find? (fun r => IsMatch none username r) = some row)
    (huser : IsUserUid row.uid) (u : UserSession) :
  (resolveAccount s username u).account = row.account
  := by
  rw [resolveAccount_of_find? htarget hfind, if_neg]
  have := huser.1
  omega

/-- Where `root` comes first, the account is that of the first user if and only if both are
the one that stands for an account not found. -/
theorem resolveAccount_of_root
    (htarget : targetUid s username = none) {r : PasswdRow}
    (hfind : (rows s).find? (fun r => IsMatch none username r) = some r)
    (hroot : ¬ IsUserUid r.uid) (huser : IsUserUid row.uid) (u : UserSession) :
  (resolveAccount s username u).account = row.account
    ↔ r.uid = 0 ∧ row.account = defaultAccount.account
  := by
  rw [resolveAccount_of_find? htarget hfind]
  split
  case isTrue hzero =>
    constructor
    · intro heq
      exact ⟨hzero, heq.symm⟩
    · rintro ⟨-, heq⟩
      exact heq.symm
  case isFalse hzero =>
    constructor
    · intro heq
      have huid : r.uid = row.uid := congrArg Account.uid heq
      rw [huid] at hroot
      exact absurd huser hroot
    · rintro ⟨h, -⟩
      exact absurd h hzero

end Resolve

/-- A find that is less particular stops at the same element, or at one that does not pass the
stricter test. -/
theorem find?_of_imp {α : Type*} {p q : α → Bool} (hpq : ∀ a, q a = true → p a = true)
    {l : List α} {b : α} (h : l.find? q = some b) :
  ∃ a, l.find? p = some a ∧ (q a = true → a = b)
  := by
  induction l with
  | nil => cases h
  | cons c l ih =>
      rw [List.find?_cons] at h ⊢
      split at h
      case h_1 hc =>
        rw [hpq c hc]
        exact ⟨c, rfl, fun _ => Option.some.inj h⟩
      case h_2 hc =>
        split
        case h_1 =>
          refine ⟨_, rfl, ?_⟩
          intro hq
          rw [hq] at hc
          cases hc
        case h_2 => exact ih h

section Named

variable {s : Snapshot} {file : Bytes} {username : Option Bytes} {row : PasswdRow}

/-- With the name of `root` the account is that of the first user if and only if no entry of
`root` stands in front. -/
theorem resolveAccount_rootUser_iff (hrows : rows s = entries file)
    (htarget : targetUid s (some rootUser) = none)
    (hrow : (entries file).find? (fun r => IsUserUid r.uid) = some row) (u : UserSession) :
  (resolveAccount s (some rootUser) u).account = row.account ↔ RootBehind file row
  := by
  have huser : IsUserUid row.uid := by simpa using List.find?_some hrow
  have hmatch : (fun r => decide (IsMatch none (some rootUser) r))
      = fun r : PasswdRow => decide (r.user = rootUser ∨ IsUserUid r.uid) := by
    funext r
    rw [decide_eq_decide]
    apply isMatch_root
  obtain ⟨r, hfirst, hsame⟩ :=
    find?_of_imp (p := fun r : PasswdRow => decide (r.user = rootUser ∨ IsUserUid r.uid))
      (by
        intro r hr
        simp only [decide_eq_true_eq] at hr ⊢
        exact Or.inr hr) hrow
  have hfind : (rows s).find? (fun r => IsMatch none (some rootUser) r) = some r := by
    rw [hmatch, hrows, hfirst]
  have hbehind : RootBehind file row
      ↔ IsUserUid r.uid ∨ (r.uid = 0 ∧ row.account = defaultAccount.account) := by
    constructor
    · intro h
      exact h r hfirst
    · intro h r' hr'
      rw [hfirst] at hr'
      cases hr'
      exact h
  rw [hbehind]
  by_cases hr : IsUserUid r.uid
  · obtain rfl := hsame (by simpa using hr)
    simp [resolveAccount_of_isUserUid htarget hfind huser, hr]
  · rw [resolveAccount_of_root htarget hfind hr huser]
    simp [hr]

/-- Without a name the account is that of the first user. -/
theorem resolveAccount_of_noName (hrows : rows s = entries file) (hopen : IsOpenName username)
    (hname : username ≠ some rootUser) (htarget : targetUid s username = none)
    (hrow : (entries file).find? (fun r => IsUserUid r.uid) = some row) (u : UserSession) :
  (resolveAccount s username u).account = row.account
  := by
  have huser : IsUserUid row.uid := by simpa using List.find?_some hrow
  have hmatch : (fun r => decide (IsMatch none username r))
      = fun r : PasswdRow => decide (IsUserUid r.uid) := by
    funext r
    rw [decide_eq_decide]
    apply isMatch_of_ne_root hopen hname
  have hfind : (rows s).find? (fun r => IsMatch none username r) = some row := by
    rw [hmatch, hrows, hrow]
  exact resolveAccount_of_isUserUid htarget hfind huser u

end Named

/-- Where the name leaves the user open and neither search finds one, the account is that of
the first user if and only if the name is not that of `root`, or no entry of `root` stands in
front. -/
theorem detectUserSession_firstUser_iff
    {s : Snapshot} {file : Bytes} (hpasswd : s.passwd = some file)
    (hsize : file.length ≤ passwdWindow) {username : Option Bytes} (hopen : IsOpenName username)
    (hvt : searchVt s (expectedConcat s) = none) (hgraphical : searchGraphical s = none)
    {row : PasswdRow} (hrow : (entries file).find? (fun r => IsUserUid r.uid) = some row)
    (u : UserSession) :
  (detectUserSession s username u).account = row.account
    ↔ (username = some rootUser → RootBehind file row)
  := by
  have htarget : targetUid s username = none := by
    rw [targetUid, if_pos hopen, hvt, hgraphical]
  have hrows : rows s = entries file := by
    rw [rows, hpasswd]
    exact passwdRows_of_le hsize
  rw [detectUserSession_account]
  by_cases hname : username = some rootUser
  · subst hname
    rw [resolveAccount_rootUser_iff hrows htarget hrow]
    simp
  · simp [resolveAccount_of_noName hrows hopen hname htarget hrow, hname]

/-- A user database with `root` in front of one user. -/
def rootAndAnn : Bytes :=
  chars "root:x:0:0:root:/root:/bin/sh\nann:x:1000:1001:Ann:/home/ann:/bin/sh\n".toList

/-- The entry of the user. -/
def annRow : PasswdRow :=
  ⟨chars ['a', 'n', 'n'], 1000, 1001, chars ['/', 'h', 'o', 'm', 'e', '/', 'a', 'n', 'n']⟩

/-- A system with this database, on which no process can be seen. -/
def annSystem : Snapshot where
  active := none
  proc := none
  passwd := some rootAndAnn
  getpwuid := fun _ => none

theorem find?_rootAndAnn :
  (entries rootAndAnn).find? (fun r => IsUserUid r.uid) = some annRow
  := by decide +kernel

/-- Without a name the user is found. -/
theorem detectUserSession_firstUser_iff_noName :
  (detectUserSession annSystem none UserSession.init).account = annRow.account
  := by
  apply (@detectUserSession_firstUser_iff annSystem rootAndAnn rfl _ _ _ _ _ _ find?_rootAndAnn
    _).mpr
  · intro hroot
    cases hroot
  · decide +kernel
  · decide
  · decide +kernel
  · decide +kernel

/-- Under the name `root` the account is one that the database does not have. -/
theorem detectUserSession_not_firstUser_root :
  (entries rootAndAnn).find? (fun r => IsUserUid r.uid) = some annRow
    ∧ rootAndAnn.length ≤ passwdWindow ∧ IsOpenName (some rootUser)
    ∧ searchVt annSystem (expectedConcat annSystem) = none ∧ searchGraphical annSystem = none
    ∧ (detectUserSession annSystem (some rootUser) UserSession.init).account
      = ⟨1000, 1000, chars ['u', 's', 'e', 'r'],
        chars ['/', 'h', 'o', 'm', 'e', '/', 'u', 's', 'e', 'r']⟩
    ∧ (detectUserSession annSystem (some rootUser) UserSession.init).account ≠ annRow.account
  := by decide +kernel

end LnxCad.Session
