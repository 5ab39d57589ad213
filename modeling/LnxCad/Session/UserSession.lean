import LnxCad.Session.Detect

/-!
# The session of the graphical program

`init_static_info` takes the user from the environment and `detect_user_session` fills in
`user_session`: the account from `/etc/passwd`, the variables of the desktop from the
first graphical process of the account, and the command that locks the screen.
-/

namespace LnxCad.Session

/-- `user_session`; the strings are those its buffers hold. -/
structure UserSession where
  uid : ℤ
  gid : ℤ
  username : Bytes
  home : Bytes
  display : Bytes
  xauthority : Bytes
  xdgRuntimeDir : Bytes
  waylandDisplay : Bytes
  dbusAddr : Bytes
  deName : Bytes
  sessionId : Bytes
  lockCmd : Bytes
  rawEnv : Bytes
deriving DecidableEq

/-- Nothing is known at the start. -/
def UserSession.init : UserSession :=
  ⟨0, 0, [], [], [], [], [], [], [], [], [], [], []⟩

/-! ### The account -/

/-- The name of the superuser. -/
def rootUser : Bytes := chars ['r', 'o', 'o', 't']

/-- Whether a name leaves the user open: there is none, it is empty, or it is that of the
superuser. -/
def IsOpenName (username : Option Bytes) : Prop :=
  username = none ∨ username = some [] ∨ username = some rootUser

instance : DecidablePred IsOpenName := fun username =>
  inferInstanceAs (Decidable (username = none ∨ username = some [] ∨ username = some rootUser))

/-- The text `XDG_VTNR=` and the terminal, put together in a buffer of 32 bytes. -/
def expectedConcat (s : Snapshot) : Bytes :=
  cstr (safeConcat (safeCopy [] xdgVtnr 32) (vtNum s) 32)

/-- `target_uid`: the owner of a process of the session, sought only where the name leaves
the user open. -/
def targetUid (s : Snapshot) (username : Option Bytes) : Option ℤ :=
  if IsOpenName username then
    match searchVt s (expectedConcat s) with
    | some uid => some uid
    | none => searchGraphical s
  else none

/-- `is_match`: whether a row is the one of the account sought. -/
def IsMatch (target : Option ℤ) (username : Option Bytes) (row : PasswdRow) : Prop :=
  match target with
  | some uid => row.uid = uid
  | none =>
      (username = some row.user ∧ row.user ≠ []) ∨ (IsOpenName username ∧ IsUserUid row.uid)

instance (target : Option ℤ) (username : Option Bytes) (row : PasswdRow) :
    Decidable (IsMatch target username row) :=
  match target with
  | some uid => inferInstanceAs (Decidable (row.uid = uid))
  | none => inferInstanceAs (Decidable ((username = some row.user ∧ row.user ≠ [])
      ∨ (IsOpenName username ∧ IsUserUid row.uid)))

/-- The account of a row. -/
def UserSession.setAccount (u : UserSession) (row : PasswdRow) : UserSession :=
  { u with
    uid := row.uid
    gid := row.gid
    username := stored row.user 64
    home := stored row.home 256 }

/-- The account that stands for one that was not found, or that turned out to be the
superuser's. -/
def defaultAccount : PasswdRow :=
  ⟨unknownUser, 1000, 1000, chars ['/', 'h', 'o', 'm', 'e', '/', 'u', 's', 'e', 'r']⟩

/-- The rows of `/etc/passwd`, none where it cannot be opened. -/
def rows (s : Snapshot) : List PasswdRow :=
  match s.passwd with
  | none => []
  | some file => passwdRows file

/-- The account: that of the first row sought, or the default one. -/
def resolveAccount (s : Snapshot) (username : Option Bytes) (u : UserSession) : UserSession :=
  let target := targetUid s username
  let u :=
    match (rows s).find? (fun row => IsMatch target username row) with
    | some row => u.setAccount row
    | none => u
  if u.uid = 0 then u.setAccount defaultAccount else u

/-! ### The variables of the desktop -/

/-- A variable, the size of its buffer, and how its value is kept. -/
structure DesktopVar where
  key : Bytes
  size : ℕ
  keep : Bytes → UserSession → UserSession

/-- The variables that are kept, in the order in which a string is compared with them; the
name of the desktop given by `DESKTOP_SESSION` does not replace another. -/
def desktopVars : List DesktopVar :=
  [⟨chars ['D', 'I', 'S', 'P', 'L', 'A', 'Y', '='], 64, fun v u => { u with display := v }⟩,
    ⟨chars ['X', 'A', 'U', 'T', 'H', 'O', 'R', 'I', 'T', 'Y', '='], 256,
      fun v u => { u with xauthority := v }⟩,
    ⟨chars ['W', 'A', 'Y', 'L', 'A', 'N', 'D', '_', 'D', 'I', 'S', 'P', 'L', 'A', 'Y', '='], 64,
      fun v u => { u with waylandDisplay := v }⟩,
    ⟨chars ['D', 'B', 'U', 'S', '_', 'S', 'E', 'S', 'S', 'I', 'O', 'N', '_', 'B', 'U', 'S', '_',
        'A', 'D', 'D', 'R', 'E', 'S', 'S', '='], 512, fun v u => { u with dbusAddr := v }⟩,
    ⟨chars ['X', 'D', 'G', '_', 'C', 'U', 'R', 'R', 'E', 'N', 'T', '_', 'D', 'E', 'S', 'K', 'T',
        'O', 'P', '='], 64, fun v u => { u with deName := v }⟩,
    ⟨chars ['D', 'E', 'S', 'K', 'T', 'O', 'P', '_', 'S', 'E', 'S', 'S', 'I', 'O', 'N', '='], 64,
      fun v u => if u.deName = [] then { u with deName := v } else u⟩,
    ⟨chars ['X', 'D', 'G', '_', 'R', 'U', 'N', 'T', 'I', 'M', 'E', '_', 'D', 'I', 'R', '='], 256,
      fun v u => { u with xdgRuntimeDir := v }⟩,
    ⟨chars ['X', 'D', 'G', '_', 'S', 'E', 'S', 'S', 'I', 'O', 'N', '_', 'I', 'D', '='], 32,
      fun v u => { u with sessionId := v }⟩]

/-- One string of the environment is kept under the first variable it sets. -/
def keepVar (u : UserSession) (e : Bytes) : UserSession :=
  match desktopVars.find? (fun v => v.key.isPrefixOf e) with
  | some v => v.keep (stored (e.drop v.key.length) v.size) u
  | none => u

/-- The environment of an entry of `/proc`, as far as it fits in the buffer, if the entry
is a graphical process of an account. -/
def ProcDir.graphicalEnviron (uid : ℤ) (p : ProcDir) : Option Bytes :=
  match p.name, p.uid, p.environ with
  | c :: _, some owner, some environ =>
      let env := environ.take 32767
      if 49 ≤ c.toNat ∧ c.toNat ≤ 57 ∧ Int.bmod owner (2 ^ 32) = uid
          ∧ (environEntries [] env).any isGraphicalVar then
        some env
      else none
  | _, _, _ => none

/-- The variables of the first graphical process of the account, and its whole
environment. -/
def readDesktop (s : Snapshot) (u : UserSession) : UserSession :=
  match (s.proc.getD []).findSome? (ProcDir.graphicalEnviron u.uid) with
  | some env => { (environEntries [] env).foldl keepVar u with rawEnv := env }
  | none => u

/-! ### The command that locks the screen -/

/-- The desktops with a command of their own: the texts sought in the name of the desktop,
and the command. -/
def lockCommands : List (List Bytes × Bytes) :=
  [([chars ['T', 'D', 'E'], chars ['T', 'r', 'i', 'n', 'i', 't', 'y']],
      chars "dcop kdesktop KScreensaverIface lock".toList),
    ([chars ['K', 'D', 'E'], chars ['P', 'L', 'A', 'S', 'M', 'A']],
      chars "qdbus org.freedesktop.ScreenSaver /ScreenSaver Lock".toList),
    ([chars ['G', 'N', 'O', 'M', 'E'], chars ['U', 'N', 'I', 'T', 'Y']],
      chars "gnome-screensaver-command -l".toList),
    ([chars ['X', 'F', 'C', 'E']], chars "xflock4".toList),
    ([chars ['L', 'X', 'Q', 'T']], chars "lxqt-lockscreen".toList),
    ([chars ['L', 'X', 'D', 'E']], chars "lxlock".toList),
    ([chars ['M', 'A', 'T', 'E']], chars "mate-screensaver-command -l".toList),
    ([chars ['C', 'I', 'N', 'N', 'A', 'M', 'O', 'N']],
      chars "cinnamon-screensaver-command -l".toList),
    ([chars ['P', 'A', 'N', 'T', 'H', 'E', 'O', 'N']], chars "dm-tool lock".toList),
    ([chars ['E', 'N', 'L', 'I', 'G', 'H', 'T', 'E', 'N', 'M', 'E', 'N', 'T']],
      chars "enlightenment_remote -screen-lock".toList),
    ([chars ['s', 'w', 'a', 'y']], chars "swaylock".toList),
    ([chars ['H', 'y', 'p', 'r', 'l', 'a', 'n', 'd']], chars "hyprlock".toList)]

/-- The lock command is that of the first desktop whose texts the name contains. -/
def deduceLock (u : UserSession) : UserSession :=
  match lockCommands.find? (fun c => c.1.any (strstr u.deName)) with
  | some c => { u with lockCmd := stored c.2 256 }
  | none => { u with lockCmd := stored (chars "xdg-screensaver lock".toList) 256 }

/-- `detect_user_session`. -/
def detectUserSession (s : Snapshot) (username : Option Bytes) (u : UserSession) : UserSession :=
  deduceLock (readDesktop s (resolveAccount s username u))

/-! ### What leaves the account alone -/

/-- The account of a session, or the one a row describes. -/
structure Account where
  uid : ℤ
  gid : ℤ
  username : Bytes
  home : Bytes
deriving DecidableEq

/-- The account of a session. -/
def UserSession.account (u : UserSession) : Account := ⟨u.uid, u.gid, u.username, u.home⟩

/-- The account of a row, its strings cut to the size of their buffers. -/
def PasswdRow.account (row : PasswdRow) : Account :=
  ⟨row.uid, row.gid, stored row.user 64, stored row.home 256⟩

@[simp]
theorem UserSession.account_setAccount (u : UserSession) (row : PasswdRow) :
  (u.setAccount row).account = row.account
  := rfl

/-- The variables of the desktop leave the account alone. -/
theorem keepVar_account (u : UserSession) (e : Bytes) :
  (keepVar u e).account = u.account
  := by
  have hkeep : ∀ v ∈ desktopVars, ∀ value, (v.keep value u).account = u.account := by
    intro v hv value
    simp only [desktopVars, List.mem_cons, List.not_mem_nil, or_false] at hv
    obtain rfl | rfl | rfl | rfl | rfl | rfl | rfl | rfl := hv
    case inr.inr.inr.inr.inr.inl =>
      dsimp only
      split
      · rfl
      · rfl
    all_goals rfl
  unfold keepVar
  split
  case h_1 v hv => apply hkeep v (List.mem_of_find?_eq_some hv)
  case h_2 => rfl

theorem foldl_keepVar_account (es : List Bytes) (u : UserSession) :
  (es.foldl keepVar u).account = u.account
  := by
  induction es generalizing u with
  | nil => rfl
  | cons e es ih => rw [List.foldl_cons, ih, keepVar_account]

theorem readDesktop_account (s : Snapshot) (u : UserSession) :
  (readDesktop s u).account = u.account
  := by
  unfold readDesktop
  split
  case h_1 env _ => exact foldl_keepVar_account _ u
  case h_2 => rfl

theorem deduceLock_account (u : UserSession) :
  (deduceLock u).account = u.account
  := by
  unfold deduceLock
  split
  · rfl
  · rfl

/-- The account of the session is the one that was resolved. -/
theorem detectUserSession_account (s : Snapshot) (username : Option Bytes) (u : UserSession) :
  (detectUserSession s username u).account = (resolveAccount s username u).account
  := by
  rw [detectUserSession, deduceLock_account, readDesktop_account]

/-! ### The user of the environment -/

/-- The value of the first setting of a variable. -/
def valueOf (key : Bytes) (environ : List Bytes) : Option Bytes :=
  (environ.find? (fun e => key.isPrefixOf e)).map (fun e => e.drop key.length)

/-- The user of an environment without `CAD_USER`: the value of the first `SUDO_USER`, or
else that of `USER`, where a later setting replaces `root`. -/
def fallbackUser : Option Bytes → List Bytes → Option Bytes
  | user, [] => user
  | user, e :: environ =>
      if (chars ['S', 'U', 'D', 'O', '_', 'U', 'S', 'E', 'R', '=']).isPrefixOf e then
        some (e.drop 10)
      else if (chars ['U', 'S', 'E', 'R', '=']).isPrefixOf e
          ∧ (user = none ∨ user = some rootUser) then
        fallbackUser (some (e.drop 5)) environ
      else fallbackUser user environ

/-- The user that `init_static_info` takes from the environment. -/
def environUser (environ : List Bytes) : Bytes :=
  match valueOf cadUser environ with
  | some user => user
  | none => (fallbackUser none environ).getD rootUser

/-- `init_static_info`, as far as the session is concerned. -/
def initStaticInfo (s : Snapshot) (environ : List Bytes) : UserSession :=
  detectUserSession s (some (environUser environ)) UserSession.init

/-- The session of the graphical program that the watchdog starts. -/
def rescueSession (s : Snapshot) (environ : List Bytes) : UserSession :=
  initStaticInfo s (handOver s environ)

end LnxCad.Session
