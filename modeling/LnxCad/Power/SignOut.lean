import LnxCad.Power.Halt
import LnxCad.Proc.Scan

/-!
# Signing out

`execute_sign_out` asks the desktop to log out, then `loginctl`, and at last sends signals to all
processes of the user.  Between these it reads `/proc` and ends as soon as it sees at most two processes
of the user, as it does where it cannot read `/proc` at all.

The graphical program has its children reaped by the kernel, so that no call of `waitpid` ever returns
one: the success of `loginctl` is never seen, and a session that the desktop does not end is killed.
-/

namespace LnxCad.Power

/-! ### `execute_sign_out` -/

/-- An entry of `/proc`, and its owner unless `stat` fails. -/
structure ProcOwner where
  name : Bytes
  uid : Option ℕ

/-- What `execute_sign_out` sees of the system: the active terminal at every turn of the first loop,
`/proc` and the parent at every time they are read, the process that `loginctl` runs in, what `waitpid`
returns for it, and whether `status` is that of a success then. -/
structure SignOutSystem where
  vActive : ℕ → Option ℤ
  proc : ℕ → Option (List ProcOwner)
  pid : ℤ
  ppid : ℕ → ℤ
  fork : Option ℕ
  waitpid : Option ℕ
  exitedZero : Bool

/-- The user that signs out, and the terminal of the session. -/
structure SignOutUser where
  uid : ℤ
  username : Bytes
  sessionId : Bytes
  deName : Bytes
  originalVt : ℤ

/-- The command with which a desktop logs out, by the names the desktop is known by. -/
def logoutCommands : List (List Bytes × Bytes) :=
  [([chars "TDE".toList, chars "Trinity".toList], chars "dcop ksmserver ksmserver logout 0 0 0".toList),
    ([chars "KDE".toList, chars "PLASMA".toList],
      chars "qdbus org.kde.ksmserver /KSMServer logout 0 0 0".toList),
    ([chars "GNOME".toList, chars "UNITY".toList, chars "PANTHEON".toList, chars "Budgie".toList,
      chars "BUDGIE".toList], chars "gnome-session-quit --logout --no-prompt --force".toList),
    ([chars "XFCE".toList], chars "xfce4-session-logout --logout --fast".toList),
    ([chars "CINNAMON".toList], chars "cinnamon-session-quit --logout --no-prompt".toList),
    ([chars "MATE".toList], chars "mate-session-save --logout --force-logout".toList),
    ([chars "LXQT".toList], chars "lxqt-leave --logout".toList),
    ([chars "LXDE".toList], chars "pkill lxsession".toList),
    ([chars "sway".toList], chars "swaymsg exit".toList),
    ([chars "Hyprland".toList], chars "hyprctl dispatch exit".toList),
    ([chars "i3".toList], chars "i3-msg exit".toList),
    ([chars "openbox".toList], chars "openbox --exit".toList),
    ([chars "ENLIGHTENMENT".toList], chars "enlightenment_remote -logout".toList)]

/-- `de_cmd`. -/
def deCmd (de : Bytes) : Option Bytes :=
  (logoutCommands.find? fun row => row.1.any (strstr de)).map Prod.snd

/-- The process of an entry of `/proc`, if it is one of the user and neither this process nor its
parent. -/
def userProcess (u : SignOutUser) (s : SignOutSystem) (ppid : ℤ) (p : ProcOwner) : Option ℤ :=
  match p.name, p.uid with
  | c :: _, some uid =>
      if 49 ≤ c.toNat ∧ c.toNat ≤ 57 ∧ toInt32 uid = u.uid then
        let pid := strToInt p.name
        if pid ≠ s.pid ∧ pid ≠ ppid then some pid else none
      else none
  | _, _ => none

/-- The processes of the user, the `i`-th time they are looked for. -/
def userProcs (u : SignOutUser) (s : SignOutSystem) (ppid : ℤ) (i : ℕ) : List ℤ :=
  ((s.proc i).getD []).filterMap (userProcess u s ppid)

/-- The loops that wait for the end of the session, from the `i`-th time `/proc` is read on: what is
done, how often `/proc` was read, and whether the session has ended. -/
def awaitLogout (u : SignOutUser) (s : SignOutSystem) : ℕ → ℕ → List PowerAct × ℕ × Bool
  | 0, i => ([], i, false)
  | n + 1, i =>
      if (userProcs u s (s.ppid i) i).length ≤ 2 then ([.slept 100], i + 1, true)
      else
        let (acts, next, ended) := awaitLogout u s n (i + 1)
        (.slept 100 :: acts, next, ended)

/-- The loop that waits for the end of all processes. -/
def awaitEnd (u : SignOutUser) (s : SignOutSystem) (ppid : ℤ) : ℕ → ℕ → List PowerAct × ℕ
  | 0, i => ([], i)
  | n + 1, i =>
      if userProcs u s ppid i = [] then ([.slept 100], i + 1)
      else
        let (acts, next) := awaitEnd u s ppid n (i + 1)
        (.slept 100 :: acts, next)

/-- A signal to all processes of the user. -/
def signalAll (u : SignOutUser) (s : SignOutSystem) (ppid : ℤ) (sig i : ℕ) : List PowerAct :=
  (userProcs u s ppid i).map (.kill · sig)

/-- The last attempt. -/
def killSession (u : SignOutUser) (s : SignOutSystem) (i : ℕ) : List PowerAct :=
  let parent_pid := s.ppid i
  let (acts, next) := awaitEnd u s parent_pid 30 (i + 1)
  signalAll u s parent_pid 15 i ++ acts ++ signalAll u s parent_pid 9 next

/-- What `loginctl` is called with. -/
def loginctlArgs (u : SignOutUser) : List Bytes :=
  if u.sessionId ≠ [] then [chars "terminate-session".toList, u.sessionId]
  else [chars "terminate-user".toList, u.username]

/-- Whether `loginctl` is found to have succeeded. -/
def SignOutSystem.loginctlSucceeds (s : SignOutSystem) : Bool :=
  s.waitpid == s.fork && s.exitedZero

/-- The second attempt, and what follows if it fails. -/
def terminateSession (u : SignOutUser) (s : SignOutSystem) (i : ℕ) : List PowerAct :=
  if u.sessionId ≠ [] ∨ u.username ≠ [] then
    if s.loginctlSucceeds then
      let (acts, next, ended) := awaitLogout u s 100 i
      .loginctl (loginctlArgs u) :: acts ++ if ended then [] else killSession u s next
    else .loginctl (loginctlArgs u) :: killSession u s i
  else killSession u s i

/-- What is done before the desktop is asked. -/
def leaveSession (u : SignOutUser) (s : SignOutSystem) (fds : JournalFds) : List PowerAct :=
  releaseDrm fds ++ closeFd fds.kbd ++ closeFd fds.mouse ++ closeFd fds.rescueTty
    ++ awaitChild (fun i => s.vActive i = some u.originalVt) 100 50 0 ++ closeFd fds.tty
    ++ [.slept 500]

/-- The first attempt, and what follows if it fails. -/
def logout (u : SignOutUser) (s : SignOutSystem) : List PowerAct :=
  match deCmd u.deName with
  | none => terminateSession u s 0
  | some de_cmd =>
      let (acts, next, ended) := awaitLogout u s 150 0
      .asUser de_cmd :: acts ++ if ended then [] else terminateSession u s next

/-- `execute_sign_out`. -/
def executeSignOut (u : SignOutUser) (s : SignOutSystem) (fds : JournalFds) : List PowerAct :=
  leaveSession u s fds ++ logout u s ++ [.exit]

/-! ### Waiting -/

variable (u : SignOutUser) (s : SignOutSystem)

end LnxCad.Power
