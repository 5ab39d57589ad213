import LnxCad.Gui.State
import LnxCad.Lib.Forking
import LnxCad.Power.Halt
import LnxCad.Session.ChildEnv
import LnxCad.Session.RootPassword

/-!
# The processes the program starts

The graphical program runs as root and holds the screen and the keyboard.  Whatever it starts runs
in a process that was forked off: commands of the user, the shell of the terminal, the programs that
check and change passwords, and those that halt the machine or end the session.  None of these
processes ever goes on with the main loop.  What is not to run as root runs as the user, and the
devices stay behind.
-/

namespace LnxCad.Session

open Power (JournalFds)
open Program (All Single get modify choose exit exec forkChild doubleFork)

/-! ### Processes -/

/-- A process: its identity, its supplementary groups, the descriptors it has open, each with
whether it is closed when a program is executed, and whether programs can raise its privileges. -/
structure Process where
  creds : Creds
  groups : List ℕ
  fds : List (ℕ × Bool)
  noNewPrivs : Bool
deriving DecidableEq

/-- What is executed: the program in memory, a file, or a program that is searched for. -/
inductive ExecFile where
  | memfd
  | path (p : Bytes)
  | search (name : Bytes)
deriving DecidableEq

/-- A program that was executed. -/
structure Image where
  file : ExecFile
  argv : List Bytes
  envp : List (Option EnvPtr)
  process : Process

/-- A function that runs in a process and may start others. -/
abbrev Spawning := Program Process Image

/-- The process behind an `execve`. -/
def Process.execed (p : Process) : Process := { p with fds := p.fds.filter fun x => !x.2 }

/-- The process without a descriptor. -/
def Process.without (fd : Option ℕ) (p : Process) : Process :=
  { p with fds := p.fds.filter fun x => some x.1 ≠ fd }

/-- `if (fd >= 0) close(fd)`. -/
def closeIfOpen (fd : Option ℕ) : Spawning Unit := modify (Process.without fd)

/-- A program is executed; it fails, or there is no return. -/
def execve (file : ExecFile) (argv : List Bytes) (envp : List (Option EnvPtr)) : Spawning Unit :=
  exec fun p => ⟨file, argv, envp, p.execed⟩

/-- `safe_fexecve` on the program in memory, by two system calls. -/
def safeFexecve (argv : List Bytes) (envp : List (Option EnvPtr)) : Spawning Unit := do
  execve .memfd argv envp
  execve .memfd argv envp

/-! ### Identities -/

/-- A call that changes the identity, or `_exit(126)`. -/
def setIdentity (f : Creds → Option Creds) : Spawning Unit := do
  let p ← get
  match f p.creds with
  | some c => modify fun p => { p with creds := c }
  | none => exit 126

/-- `setgroups(0, NULL)`, or `_exit(126)`. -/
def clearGroups : Spawning Unit := do
  if ← choose then modify fun p => { p with groups := [] } else exit 126

/-- The identity is the one of the user, or `_exit(126)`. -/
def checkIdentity (u : UserSession) : Spawning Unit := do
  let p ← get
  if p.creds.uid ≠ uidT u.uid ∨ p.creds.euid ≠ uidT u.uid then exit 126
  else if p.creds.gid ≠ uidT u.gid ∨ p.creds.egid ≠ uidT u.gid then exit 126
  else pure ()

/-- `drop_privs_to_user_passwd`. -/
def dropPrivsToUserPasswd (k : Kernel) (u : UserSession) : Spawning Unit := do
  let p ← get
  if p.creds.uid = 0 then clearGroups else pure ()
  setIdentity (k.setgid (uidT u.gid))
  setIdentity (k.setuid (uidT u.uid))
  checkIdentity u

/-- `drop_privs_to_user`, which also asks, by `prctl`, that privileges can not be raised again; it goes
on if that is refused. -/
def dropPrivsToUser (k : Kernel) (prctl : Bool) (u : UserSession) : Spawning Unit := do
  dropPrivsToUserPasswd k u
  modify fun p => { p with noNewPrivs := p.noNewPrivs || prctl }

/-! ### Commands -/

/-- The journal's descriptors are closed. -/
def closeJournal (fds : JournalFds) : Spawning Unit := do
  closeIfOpen fds.kbd
  closeIfOpen fds.mouse
  closeIfOpen fds.tty
  closeIfOpen fds.rescueTty
  closeIfOpen fds.drm

def sh : Bytes := chars "sh".toList

def dashC : Bytes := chars "-c".toList

def binSh : Bytes := chars "/bin/sh".toList

def binBash : Bytes := chars "/bin/bash".toList

/-- What a function that starts processes depends on: what the calls that change an identity do,
whether `prctl` does what it is asked for, the groups that the user is a member of, the descriptors,
the program in memory, the session with its environment, the name of the machine, and the environment
of the program itself. -/
structure World where
  kernel : Kernel
  prctl : Bool
  members : List ℕ
  fds : JournalFds
  busyboxMemfd : Option ℕ
  session : UserSession
  rawEnv : RawEnv
  gethostname : Option Bytes
  environ : List Bytes

/-- The process that runs a command: with the shell in memory, or else with the one of the
system. -/
def commandShell (w : World) (cmd : Bytes) (asRoot : Bool) : Spawning Unit := do
  closeJournal w.fds
  if asRoot then pure () else dropPrivsToUser w.kernel w.prctl w.session
  let envp := executeEnvp asRoot w.session w.rawEnv
  if w.busyboxMemfd.isSome then
    safeFexecve [sh, dashC, cmd] envp
    closeIfOpen w.busyboxMemfd
  else pure ()
  execve (.path binSh) [binSh, dashC, cmd] envp
  exit 127

/-- `execute_command_safe`. -/
def executeCommandSafe (w : World) (cmd : Bytes) (asRoot : Bool) : Spawning Unit :=
  if cmd = [] then pure () else doubleFork (commandShell w cmd asRoot)

/-- `execute_as_user`. -/
def executeAsUser (w : World) (cmd : Bytes) : Spawning Unit := executeCommandSafe w cmd false

/-- A command for the user, detached: for the Lock button, and for the button that begins a new
session. -/
def detachAsUser (w : World) (cmd : Bytes) : Spawning Unit :=
  doubleFork do
    executeAsUser w cmd
    exit 0

/-- The end of `main` when a command was asked for, as root if that was chosen. -/
def runAfterLoop (w : World) (cmd : Bytes) (runAsRoot : Bool) : Spawning Unit := do
  doubleFork do
    if runAsRoot then executeCommandSafe w cmd true else executeAsUser w cmd
    exit 0
  exit 0

/-! ### Shells -/

/-- A shell of the terminal: one of the system, or the one in memory. -/
def terminalShell (w : World) (mode : TerminalMode) (envp memfdEnvp : List (Option EnvPtr)) :
    Spawning Unit :=
  match mode with
  | .bash => do
      closeIfOpen w.busyboxMemfd
      execve (.path binBash) [binBash] envp
      execve (.path binSh) [binSh] envp
  | .busybox => if w.busyboxMemfd.isSome then safeFexecve [sh] memfdEnvp else pure ()

/-- The environment of the shell in memory, for root. -/
def rootEnvp (gethostname : Option Bytes) : List (Option EnvPtr) :=
  let hostname := gethostname.getD (chars "unknown".toList)
  [some (.text termSetting), some (.text (chars "HOME=/root".toList)),
    some (.text (chars "PATH=/sbin:/usr/sbin:/bin:/usr/bin".toList)),
    some (.text (chars "USER=root".toList)), some (envVar hostVar hostname 256), none]

/-- The environment of the program itself, with a variable set. -/
def environWith (name setting : Bytes) (environ : List Bytes) : List (Option EnvPtr) :=
  (putenv name setting environ).map (fun e => some (.text e)) ++ [none]

/-- `launch_terminal_shell`, where `shl_pty_open` is a fork. -/
def launchTerminalShell (w : World) (terminalRootMode : Bool) (mode : TerminalMode) :
    Spawning Bool :=
  forkChild do
    if terminalRootMode then
      terminalShell w mode (environWith termVar termSetting w.environ) (rootEnvp w.gethostname)
    else
      dropPrivsToUser w.kernel w.prctl w.session
      let envp := terminalEnvp w.session w.gethostname w.rawEnv
      terminalShell w mode envp envp
    exit 1

/-! ### Passwords -/

def lcAll : Bytes := chars "LC_ALL=".toList

/-- `drop_privs_to_user_with_groups`. -/
def dropWithGroups (w : World) : Spawning Unit := do
  let p ← get
  setIdentity (dropPrivsToUserWithGroups w.kernel w.session)
  if p.creds.uid = 0 then modify fun p => { p with groups := w.members } else pure ()

/-- The child that checks or changes a password, in the C locale. -/
def passwordChild (w : World) (drop : Spawning Unit) (program : Bytes) (args : List Bytes) :
    Spawning Unit := do
  let p ← get
  if p.creds.uid = 0 ∧ 0 < w.session.uid then drop else pure ()
  execve (.search program) (program :: args) (environWith lcAll (lcAll ++ chars ['C']) w.environ)
  exit 127

/-- The fork of `verify_root_password_pty_su`. -/
def suFork (w : World) : Spawning Bool :=
  forkChild (passwordChild w (dropWithGroups w) (chars "su".toList)
    [dashC, chars "true".toList])

/-- The fork of `verify_root_password_pty_sudo`. -/
def sudoFork (w : World) : Spawning Bool :=
  forkChild (passwordChild w (dropWithGroups w) (chars "sudo".toList)
    [chars "-k".toList, chars "-S".toList, chars "true".toList])

/-- The fork of `change_own_password`. -/
def passwdFork (w : World) : Spawning Bool :=
  forkChild (passwordChild w (dropPrivsToUserPasswd w.kernel w.session) (chars "passwd".toList) [])

/-! ### The end of the session -/

/-- The journal's descriptors are closed, the graphics card first. -/
def releaseJournal (fds : JournalFds) : Spawning Unit := do
  closeIfOpen fds.drm
  closeIfOpen fds.kbd
  closeIfOpen fds.mouse
  closeIfOpen fds.rescueTty
  closeIfOpen fds.tty

/-- The environment of the program itself. -/
def ownEnvp (w : World) : List (Option EnvPtr) := w.environ.map (fun e => some (.text e)) ++ [none]

/-- The environment of the shell in memory that halts the machine. -/
def haltEnvp : List (Option EnvPtr) :=
  [some (.text (chars "PATH=/sbin:/usr/sbin:/bin:/usr/bin".toList)), none]

/-- The child of `execute_restart` and `execute_shutdown` that runs their command. -/
def haltShell (w : World) (cmd : Bytes) : Spawning Unit := do
  if w.busyboxMemfd.isSome then safeFexecve [sh, dashC, cmd] haltEnvp else pure ()
  execve (.path binSh) [sh, dashC, cmd] (ownEnvp w)
  exit 127

/-- A child that writes the disks. -/
def syncChild : Spawning Unit := exit 0

/-- The processes of `execute_restart` and `execute_shutdown`, in a process of their own. -/
def haltMachine (w : World) (cmd : Bytes) : Spawning Unit :=
  doubleFork do
    releaseJournal w.fds
    let _ ← forkChild syncChild
    let _ ← forkChild (haltShell w cmd)
    let _ ← forkChild syncChild
    exit 0

def loginctlPath : Bytes := chars "/usr/bin/loginctl".toList

/-- The child of `execute_sign_out` that runs `loginctl`; the command of the desktop is one for the
user. -/
def loginctlChild (w : World) (args : List Bytes) : Spawning Unit := do
  execve (.path loginctlPath) (loginctlPath :: args) (ownEnvp w)
  exit 127

/-- The second attempt of `execute_sign_out`, in the process of its own. -/
def terminateSession (w : World) (args : List Bytes) : Spawning Unit :=
  doubleFork do
    releaseJournal w.fds
    let _ ← forkChild (loginctlChild w args)
    exit 0

/-! ### Where programs are started -/

/-- The places where other programs are started: for commands, also by functions that do more, for the
terminal, for passwords, and to halt the machine or end the session. -/
inductive Site where
  | command (cmd : Bytes) (asRoot : Bool)
  | detached (cmd : Bytes)
  | runCommand (cmd : Bytes) (asRoot : Bool)
  | shell (asRoot : Bool) (mode : TerminalMode)
  | suCheck
  | sudoCheck
  | passwdChange
  | halt (cmd : Bytes)
  | loginctl (args : List Bytes)

namespace Site

/-- What is done there. -/
def run (w : World) : Site → Spawning Unit
  | command cmd asRoot => executeCommandSafe w cmd asRoot
  | detached cmd => detachAsUser w cmd
  | runCommand cmd asRoot => runAfterLoop w cmd asRoot
  | shell asRoot mode => do
      let _ ← launchTerminalShell w asRoot mode
  | suCheck => do
      let _ ← suFork w
  | sudoCheck => do
      let _ ← sudoFork w
  | passwdChange => do
      let _ ← passwdFork w
  | halt cmd => haltMachine w cmd
  | loginctl args => terminateSession w args

/-- Whether the program is to run as root: that was asked for, or it halts the machine or ends the
session. -/
def asRoot : Site → Bool
  | command _ asRoot => asRoot
  | runCommand _ asRoot => asRoot
  | shell asRoot _ => asRoot
  | halt _ | loginctl _ => true
  | _ => false

/-- Whether it is a password that is checked or changed. -/
def isPassword : Site → Bool
  | suCheck | sudoCheck | passwdChange => true
  | _ => false

/-- Whether the journal's descriptors are closed before. -/
def isCommand : Site → Bool
  | command _ _ | detached _ | runCommand _ _ | halt _ | loginctl _ => true
  | _ => false

end Site

/-- What the shells are called with to run a command. -/
def commandPrograms (w : World) (cmd : Bytes) (asRoot : Bool) :
    List (ExecFile × List Bytes × List (Option EnvPtr)) :=
  let envp := executeEnvp asRoot w.session w.rawEnv
  [(.memfd, [sh, dashC, cmd], envp), (.path binSh, [binSh, dashC, cmd], envp)]

/-- What may be executed for the terminal. -/
def shellPrograms (mode : TerminalMode) (envp memfdEnvp : List (Option EnvPtr)) :
    List (ExecFile × List Bytes × List (Option EnvPtr)) :=
  match mode with
  | .bash => [(.path binBash, [binBash], envp), (.path binSh, [binSh], envp)]
  | .busybox => [(.memfd, [sh], memfdEnvp)]

/-- What may be executed. -/
def Site.programs (w : World) : Site → List (ExecFile × List Bytes × List (Option EnvPtr))
  | command cmd asRoot => commandPrograms w cmd asRoot
  | detached cmd => commandPrograms w cmd false
  | runCommand cmd asRoot => commandPrograms w cmd asRoot
  | shell true mode =>
      shellPrograms mode (environWith termVar termSetting w.environ) (rootEnvp w.gethostname)
  | shell false mode =>
      let envp := terminalEnvp w.session w.gethostname w.rawEnv
      shellPrograms mode envp envp
  | suCheck =>
      [(.search (chars "su".toList), [chars "su".toList, dashC, chars "true".toList],
        environWith lcAll (lcAll ++ chars ['C']) w.environ)]
  | sudoCheck =>
      [(.search (chars "sudo".toList),
        [chars "sudo".toList, chars "-k".toList, chars "-S".toList, chars "true".toList],
        environWith lcAll (lcAll ++ chars ['C']) w.environ)]
  | passwdChange =>
      [(.search (chars "passwd".toList), [chars "passwd".toList],
        environWith lcAll (lcAll ++ chars ['C']) w.environ)]
  | halt cmd =>
      [(.memfd, [sh, dashC, cmd], haltEnvp), (.path binSh, [sh, dashC, cmd], ownEnvp w)]
  | loginctl args => [(.path loginctlPath, loginctlPath :: args, ownEnvp w)]

/-! ### What is executed is confined -/

/-- The identity of the user. -/
structure IsUser (u : UserSession) (c : Creds) : Prop where
  uid : c.uid = uidT u.uid
  euid : c.euid = uidT u.uid
  gid : c.gid = uidT u.gid
  egid : c.egid = uidT u.gid

/-- The descriptors of the journal. -/
def journalFds (fds : JournalFds) : List (Option ℕ) :=
  [fds.kbd, fds.mouse, fds.tty, fds.rescueTty, fds.drm]

/-- What a process may have when it executes a program, if it was started from a process `p`: no
device is open in it, and unless it is to run as root it runs as the user, without the groups of root,
and for good if `prctl` sees to that. -/
structure Held (w : World) (site : Site) (p p' : Process) : Prop where
  devices : ∀ fd, some fd ∈ journalFds w.fds →
    (site.isCommand = true ∨ ∀ x ∈ p.fds, x.1 = fd → x.2 = true) → ∀ x ∈ p'.fds, x.1 ≠ fd
  user : site.asRoot = false → p.creds.uid = 0 → 0 < w.session.uid → IsUser w.session p'.creds
  final : site.asRoot = false → site.isPassword = false → p.creds.uid = 0 →
    IsUser w.session p'.creds ∧ p'.groups = [] ∧ (w.prctl = true → p'.noNewPrivs = true)
  root : site.asRoot = true → p'.creds = p.creds

section Rules

variable {Q : Bool → Unit → Process → Prop} {E : Bool → Ending Image → Prop} {main : Bool}
  {p : Process}

end Rules

theorem mem_fds_without {fd : Option ℕ} {p : Process} {x : ℕ × Bool} :
  x ∈ (p.without fd).fds ↔ x ∈ p.fds ∧ some x.1 ≠ fd
  := by
  simp [Process.without]

theorem mem_fds_execed {p : Process} {x : ℕ × Bool} :
  x ∈ p.execed.fds ↔ x ∈ p.fds ∧ x.2 = false
  := by
  simp [Process.execed]

theorem Held.without {w : World} {site : Site} {p p' : Process} (h : Held w site p p'.execed)
    (fd : Option ℕ) :
  Held w site p (p'.without fd).execed
  := by
  refine ⟨?_, h.user, h.final, h.root⟩
  intro fd' hfd' hclosed x hx
  rw [mem_fds_execed, mem_fds_without] at hx
  exact h.devices fd' hfd' hclosed x (mem_fds_execed.mpr ⟨hx.1.1, hx.2⟩)

section Sites

variable {w : World} {site : Site} {p : Process} {Q : Bool → Unit → Process → Prop}
  {E : Bool → Ending Image → Prop} {main : Bool}

end Sites

/-! ### The number of processes -/

end LnxCad.Session
