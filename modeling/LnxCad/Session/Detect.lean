import LnxCad.Session.Passwd
import Mathlib.Data.List.DropRight

/-!
# The user of the session

The watchdog looks for the user at the keyboard in `detect_active_user` and hands the name
over in the environment of the graphical program, which looks the name up again in
`detect_user_session`.  Both look at the active terminal, at the environments of the
processes and at `/etc/passwd`.
-/

namespace LnxCad.Session

/-- The string a buffer of a given size holds after `safe_copy` into it. -/
def stored (src : Bytes) (size : ℕ) : Bytes := cstr (safeCopy [] src size)

/-- The string a buffer of a given size holds after `snprintf` of a text into it. -/
def printed (text : Bytes) (size : ℕ) : Bytes := text.take (size - 1)

/-- An entry of `/proc`: its name, its owner unless `stat` fails, and what can be read of
its environment. -/
structure ProcDir where
  name : Bytes
  uid : Option ℕ
  environ : Option Bytes

/-- What the two programs read of the system, where `none` is what cannot be opened, and
the name that `getpwuid` gives for a user. -/
structure Snapshot where
  active : Option Bytes
  proc : Option (List ProcDir)
  passwd : Option Bytes
  getpwuid : ℤ → Option Bytes

/-- `getpwuid` gives the name of the first entry of `/etc/passwd` with the number. -/
def Snapshot.GivesFirstEntry (s : Snapshot) : Prop :=
  ∀ uid : ℕ, s.getpwuid uid = s.passwd.bind (fun file => firstEntryName file uid)

/-! ### The search that both programs make -/

/-- `vt_num`: the number of the active terminal, without the line end, and empty where the
name is not that of a virtual terminal. -/
def vtNum (s : Snapshot) : Bytes :=
  match s.active with
  | none => []
  | some file =>
      let activeName := (file.take 63).rdropWhile (fun c => c = 10 ∨ c = 13)
      if (chars ['t', 't', 'y']).isPrefixOf activeName then stored (activeName.drop 3) 16
      else []

/-- The terminated strings of a block, the bytes of the current one given in reverse. -/
def environEntries : Bytes → Bytes → List Bytes
  | _, [] => []
  | acc, c :: m => if c = 0 then acc.reverse :: environEntries [] m else environEntries (c :: acc) m

/-- Whether an entry of `/proc` is a process of a user whose environment, as far as it
fits in the buffer, has a string that passes a test. -/
def ProcDir.Passes (p : ProcDir) (test : Bytes → Bool) : Bool :=
  match p.name, p.uid, p.environ with
  | c :: _, some uid, some environ =>
      decide (49 ≤ c.toNat ∧ c.toNat ≤ 57) && decide (1000 ≤ uid ∧ uid < 60000)
        && (environEntries [] (environ.take 4095)).any test
  | _, _, _ => false

/-- The owner of the first process that passes. -/
def searchProc (s : Snapshot) (test : Bytes → Bool) : Option ℤ :=
  match s.proc with
  | none => none
  | some dirs => (dirs.find? (fun p => p.Passes test)).bind (fun p => p.uid.map Int.ofNat)

/-- The search for a process of the active terminal, by the string its environment is
expected to have. -/
def searchVt (s : Snapshot) (expected : Bytes) : Option ℤ :=
  if vtNum s = [] then none else searchProc s (fun e => e = expected)

/-- Whether a string sets a variable of a graphical session. -/
def isGraphicalVar (e : Bytes) : Bool :=
  (chars ['D', 'I', 'S', 'P', 'L', 'A', 'Y', '=']).isPrefixOf e
    || (chars ['W', 'A', 'Y', 'L', 'A', 'N', 'D', '_', 'D', 'I', 'S', 'P', 'L', 'A', 'Y',
      '=']).isPrefixOf e

/-- The search for any graphical process. -/
def searchGraphical (s : Snapshot) : Option ℤ := searchProc s isGraphicalVar

/-- The name of the variable that holds a session's terminal. -/
def xdgVtnr : Bytes := chars ['X', 'D', 'G', '_', 'V', 'T', 'N', 'R', '=']

/-! ### The watchdog -/

/-- The text `XDG_VTNR=%s` of the watchdog, in a buffer of 32 bytes. -/
def expectedPrinted (s : Snapshot) : Bytes := printed (xdgVtnr ++ vtNum s) 32

/-- `found_uid` at the end of the search of `detect_active_user`. -/
def foundUid (s : Snapshot) : Option ℤ :=
  match searchVt s (expectedPrinted s) with
  | some uid => some uid
  | none =>
      match searchGraphical s with
      | some uid => some uid
      | none => s.passwd.bind firstUserUid

/-- The user name of an account that is not known. -/
def unknownUser : Bytes := chars ['u', 's', 'e', 'r']

/-- `detect_active_user`. -/
def detectActiveUser (s : Snapshot) (maxLen : ℕ) : Bytes :=
  let outUsername :=
    match (foundUid s).bind s.getpwuid with
    | some pwName => stored pwName maxLen
    | none => []
  if outUsername = [] then stored unknownUser maxLen else outUsername

/-- The variable in which the user is handed over. -/
def cadUser : Bytes := chars ['C', 'A', 'D', '_', 'U', 'S', 'E', 'R', '=']

/-- `putenv` of a variable: the setting takes the place of the first one of the variable,
or is put at the end. -/
def putenv (key setting : Bytes) : List Bytes → List Bytes
  | [] => [setting]
  | e :: environ =>
      if key.isPrefixOf e then setting :: environ else e :: putenv key setting environ

/-- The environment the graphical program is started with. -/
def handOver (s : Snapshot) (environ : List Bytes) : List Bytes :=
  putenv cadUser (printed (cadUser ++ detectActiveUser s 64) 128) environ

end LnxCad.Session
