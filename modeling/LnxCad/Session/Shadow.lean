import LnxCad.Gui.Panels
import LnxCad.Session.Lines
import LnxCad.Session.RootPassword

/-!
# The password of root

The password typed at the prompt is given to `su`, then to `sudo`, and is at last compared with the
hash that `/etc/shadow` has for root.  The prompt gives root's rights if and only if one of the three
accepts it, and it is written to each of the two programs at most once.

Of `/etc/shadow` what fits in a buffer is read and gone through line by line.  Only the first line of
root counts.
-/

namespace LnxCad.Session

/-! ### The program -/

/-- What a line of root begins with. -/
def rootPrefix : Bytes := chars ['r', 'o', 'o', 't', ':']

/-- The comparison with the hash of a line, if there is one: `1` that the password is right, `0` that
it is wrong, and `-1` that the line has no hash. -/
def compareHash (crypt : Bytes → Bytes → Option Bytes) (password p : Bytes) : ℤ :=
  if 58 ∈ p then
    let hash := p.takeWhile (· ≠ 58)
    if crypt password hash = some hash then 1 else 0
  else -1

/-- What a line says, if it is one of root. -/
def shadowLine (crypt : Bytes → Bytes → Option Bytes) (password line : Bytes) : Option ℤ :=
  if rootPrefix <+: line then some (compareHash crypt password (line.drop 5)) else none

/-- `verify_root_password_shadow`, given the file if it can be opened. -/
def verifyRootPasswordShadow (crypt : Bytes → Bytes → Option Bytes) (shadow : Option Bytes)
    (password : Bytes) : ℤ :=
  match shadow with
  | none => -1
  | some file => (firstLine (shadowLine crypt password) (cstr (file.take passwdWindow))).getD (-1)

/-- What a check on a pseudo-terminal meets: whether it can be opened, the turns of the loops, and
how the child ends. -/
structure PtyCheck where
  forkpty : Bool
  turns : List Turn
  status : WaitStatus

/-- What the checks of a password meet. -/
structure RootChecks where
  suCheck : PtyCheck
  sudoCheck : PtyCheck
  crypt : Bytes → Bytes → Option Bytes
  shadow : Option Bytes

/-- `verify_root_password`. -/
def verifyRootPassword (k : Kernel) (u : UserSession) (c : Creds) (r : RootChecks)
    (password : Bytes) : ℤ × List PtyAction :=
  let resSu := verifyRootPasswordPtySu k u c password r.suCheck.forkpty r.suCheck.turns
    r.suCheck.status
  if resSu.1 = 1 then resSu
  else
    let resSudo := verifyRootPasswordPtySudo k u c password r.sudoCheck.forkpty r.sudoCheck.turns
      r.sudoCheck.status
    if resSudo.1 = 1 then (1, resSu.2 ++ resSudo.2)
    else (verifyRootPasswordShadow r.crypt r.shadow password, resSu.2 ++ resSudo.2)

/-! ### The hash of root -/

end LnxCad.Session
