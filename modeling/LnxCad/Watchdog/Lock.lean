import LnxCad.Lib.ReadAll
import LnxCad.Session.Detect

/-!
# Locked screens

`is_screen_locked` looks for a program that locks the screen, asks the desktop of Trinity, and asks
`loginctl` for every session it lists.  It finds a lock exactly when one of the three shows it in what
fits into its buffers, however the output of the programs is cut into pieces.

The kernel cuts the name of a program after 15 bytes, so that six of the 14 names are never found.
-/

namespace LnxCad.Watchdog

open Session

/-! ### Programs that are run -/

/-- A program that is run behind a pipe: whether it could be started, what the reads of its output
return, and whether it exits with status 0. -/
structure Command where
  started : Bool
  reads : List (ReadAll.Call UInt8)
  succeeded : Bool

/-- `run_cmd_capture` and `run_cmd_search_capture`: the string in the buffer if 0 is returned; `none` if
they never return. -/
def runCmdCapture (c : Command) (out_len : ℕ) : Option (Option Bytes) :=
  if c.started then
    (ReadAll.run (out_len - 1) c.reads).map fun out =>
      if c.succeeded then some (cstr out) else none
  else some none

/-! ### `is_screen_locked` -/

/-- An entry of `/proc`: its name, what can be read from its `comm`, and its owner. -/
structure ProcComm where
  name : Bytes
  comm : Option Bytes
  uid : Option ℕ

/-- What `getpwuid` gives. -/
structure Passwd where
  uid : ℕ
  gid : ℕ
  name : Bytes

/-- What `is_screen_locked` sees of the system: `/proc`, as it is read twice, the users, the
environments, and the programs it runs. -/
structure LockSystem where
  first : Option (List ProcComm)
  second : Option (List ProcComm)
  getpwuid : ℕ → Option Passwd
  environ : ℤ → Option Bytes
  dcop : Passwd → Bytes → Command
  listSessions : Command
  showSession : ℕ → Bytes → Command

/-- `comm`, without the end of the line. -/
def commName (file : Bytes) : Bytes :=
  let comm := file.take 255
  cstr (if comm.getLast? = some 10 then comm.dropLast else comm)

/-- The name of the program of a process. -/
def ProcComm.program (p : ProcComm) : Option Bytes :=
  match p.name with
  | c :: _ =>
      if 49 ≤ c.toNat ∧ c.toNat ≤ 57 then
        p.comm.bind fun file => if file = [] then none else some (commName file)
      else none
  | [] => none

/-- The programs that lock the screen. -/
def lockers : List Bytes :=
  [chars "swaylock".toList, chars "i3lock".toList, chars "slock".toList, chars "hyprlock".toList,
    chars "xlock".toList, chars "xsecurelock".toList, chars "gtklock".toList, chars "lxlock".toList,
    chars "kscreenlocker_greet".toList, chars "gnome-screensaver-dialog".toList,
    chars "mate-screensaver-dialog".toList, chars "xfce4-screensaver-dialog".toList,
    chars "cinnamon-screensaver-dialog".toList, chars "xscreensaver-auth".toList]

/-- Whether the process is one of a program that locks the screen. -/
def ProcComm.locks (p : ProcComm) : Bool :=
  match p.program with
  | some comm => lockers.any (strstr comm)
  | none => false

def ProcComm.isKdesktopLock (p : ProcComm) : Bool :=
  p.program = some (chars "kdesktop_lock".toList)

/-- `display_env`. -/
def displayEnv (environ : Option Bytes) : Bytes :=
  match (environEntries [] ((environ.getD []).take 4095)).find?
      (fun e => (chars "DISPLAY=".toList).isPrefixOf e) with
  | some e => stored (e.drop 8) 64
  | none => chars ":0".toList

/-- Whether the output of a program has a text. -/
def tells (text : Bytes) (out : Option Bytes) : Bool := out.any (fun out => strstr out text)

/-- The question to Trinity. -/
def dcopLocked (s : LockSystem) : Option Bool :=
  match s.second.bind (·.find? ProcComm.isKdesktopLock) with
  | none => some false
  | some p =>
      match (p.uid.filter (0 < ·)).bind s.getpwuid with
      | none => some false
      | some pw =>
          (runCmdCapture (s.dcop pw (displayEnv (s.environ (strtol p.name)))) 64).map
            (tells (chars "true".toList))

/-- `is_alphanumeric`, of a byte. -/
def isAlphanumeric (c : UInt8) : Bool :=
  (97 ≤ c.toNat ∧ c.toNat ≤ 122) ∨ (65 ≤ c.toNat ∧ c.toNat ≤ 90) ∨ (48 ≤ c.toNat ∧ c.toNat ≤ 57)

/-- `sess_id`, if it is that of a session. -/
def sessId (line : Bytes) : Option Bytes :=
  let sess_id := ((line.dropWhile isSpace).takeWhile (fun c => !isSpace c)).take 63
  if sess_id ≠ [] ∧ sess_id.all isAlphanumeric then some sess_id else none

/-- The loop over the sessions. -/
def showSessions (s : LockSystem) : ℕ → List Bytes → Option Bool
  | _, [] => some false
  | i, line :: rest =>
      if line = [] then some false
      else
        match sessId line with
        | none => showSessions s (i + 1) rest
        | some sess_id => do
            let out ← runCmdCapture (s.showSession i sess_id) 256
            if tells (chars "LockedHint=yes".toList) out then some true
            else showSessions s (i + 1) rest

/-- The question to `loginctl`. -/
def sessionsLocked (s : LockSystem) : Option Bool := do
  match ← runCmdCapture s.listSessions 4096 with
  | none => some false
  | some sessions_buf => showSessions s 0 (sessions_buf.splitOn 10)

/-- `is_screen_locked`; `none` if it never returns. -/
def isScreenLocked (s : LockSystem) : Option Bool :=
  match s.first with
  | none => some false
  | some dirs =>
      if dirs.any ProcComm.locks then some true
      else do
        let locked ← dcopLocked s
        if locked then some true else sessionsLocked s

/-! ### What is found -/

/-- A program comes to an end. -/
def Command.Ends (c : Command) : Prop := .ended ∈ c.reads

/-- A program that succeeds prints a text, followed by anything. -/
def Command.Prints (c : Command) (text : Bytes) : Prop :=
  c.started = true ∧ c.succeeded = true ∧ ReadAll.sent c.reads = text

/-- A program that succeeds prints a text among its first bytes. -/
def Command.Tells (c : Command) (size : ℕ) (text : Bytes) : Prop :=
  ∃ out, c.Prints out ∧ text <:+: cstr (out.take size)

theorem runCmdCapture_of_ends {c : Command} (hc : c.Ends) (out_len : ℕ) :
  runCmdCapture c out_len
    = some (if c.started ∧ c.succeeded then
        some (cstr ((ReadAll.sent c.reads).take (out_len - 1))) else none)
  := by
  unfold runCmdCapture
  rw [ReadAll.run_of_ended _ hc]
  cases c.started with
  | false => rfl
  | true => cases c.succeeded <;> rfl

/-- What is read of a program shows a text exactly if the program tells it. -/
theorem tells_iff {c : Command} (text : Bytes) (size : ℕ) :
  tells text (if c.started ∧ c.succeeded then
      some (cstr ((ReadAll.sent c.reads).take size)) else none) = true
    ↔ c.Tells size text
  := by
  unfold tells Command.Tells Command.Prints
  split
  case isTrue h => simp [strstr_iff, h.1, h.2]
  case isFalse h =>
    constructor
    · rintro ⟨⟩
    · rintro ⟨out, ⟨hstarted, hsucceeded, -⟩, -⟩
      exact absurd ⟨hstarted, hsucceeded⟩ h

/-- A process of a program that locks the screen is seen. -/
def LockerSeen (dirs : List ProcComm) (names : List Bytes) : Prop :=
  ∃ p ∈ dirs, ∃ comm, p.program = some comm ∧ ∃ name ∈ names, name <:+: comm

/-- The first process of `kdesktop_lock` is that of a known user other than root, for whom Trinity says
that the screen is locked. -/
def DcopTells (s : LockSystem) : Prop :=
  ∃ dirs before p behind uid pw, s.second = some dirs ∧ dirs = before ++ p :: behind
    ∧ (∀ q ∈ before, q.program ≠ some (chars "kdesktop_lock".toList))
    ∧ p.program = some (chars "kdesktop_lock".toList) ∧ p.uid = some uid ∧ 0 < uid
    ∧ s.getpwuid uid = some pw
    ∧ (s.dcop pw (displayEnv (s.environ (strtol p.name)))).Tells 63 (chars "true".toList)

/-- Of a session on a line of the list, up to the first empty one, `loginctl` says that it is locked. -/
def SessionTells (s : LockSystem) : Prop :=
  ∃ text, s.listSessions.Prints text
    ∧ ∃ before line behind sess_id, (cstr (text.take 4095)).splitOn 10 = before ++ line :: behind
      ∧ [] ∉ before ∧ sessId line = some sess_id
      ∧ (s.showSession before.length sess_id).Tells 255 (chars "LockedHint=yes".toList)

/-- All programs come to an end. -/
structure LockSystem.Ends (s : LockSystem) : Prop where
  dcop : ∀ pw display, (s.dcop pw display).Ends
  listSessions : s.listSessions.Ends
  showSession : ∀ i sess_id, (s.showSession i sess_id).Ends

theorem any_locks_iff (dirs : List ProcComm) :
  dirs.any ProcComm.locks = true ↔ LockerSeen dirs lockers
  := by
  rw [List.any_eq_true]
  apply exists_congr
  intro p
  apply and_congr_right
  intro _
  unfold ProcComm.locks
  cases p.program with
  | none => simp
  | some comm => simp [List.any_eq_true, strstr_iff]

theorem find_isKdesktopLock {dirs : List ProcComm} {p : ProcComm} :
  dirs.find? ProcComm.isKdesktopLock = some p
    ↔ ∃ before behind, dirs = before ++ p :: behind
      ∧ (∀ q ∈ before, q.program ≠ some (chars "kdesktop_lock".toList))
      ∧ p.program = some (chars "kdesktop_lock".toList)
  := by
  simp only [List.find?_eq_some_iff_append, ProcComm.isKdesktopLock, Bool.not_eq_true',
    decide_eq_true_eq, decide_eq_false_iff_not]
  constructor
  · rintro ⟨hp, before, behind, hdirs, hbefore⟩
    exact ⟨before, behind, hdirs, hbefore, hp⟩
  · rintro ⟨before, behind, hdirs, hbefore, hp⟩
    exact ⟨hp, before, behind, hdirs, hbefore⟩

/-- Trinity is asked if there is someone to ask, and then its answer counts. -/
theorem dcopLocked_iff {s : LockSystem} (hs : s.Ends) :
  ∃ b, dcopLocked s = some b ∧ (b = true ↔ DcopTells s)
  := by
  unfold dcopLocked
  cases hfind : s.second.bind (·.find? ProcComm.isKdesktopLock) with
  | none =>
      refine ⟨false, rfl, by simp, ?_⟩
      rintro ⟨dirs, before, p, behind, uid, pw, hdirs, heq, hbefore, hp, -⟩
      rw [hdirs, Option.bind_some, find_isKdesktopLock.mpr ⟨before, behind, heq, hbefore, hp⟩] at hfind
      cases hfind
  | some p =>
      obtain ⟨dirs, hdirs, hp⟩ := Option.bind_eq_some_iff.mp hfind
      have hfirst : ∀ q, dirs.find? ProcComm.isKdesktopLock = some q → q = p := by
        intro q hq
        rw [hp] at hq
        exact (Option.some.inj hq).symm
      obtain ⟨before, behind, heq, hbefore, hprogram⟩ := find_isKdesktopLock.mp hp
      dsimp only
      cases hpw : (p.uid.filter (0 < ·)).bind s.getpwuid with
      | none =>
          refine ⟨false, rfl, by simp, ?_⟩
          rintro ⟨dirs', before', q, behind', uid, pw, hdirs', heq', hbefore', hq, huid, hpos, hpw', -⟩
          obtain rfl : dirs = dirs' := Option.some.inj (hdirs.symm.trans hdirs')
          obtain rfl := hfirst q (find_isKdesktopLock.mpr ⟨before', behind', heq', hbefore', hq⟩)
          rw [huid, Option.filter_some, if_pos (decide_eq_true hpos), Option.bind_some, hpw'] at hpw
          cases hpw
      | some pw =>
          obtain ⟨uid, huid, hget⟩ := Option.bind_eq_some_iff.mp hpw
          obtain ⟨huid, hpos⟩ := Option.filter_eq_some_iff.mp huid
          dsimp only
          rw [runCmdCapture_of_ends (hs.dcop _ _), Option.map_some]
          refine ⟨_, rfl, ?_⟩
          rw [tells_iff]
          constructor
          · intro htells
            exact ⟨dirs, before, p, behind, uid, pw, hdirs, heq, hbefore, hprogram, huid,
              of_decide_eq_true hpos, hget, htells⟩
          · rintro ⟨dirs', before', q, behind', uid', pw', hdirs', heq', hbefore', hq, huid', -, hpw',
              htells⟩
            obtain rfl : dirs = dirs' := Option.some.inj (hdirs.symm.trans hdirs')
            obtain rfl := hfirst q (find_isKdesktopLock.mpr ⟨before', behind', heq', hbefore', hq⟩)
            obtain rfl : uid = uid' := Option.some.inj (huid.symm.trans huid')
            obtain rfl : pw = pw' := Option.some.inj (hget.symm.trans hpw')
            exact htells

/-- The loop finds a session that is locked exactly if there is one up to the first empty line. -/
theorem showSessions_iff {s : LockSystem} (hs : s.Ends) (i : ℕ) (ls : List Bytes) :
  ∃ b, showSessions s i ls = some b
    ∧ (b = true ↔ ∃ before line behind sess_id, ls = before ++ line :: behind ∧ [] ∉ before
      ∧ sessId line = some sess_id
      ∧ (s.showSession (i + before.length) sess_id).Tells 255 (chars "LockedHint=yes".toList))
  := by
  induction ls generalizing i with
  | nil => exact ⟨false, rfl, by simp⟩
  | cons line ls ih =>
      have hnil : sessId [] = none := rfl
      obtain ⟨b, hb, hiff⟩ := ih (i + 1)
      -- a session behind the first line
      have hbehind : (∃ before line' behind sess_id, line :: ls = before ++ line' :: behind
            ∧ [] ∉ before ∧ sessId line' = some sess_id
            ∧ (s.showSession (i + before.length) sess_id).Tells 255 (chars "LockedHint=yes".toList))
          ↔ (∃ sess_id, sessId line = some sess_id
            ∧ (s.showSession i sess_id).Tells 255 (chars "LockedHint=yes".toList))
            ∨ (line ≠ [] ∧ b = true) := by
        rw [hiff]
        constructor
        · rintro ⟨before, line', behind, sess_id, heq, hbefore, hsess, htells⟩
          cases before with
          | nil =>
              obtain ⟨rfl, -⟩ := List.cons.inj heq
              exact .inl ⟨sess_id, hsess, htells⟩
          | cons first before =>
              obtain ⟨rfl, hrest⟩ := List.cons.inj heq
              rw [List.mem_cons, not_or] at hbefore
              rw [List.length_cons, ← Nat.add_assoc, Nat.add_right_comm] at htells
              exact .inr ⟨Ne.symm hbefore.1, before, line', behind, sess_id, hrest, hbefore.2, hsess,
                htells⟩
        · rintro (⟨sess_id, hsess, htells⟩ | ⟨hline, before, line', behind, sess_id, heq, hbefore, hsess,
            htells⟩)
          · exact ⟨[], line, ls, sess_id, rfl, List.not_mem_nil, hsess, htells⟩
          · refine ⟨line :: before, line', behind, sess_id, by rw [heq, List.cons_append], ?_, hsess, ?_⟩
            · rw [List.mem_cons, not_or]
              exact ⟨Ne.symm hline, hbefore⟩
            · rw [List.length_cons, ← Nat.add_assoc, Nat.add_right_comm]
              exact htells
      unfold showSessions
      rw [hbehind]
      by_cases hline : line = []
      · subst hline
        rw [if_pos rfl]
        exact ⟨false, rfl, by simp [hnil]⟩
      · rw [if_neg hline]
        cases hsess : sessId line with
        | none => exact ⟨b, hb, fun h => .inr ⟨hline, h⟩, by simp⟩
        | some sess_id =>
            dsimp only
            rw [runCmdCapture_of_ends (hs.showSession _ _), Option.bind_eq_bind, Option.bind_some]
            by_cases htells : (s.showSession i sess_id).Tells 255 (chars "LockedHint=yes".toList)
            · rw [if_pos ((tells_iff _ _).mpr htells)]
              exact ⟨true, rfl, fun _ => .inl ⟨sess_id, rfl, htells⟩, fun _ => rfl⟩
            · rw [if_neg (fun h => htells ((tells_iff _ _).mp h))]
              refine ⟨b, hb, fun h => .inr ⟨hline, h⟩, ?_⟩
              rintro (⟨_, ⟨⟩, hsays⟩ | ⟨-, h⟩)
              · exact absurd hsays htells
              · exact h

/-- The last part finds a session exactly if `loginctl` shows one. -/
theorem sessionsLocked_iff {s : LockSystem} (hs : s.Ends) :
  ∃ b, sessionsLocked s = some b ∧ (b = true ↔ SessionTells s)
  := by
  unfold sessionsLocked SessionTells Command.Prints
  rw [runCmdCapture_of_ends hs.listSessions, Option.bind_eq_bind, Option.bind_some]
  by_cases h : s.listSessions.started = true ∧ s.listSessions.succeeded = true
  · obtain ⟨b, hb, hiff⟩ := showSessions_iff hs 0
      ((cstr ((ReadAll.sent s.listSessions.reads).take 4095)).splitOn 10)
    rw [if_pos h]
    refine ⟨b, hb, ?_⟩
    simp only [Nat.zero_add] at hiff
    rw [hiff]
    constructor
    · intro hfound
      exact ⟨_, ⟨h.1, h.2, rfl⟩, hfound⟩
    · rintro ⟨text, ⟨-, -, rfl⟩, hfound⟩
      exact hfound
  · rw [if_neg h]
    refine ⟨false, rfl, by simp, ?_⟩
    rintro ⟨text, ⟨hstarted, hsucceeded, -⟩, -⟩
    exact absurd ⟨hstarted, hsucceeded⟩ h

/-- The names of more than 15 bytes are not seen where the kernel has cut the name of the program. -/
theorem lockerSeen_short {dirs : List ProcComm}
    (hshort : ∀ p ∈ dirs, ∀ comm, p.program = some comm → comm.length ≤ 15) :
  LockerSeen dirs lockers ↔ LockerSeen dirs (lockers.take 8)
  := by
  constructor
  · rintro ⟨p, hp, comm, hcomm, name, hname, hpart⟩
    have hlong : ∀ name ∈ lockers, name.length ≤ 15 → name ∈ lockers.take 8 := by decide
    exact ⟨p, hp, comm, hcomm, name,
      hlong name hname (hpart.length_le.trans (hshort p hp comm hcomm)), hpart⟩
  · rintro ⟨p, hp, comm, hcomm, name, hname, hpart⟩
    exact ⟨p, hp, comm, hcomm, name, List.mem_of_mem_take hname, hpart⟩

/-- If all programs come to an end, `is_screen_locked` returns, and says that the screen is locked exactly
if `/proc` can be read and a process, Trinity, or `loginctl` shows it; of a process of which the kernel
has cut the name after 15 bytes, only eight of the names can be seen. -/
theorem isScreenLocked_iff {s : LockSystem} (hs : s.Ends) :
  (∃ b, isScreenLocked s = some b
      ∧ (b = true ↔ ∃ dirs, s.first = some dirs
        ∧ (LockerSeen dirs lockers ∨ DcopTells s ∨ SessionTells s)))
    ∧ ∀ dirs, (∀ p ∈ dirs, ∀ comm, p.program = some comm → comm.length ≤ 15) →
      (LockerSeen dirs lockers ↔ LockerSeen dirs (lockers.take 8))
  := by
  constructor
  · unfold isScreenLocked
    cases hfirst : s.first with
    | none => exact ⟨false, rfl, by simp⟩
    | some dirs =>
        dsimp only
        by_cases hseen : LockerSeen dirs lockers
        · rw [if_pos ((any_locks_iff dirs).mpr hseen)]
          exact ⟨true, rfl, by simp [hseen]⟩
        · rw [if_neg (fun h => hseen ((any_locks_iff dirs).mp h))]
          obtain ⟨b, hb, hdcop⟩ := dcopLocked_iff hs
          obtain ⟨b', hb', hsessions⟩ := sessionsLocked_iff hs
          rw [hb, Option.bind_eq_bind, Option.bind_some]
          cases b with
          | true => exact ⟨true, rfl, fun _ => ⟨dirs, rfl, .inr (.inl (hdcop.mp rfl))⟩, fun _ => rfl⟩
          | false =>
              rw [if_neg (by simp), hb']
              refine ⟨b', rfl, fun h => ⟨dirs, rfl, .inr (.inr (hsessions.mp h))⟩, ?_⟩
              rintro ⟨_, ⟨⟩, hsays | hsays | hsays⟩
              · exact absurd hsays hseen
              · cases hdcop.mpr hsays
              · exact hsessions.mpr hsays
  · exact fun dirs hshort => lockerSeen_short hshort

/-- A program that prints a text in two pieces. -/
def prints (text : Bytes) : Command :=
  match text with
  | [] => ⟨true, [.ended], true⟩
  | [c] => ⟨true, [.got c [], .ended], true⟩
  | c :: c' :: rest => ⟨true, [.got c [], .interrupted, .got c' rest, .ended], true⟩

/-- The second of two sessions is locked by a program whose name the kernel has cut. -/
def kdeSystem : LockSystem where
  first := some [⟨chars "812".toList, some (chars "kscreenlocker_g\n".toList), some 1000⟩]
  second := some [⟨chars "812".toList, some (chars "kscreenlocker_g\n".toList), some 1000⟩]
  getpwuid _ := none
  environ _ := none
  dcop _ _ := ⟨false, [.ended], false⟩
  listSessions := prints (chars " 1 0 root seat0\nc2 1000 ann seat0\n".toList)
  showSession i _ := prints (chars (if i = 1 then "LockedHint=yes\n" else "LockedHint=no\n").toList)

theorem isScreenLocked_iff_kde :
  (∃ b, isScreenLocked kdeSystem = some b
      ∧ (b = true ↔ ∃ dirs, kdeSystem.first = some dirs
        ∧ (LockerSeen dirs lockers ∨ DcopTells kdeSystem ∨ SessionTells kdeSystem)))
    ∧ ∀ dirs, (∀ p ∈ dirs, ∀ comm, p.program = some comm → comm.length ≤ 15) →
      (LockerSeen dirs lockers ↔ LockerSeen dirs (lockers.take 8))
  := by
  apply isScreenLocked_iff
  constructor
  · intro _ _
    exact List.mem_singleton.mpr rfl
  · simp [kdeSystem, prints, Command.Ends, chars]
  · intro i _
    by_cases hi : i = 1
    · simp [kdeSystem, prints, Command.Ends, chars, hi]
    · simp [kdeSystem, prints, Command.Ends, chars, hi]

example : isScreenLocked kdeSystem = some true := by decide +kernel

end LnxCad.Watchdog
