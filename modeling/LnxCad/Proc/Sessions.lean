import LnxCad.Text

/-!
# The session scan

`scan_sessions` walks `/proc` for display servers, display managers, desktop programs and
shells, finds the virtual terminal each belongs to, and merges those of one terminal into
one entry of the session list, which it sorts by terminal.
-/

namespace LnxCad

/-- What a session scan reads of one process: the name and the controlling terminal of its
`stat` line, its owner, and the terminal its environment or its descriptors name, if
any. -/
structure SessionSighting where
  pid : ℕ
  name : Bytes
  ttyNr : ℤ
  uid : ℕ
  vtFromEnviron : Option ℤ
  vtFromFds : Option ℤ
deriving DecidableEq

/-- `session_info_t`, without the user name, which is only drawn. -/
structure SessionInfo where
  vt : ℤ
  isGraphical : Bool
  isDm : Bool
  uid : ℕ
  procName : Bytes
  priority : ℕ
deriving DecidableEq

/-- The length of the session list. -/
def maxSessions : ℕ := 32

/-- The names of display servers. -/
def displayServers : List Bytes :=
  [chars ['X', 'o', 'r', 'g'], chars ['X'],
    chars ['g', 'n', 'o', 'm', 'e', '-', 's', 'h', 'e', 'l', 'l'],
    chars ['k', 'w', 'i', 'n', '_', 'w', 'a', 'y', 'l', 'a', 'n', 'd'],
    chars ['s', 'w', 'a', 'y'], chars ['h', 'y', 'p', 'r', 'l', 'a', 'n', 'd'],
    chars ['w', 'e', 's', 't', 'o', 'n'], chars ['w', 'a', 'y', 'f', 'i', 'r', 'e'],
    chars ['l', 'a', 'b', 'w', 'c'], chars ['k', 'w', 'i', 'n']]

/-- The names of display managers and their greeters. -/
def displayManagers : List Bytes :=
  [chars ['l', 'i', 'g', 'h', 't', 'd', 'm'], chars ['g', 'd', 'm'],
    chars ['g', 'd', 'm', '-', 's', 'i', 'm', 'p', 'l', 'e', '-', 'g', 'r', 'e', 'e'],
    chars ['s', 'd', 'd', 'm'],
    chars ['s', 'd', 'd', 'm', '-', 'g', 'r', 'e', 'e', 't', 'e', 'r'],
    chars ['l', 'i', 'g', 'h', 't', 'd', 'm', '-', 'g', 't', 'k', '-', 'g', 'r', 'e'],
    chars ['t', 'd', 'm']]

/-- The names of desktop programs. -/
def desktopPrograms : List Bytes :=
  [chars ['k', 'i', 'c', 'k', 'e', 'r'],
    chars ['p', 'l', 'a', 's', 'm', 'a', '-', 's', 'h', 'e', 'l', 'l'],
    chars ['g', 'n', 'o', 'm', 'e', '-', 'p', 'a', 'n', 'e', 'l'],
    chars ['x', 'f', 'c', 'e', '4', '-', 'p', 'a', 'n', 'e', 'l'],
    chars ['m', 'a', 't', 'e', '-', 'p', 'a', 'n', 'e', 'l'],
    chars ['t', 'd', 'e', 'i', 'n', 'i', 't'],
    chars ['k', 'd', 'e', 's', 'k', 't', 'o', 'p']]

/-- The names of shells. -/
def shells : List Bytes :=
  [chars ['b', 'a', 's', 'h'], chars ['z', 's', 'h'], chars ['s', 'h'],
    chars ['d', 'a', 's', 'h'], chars ['f', 'i', 's', 'h'], chars ['k', 's', 'h'],
    chars ['t', 'c', 's', 'h'], chars ['c', 's', 'h'], chars ['l', 'o', 'g', 'i', 'n']]

/-- The priority of a program by its name. -/
def sessionPriority (name : Bytes) : ℕ :=
  if name ∈ displayServers then 4
  else if name ∈ displayManagers then 3
  else if name ∈ desktopPrograms then 2
  else if name ∈ shells then 1
  else 0

/-- The virtual terminal of a process: its controlling terminal where that is one, else
the one its environment names, else, for graphical programs, one its descriptors name.  A
terminal that is not found is `-1`. -/
def sightingVt (s : SessionSighting) : ℤ :=
  if 1025 ≤ s.ttyNr ∧ s.ttyNr ≤ 1087 then s.ttyNr - 1024
  else if 1 ≤ sessionPriority s.name then
    match s.vtFromEnviron with
    | some vt => vt
    | none =>
        if 2 ≤ sessionPriority s.name then s.vtFromFds.getD (-1) else -1
  else -1

/-- The entry a process gives rise to. -/
def sessionInfo (s : SessionSighting) : SessionInfo :=
  let priority := sessionPriority s.name
  { vt := sightingVt s
    isGraphical := 2 ≤ priority
    isDm := priority = 3
    uid := s.uid
    procName := s.name
    priority := priority }

/-- The merge of an entry into one of the same terminal: a user's identifier takes the
place of a system one and a system one that of root, the flags accumulate, and the name
follows the priority. -/
def SessionInfo.merge (old new : SessionInfo) : SessionInfo :=
  { old with
    uid :=
      if (1000 ≤ new.uid ∧ old.uid < 1000) ∨ (new.uid ≠ 0 ∧ old.uid = 0) then new.uid
      else old.uid
    isGraphical := old.isGraphical || new.isGraphical
    isDm := old.isDm || new.isDm
    procName := if new.priority > old.priority then new.procName else old.procName
    priority := if new.priority > old.priority then new.priority else old.priority }

/-- The entry of a terminal is merged with the first one of that terminal, or put at the
end of a list that is not full. -/
def addSession (new : SessionInfo) (sessions : List SessionInfo) : List SessionInfo :=
  match sessions.findIdx? (fun old => old.vt = new.vt) with
  | some i => sessions.modify i (fun old => old.merge new)
  | none => if sessions.length < maxSessions then sessions ++ [new] else sessions

/-- One process of a session scan; only those with a priority and a terminal between `1`
and `63` other than the rescue terminal enter the list. -/
def scanSession (myPid : ℕ) (rescueVt : ℤ) (sessions : List SessionInfo)
    (s : SessionSighting) : List SessionInfo :=
  let new := sessionInfo s
  if 0 < s.pid ∧ s.pid ≠ myPid ∧ 1 ≤ new.priority ∧ 1 ≤ new.vt ∧ new.vt ≤ 63
      ∧ new.vt ≠ rescueVt then
    addSession new sessions
  else sessions

/-- One pass of the exchange sort: brings the entry with the least terminal to the
front. -/
def exchangePass : SessionInfo → List SessionInfo → SessionInfo × List SessionInfo
  | x, [] => (x, [])
  | x, y :: ys =>
      if x.vt > y.vt then
        let r := exchangePass y ys
        (r.1, x :: r.2)
      else
        let r := exchangePass x ys
        (r.1, y :: r.2)

/-- The exchange sort by terminal, for as many passes as there are entries. -/
def sortSessions : ℕ → List SessionInfo → List SessionInfo
  | n + 1, x :: xs =>
      let r := exchangePass x xs
      r.1 :: sortSessions n r.2
  | _, sessions => sessions

/-- `scan_sessions`; the list is empty when `/proc` cannot be opened. -/
def scanSessions (myPid : ℕ) (rescueVt : ℤ) (sightings : List SessionSighting) :
    List SessionInfo :=
  let sessions := sightings.foldl (scanSession myPid rescueVt) []
  sortSessions sessions.length sessions

/-! ### The terminals of the list -/

/-- A virtual terminal a session may be on. -/
def SessionVt (vt : ℤ) : Prop := 1 ≤ vt ∧ vt ≤ 63

theorem mem_modify_merge
    {new s : SessionInfo} {sessions : List SessionInfo} {i : ℕ}
    (h : s ∈ sessions.modify i (fun old => old.merge new)) :
  ∃ old ∈ sessions, s.vt = old.vt
  := by
  obtain ⟨j, hj, rfl⟩ := List.getElem_of_mem h
  rw [List.getElem_modify]
  rw [List.length_modify] at hj
  use sessions[j], List.getElem_mem hj
  split
  · rfl
  · rfl

theorem addSession_vt
    {new : SessionInfo} {sessions : List SessionInfo} (hnew : SessionVt new.vt)
    (h : ∀ s ∈ sessions, SessionVt s.vt) :
  ∀ s ∈ addSession new sessions, SessionVt s.vt
  := by
  intro s hs
  unfold addSession at hs
  split at hs
  · obtain ⟨old, hold, heq⟩ := mem_modify_merge hs
    rw [heq]
    apply h old hold
  · split at hs
    · obtain hs | hs := List.mem_append.mp hs
      · apply h s hs
      · rw [List.mem_singleton.mp hs]
        apply hnew
    · apply h s hs

theorem exchangePass_perm (x : SessionInfo) (xs : List SessionInfo) :
  ((exchangePass x xs).1 :: (exchangePass x xs).2).Perm (x :: xs)
  := by
  induction xs generalizing x with
  | nil => rfl
  | cons y ys ih =>
      unfold exchangePass
      split
      · refine (List.Perm.swap _ _ _).trans ?_
        apply List.Perm.cons
        apply ih
      · refine (List.Perm.swap _ _ _).trans ?_
        refine (List.Perm.cons y (ih x)).trans ?_
        apply List.Perm.swap

/-- Sorting rearranges the sessions. -/
theorem sortSessions_perm (n : ℕ) (sessions : List SessionInfo) :
  (sortSessions n sessions).Perm sessions
  := by
  induction n generalizing sessions with
  | zero =>
      cases sessions with
      | nil => rfl
      | cons => rfl
  | succ n ih =>
      cases sessions with
      | nil => rfl
      | cons x xs =>
          refine ((ih _).cons _).trans ?_
          apply exchangePass_perm

/-- Every session listed is on a virtual terminal between `1` and `63`. -/
theorem scanSessions_vt
    {myPid : ℕ} {rescueVt : ℤ} {sightings : List SessionSighting} {s : SessionInfo}
    (h : s ∈ scanSessions myPid rescueVt sightings) :
  SessionVt s.vt
  := by
  have hall : ∀ s ∈ sightings.foldl (scanSession myPid rescueVt) [], SessionVt s.vt := by
    apply List.foldlRecOn (motive := fun l : List SessionInfo => ∀ s ∈ l, SessionVt s.vt)
    · simp
    · intro l hl a _
      unfold scanSession
      dsimp only
      split
      case isTrue hc => apply addSession_vt ⟨hc.2.2.2.1, hc.2.2.2.2.1⟩ hl
      case isFalse => apply hl
  apply hall
  apply (sortSessions_perm _ _).subset h

end LnxCad
