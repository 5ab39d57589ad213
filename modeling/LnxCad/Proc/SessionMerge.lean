import LnxCad.Lib.Grouping
import LnxCad.Proc.Sessions
import Mathlib.Data.List.Sort
import Mathlib.Order.Bounds.Basic

/-!
# The merge of the sessions

The session list has one entry for every terminal on which a process qualifies, if there are not
more of them than it has places.  The entry has the greatest priority of the processes on the
terminal, a flag if one of them has it, and the owner of one of them whose class no other is
above.  So apart from names and from which owner of a class it is, the list does not depend on
the order in which the processes are met.
-/

namespace LnxCad

/-- Whether a process enters the list. -/
def Qualifies (myPid : ℕ) (rescueVt : ℤ) (s : SessionSighting) : Prop :=
  0 < s.pid ∧ s.pid ≠ myPid ∧ 1 ≤ (sessionInfo s).priority ∧ 1 ≤ (sessionInfo s).vt
    ∧ (sessionInfo s).vt ≤ 63 ∧ (sessionInfo s).vt ≠ rescueVt

instance (myPid : ℕ) (rescueVt : ℤ) : DecidablePred (Qualifies myPid rescueVt) := fun s =>
  inferInstanceAs (Decidable (0 < s.pid ∧ s.pid ≠ myPid ∧ 1 ≤ (sessionInfo s).priority
    ∧ 1 ≤ (sessionInfo s).vt ∧ (sessionInfo s).vt ≤ 63 ∧ (sessionInfo s).vt ≠ rescueVt))

/-- The entries of the processes that enter the list. -/
def qualifying (myPid : ℕ) (rescueVt : ℤ) (sightings : List SessionSighting) : List SessionInfo :=
  (sightings.filter (Qualifies myPid rescueVt)).map sessionInfo

theorem addSession_eq (new : SessionInfo) (sessions : List SessionInfo) :
  addSession new sessions
    = Grouping.add maxSessions SessionInfo.vt SessionInfo.merge new sessions
  := rfl

/-- The processes that qualify are put into the list one after the other. -/
theorem foldl_scanSession (myPid : ℕ) (rescueVt : ℤ) (sightings : List SessionSighting)
    (sessions : List SessionInfo) :
  sightings.foldl (scanSession myPid rescueVt) sessions
    = (qualifying myPid rescueVt sightings).foldl
      (fun r x => Grouping.add maxSessions SessionInfo.vt SessionInfo.merge x r) sessions
  := by
  induction sightings generalizing sessions with
  | nil => rfl
  | cons s sightings ih =>
      rw [List.foldl_cons, ih, qualifying, qualifying]
      by_cases hs : Qualifies myPid rescueVt s
      · rw [List.filter_cons_of_pos (by simpa using hs), List.map_cons, List.foldl_cons,
          ← addSession_eq]
        congr 1
        exact if_pos hs
      · rw [List.filter_cons_of_neg (by simpa using hs)]
        congr 1
        exact if_neg hs

/-! ### What an entry says of its processes -/

/-- The class of an owner: a user, a system account, or root. -/
def uidClass (uid : ℕ) : ℕ := if 1000 ≤ uid then 2 else if uid = 0 then 0 else 1

/-- An entry is the merge of those of some processes. -/
structure SessionInfo.Merges (s : SessionInfo) (group : List SessionInfo) : Prop where
  priority : IsGreatest {p | ∃ g ∈ group, g.priority = p} s.priority
  isGraphical : s.isGraphical = group.any SessionInfo.isGraphical
  isDm : s.isDm = group.any SessionInfo.isDm
  uid : ∃ g ∈ group, g.uid = s.uid
  class_le : ∀ g ∈ group, uidClass g.uid ≤ uidClass s.uid
  procName : ∃ g ∈ group, g.priority = s.priority ∧ g.procName = s.procName

/-- An owner takes the place of one of a lower class. -/
theorem merge_uid (old new : SessionInfo) :
  (old.merge new).uid = if uidClass old.uid < uidClass new.uid then new.uid else old.uid
  := by
  unfold SessionInfo.merge uidClass
  dsimp only
  split_ifs
  all_goals omega

namespace SessionInfo.Merges

variable {s : SessionInfo} {group : List SessionInfo}

theorem single (s : SessionInfo) :
  s.Merges [s]
  := by
  constructor
  · constructor
    · exact ⟨s, by simp, rfl⟩
    · rintro p ⟨g, hg, rfl⟩
      rw [List.mem_singleton.mp hg]
  · simp
  · simp
  · exact ⟨s, by simp, rfl⟩
  · intro g hg
    rw [List.mem_singleton.mp hg]
  · exact ⟨s, by simp, rfl, rfl⟩

theorem merge (h : s.Merges group) (x : SessionInfo) :
  (s.merge x).Merges (group ++ [x])
  := by
  have hpriority : (s.merge x).priority = max s.priority x.priority := by
    unfold SessionInfo.merge
    dsimp only
    split_ifs
    · omega
    · omega
  constructor
  case priority =>
    rw [hpriority]
    constructor
    · obtain ⟨g, hg, hgp⟩ := h.priority.1
      obtain hle | hle := le_total x.priority s.priority
      · exact ⟨g, by simp [hg], by rw [hgp, max_eq_left hle]⟩
      · exact ⟨x, by simp, (max_eq_right hle).symm⟩
    · rintro p ⟨g, hg, rfl⟩
      obtain hg | hg := List.mem_append.mp hg
      · exact (h.priority.2 ⟨g, hg, rfl⟩).trans (le_max_left _ _)
      · rw [List.mem_singleton.mp hg]
        exact le_max_right _ _
  case isGraphical =>
    rw [List.any_append, ← h.isGraphical]
    simp [SessionInfo.merge]
  case isDm =>
    rw [List.any_append, ← h.isDm]
    simp [SessionInfo.merge]
  case uid =>
    rw [merge_uid]
    split
    · exact ⟨x, by simp, rfl⟩
    · obtain ⟨g, hg, hgu⟩ := h.uid
      exact ⟨g, by simp [hg], hgu⟩
  case class_le =>
    intro g hg
    have hold : uidClass s.uid ≤ uidClass (s.merge x).uid
        ∧ uidClass x.uid ≤ uidClass (s.merge x).uid := by
      rw [merge_uid]
      split
      · omega
      · omega
    obtain hg | hg := List.mem_append.mp hg
    · exact (h.class_le g hg).trans hold.1
    · rw [List.mem_singleton.mp hg]
      exact hold.2
  case procName =>
    obtain ⟨g, hg, hgp, hgn⟩ := h.procName
    by_cases hx : x.priority > s.priority
    · refine ⟨x, by simp, ?_, ?_⟩
      · simp [SessionInfo.merge, hx]
      · simp [SessionInfo.merge, hx]
    · refine ⟨g, by simp [hg], ?_, ?_⟩
      · simp [SessionInfo.merge, hx, hgp]
      · simp [SessionInfo.merge, hx, hgn]

/-- Entries merged one after the other are merged. -/
theorem of_merged (h : Grouping.merged SessionInfo.merge group = some s) :
  s.Merges group
  := by
  cases group with
  | nil => cases h
  | cons g group =>
      cases h
      induction group using List.reverseRecOn with
      | nil => exact single g
      | append_singleton group x ih =>
          rw [List.foldl_append, ← List.cons_append]
          exact ih.merge x

end SessionInfo.Merges

/-- What an entry says that does not depend on the order of the processes. -/
def SessionInfo.summary (s : SessionInfo) : ℤ × ℕ × Bool × Bool × ℕ :=
  (s.vt, s.priority, s.isGraphical, s.isDm, uidClass s.uid)

/-- The processes say this of the entry in any order. -/
theorem SessionInfo.Merges.summary_eq
    {s s' : SessionInfo} {group group' : List SessionInfo} (h : s.Merges group)
    (h' : s'.Merges group') (hperm : group.Perm group') (hvt : s.vt = s'.vt) :
  s.summary = s'.summary
  := by
  have hpriority : s.priority = s'.priority := by
    apply h.priority.unique
    have hset : {p | ∃ g ∈ group, g.priority = p} = {p | ∃ g ∈ group', g.priority = p} := by
      ext p
      simp [hperm.mem_iff]
    rw [hset]
    exact h'.priority
  have hclass : uidClass s.uid = uidClass s'.uid := by
    obtain ⟨g, hg, hgu⟩ := h.uid
    obtain ⟨g', hg', hgu'⟩ := h'.uid
    apply le_antisymm
    · rw [← hgu]
      exact h'.class_le g (hperm.mem_iff.mp hg)
    · rw [← hgu']
      exact h.class_le g' (hperm.mem_iff.mpr hg')
  rw [SessionInfo.summary, SessionInfo.summary, hvt, hpriority, h.isGraphical, h'.isGraphical,
    h.isDm, h'.isDm, hperm.any_eq, hperm.any_eq, hclass]

/-! ### The sort -/

/-- A pass brings an entry to the front whose terminal is the least. -/
theorem exchangePass_le (x : SessionInfo) (xs : List SessionInfo) :
  (exchangePass x xs).1.vt ≤ x.vt ∧ ∀ y ∈ (exchangePass x xs).2, (exchangePass x xs).1.vt ≤ y.vt
  := by
  induction xs generalizing x with
  | nil => simp [exchangePass]
  | cons y ys ih =>
      unfold exchangePass
      split
      case isTrue hlt =>
        obtain ⟨hy, hys⟩ := ih y
        have hx : (exchangePass y ys).1.vt ≤ x.vt := hy.trans hlt.le
        refine ⟨hx, ?_⟩
        intro z hz
        obtain rfl | hz := List.mem_cons.mp hz
        · exact hx
        · exact hys z hz
      case isFalse hle =>
        obtain ⟨hx, hys⟩ := ih x
        refine ⟨hx, ?_⟩
        intro z hz
        obtain rfl | hz := List.mem_cons.mp hz
        · exact hx.trans (not_lt.mp hle)
        · exact hys z hz

theorem pairwise_sortSessions {n : ℕ} {sessions : List SessionInfo} (h : sessions.length ≤ n) :
  (sortSessions n sessions).Pairwise fun a b => a.vt ≤ b.vt
  := by
  induction n generalizing sessions with
  | zero =>
      rw [List.length_eq_zero_iff.mp (Nat.le_zero.mp h)]
      exact List.Pairwise.nil
  | succ n ih =>
      cases sessions with
      | nil => exact List.Pairwise.nil
      | cons x xs =>
          have hlength := (exchangePass_perm x xs).length_eq
          rw [List.length_cons, List.length_cons] at hlength
          rw [List.length_cons] at h
          apply List.Pairwise.cons
          · intro y hy
            apply (exchangePass_le x xs).2 y
            exact (sortSessions_perm n _).subset hy
          · apply ih
            omega

/-! ### The list -/

theorem scanSessions_groups
    {myPid : ℕ} {rescueVt : ℤ} {sightings : List SessionSighting}
    (hvts : ((qualifying myPid rescueVt sightings).map SessionInfo.vt).toFinset.card ≤ 32) :
  Grouping.Groups SessionInfo.vt SessionInfo.merge (qualifying myPid rescueVt sightings)
    (scanSessions myPid rescueVt sightings)
  := by
  have hgroups : Grouping.Groups SessionInfo.vt SessionInfo.merge
      (qualifying myPid rescueVt sightings)
      (sightings.foldl (scanSession myPid rescueVt) []) := by
    rw [foldl_scanSession]
    exact Grouping.Groups.foldl_add (fun _ _ => rfl) hvts
  exact hgroups.perm (sortSessions_perm _ _)

/-- The terminals of the list stand in order. -/
theorem scanSessions_sorted
    {myPid : ℕ} {rescueVt : ℤ} {sightings : List SessionSighting}
    (hvts : ((qualifying myPid rescueVt sightings).map SessionInfo.vt).toFinset.card ≤ 32) :
  ((scanSessions myPid rescueVt sightings).map SessionInfo.vt).Pairwise (· < ·)
  := by
  have hle : ((scanSessions myPid rescueVt sightings).map SessionInfo.vt).Pairwise (· ≤ ·) :=
    List.pairwise_map.mpr (pairwise_sortSessions (le_refl _))
  apply hle.imp₂ _ (scanSessions_groups hvts).nodup
  intro a b hab hne
  exact lt_of_le_of_ne hab hne

/-- If the processes that qualify are on at most 32 terminals, the list has one entry for each
of these, in order, that is the merge of the processes on it; and in another order they give
the same terminals, priorities, flags and classes of owners. -/
theorem scanSessions_merges
    {myPid : ℕ} {rescueVt : ℤ} {sightings : List SessionSighting}
    (hvts : ((qualifying myPid rescueVt sightings).map SessionInfo.vt).toFinset.card ≤ 32) :
  ((scanSessions myPid rescueVt sightings).map SessionInfo.vt).Pairwise (· < ·)
    ∧ (∀ vt, vt ∈ (scanSessions myPid rescueVt sightings).map SessionInfo.vt
      ↔ vt ∈ (qualifying myPid rescueVt sightings).map SessionInfo.vt)
    ∧ (∀ s ∈ scanSessions myPid rescueVt sightings,
      s.Merges ((qualifying myPid rescueVt sightings).filter fun q => q.vt = s.vt))
    ∧ ∀ sightings' : List SessionSighting, sightings'.Perm sightings →
      (scanSessions myPid rescueVt sightings').map SessionInfo.summary
        = (scanSessions myPid rescueVt sightings).map SessionInfo.summary
  := by
  have hgroups := scanSessions_groups hvts
  refine ⟨scanSessions_sorted hvts, hgroups.mem_keys, ?_, ?_⟩
  · intro s hs
    exact SessionInfo.Merges.of_merged (hgroups.merged s hs)
  · intro sightings' hperm
    have hq : (qualifying myPid rescueVt sightings').Perm (qualifying myPid rescueVt sightings) :=
      (hperm.filter _).map _
    have hvts' : ((qualifying myPid rescueVt sightings').map SessionInfo.vt).toFinset.card ≤ 32 := by
      rw [List.toFinset_eq_of_perm _ _ (hq.map _)]
      exact hvts
    have hgroups' := scanSessions_groups hvts'
    have hkeys : (scanSessions myPid rescueVt sightings').map SessionInfo.vt
        = (scanSessions myPid rescueVt sightings).map SessionInfo.vt := by
      apply (scanSessions_sorted hvts').eq_of_mem_iff (scanSessions_sorted hvts)
      intro vt
      rw [hgroups'.mem_keys, hgroups.mem_keys, (hq.map _).mem_iff]
    apply Grouping.map_eq_map hkeys
    intro s hs s' hs' hvt
    apply (SessionInfo.Merges.of_merged (hgroups'.merged s hs)).summary_eq
      (SessionInfo.Merges.of_merged (hgroups.merged s' hs')) _ hvt
    rw [hvt]
    exact hq.filter _

/-- A shell and a display server on terminal 2 with a login on terminal 1: the entry of terminal 2
is the server's, for the shell's owner, as when the shell is met first. -/
theorem scanSessions_merges_threeProcesses :
  (scanSessions 9 12 [⟨7, chars ['l', 'o', 'g', 'i', 'n'], 1025, 0, none, none⟩,
      ⟨6, chars ['X', 'o', 'r', 'g'], 1026, 0, none, none⟩,
      ⟨5, chars ['b', 'a', 's', 'h'], 1026, 1000, none, none⟩]).map SessionInfo.summary
    = [(1, 1, false, false, 0), (2, 4, true, false, 2)]
  := by
  have hshell : (scanSessions 9 12 [⟨5, chars ['b', 'a', 's', 'h'], 1026, 1000, none, none⟩,
      ⟨6, chars ['X', 'o', 'r', 'g'], 1026, 0, none, none⟩,
      ⟨7, chars ['l', 'o', 'g', 'i', 'n'], 1025, 0, none, none⟩]).map SessionInfo.summary
      = [(1, 1, false, false, 0), (2, 4, true, false, 2)] := by
    decide
  rw [← hshell]
  apply (scanSessions_merges _).2.2.2
  · decide
  · decide

end LnxCad
