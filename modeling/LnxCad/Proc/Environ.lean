import LnxCad.Session.Detect

/-!
# The terminal an environment names

`get_vt_from_environ` walks the strings of an environment up to the first empty one, while the
searches for the user of the session go on behind it.  So it finds the terminal that the
environment names exactly if no empty string stands in front of it.
-/

namespace LnxCad

open LnxCad.Session

/-- The terminal a string names as `XDG_VTNR`, if it is one between `1` and `63`. -/
def entryVt (s : Bytes) : Option ℤ :=
  if xdgVtnr.isPrefixOf s then
    let vt := strToInt (s.drop 9)
    if 1 ≤ vt ∧ vt ≤ 63 then some vt else none
  else none

/-- `ptr` moved behind the end of the string it points to. -/
def nextEntry : Bytes → Bytes
  | [] => []
  | c :: m => if c = 0 then m else nextEntry m

theorem length_nextEntry_le (m : Bytes) :
  (nextEntry m).length ≤ m.length
  := by
  induction m with
  | nil => exact le_refl 0
  | cons c m ih =>
      unfold nextEntry
      split
      · exact Nat.le_succ _
      · exact Nat.le_succ_of_le ih

/-- The loop of `get_vt_from_environ`, from `ptr` to the end of the bytes that were read. -/
def environVt : Bytes → ℤ
  | [] => -1
  | c :: m =>
      if c = 0 then -1
      else
        match entryVt (cstr (c :: m)) with
        | some vt => vt
        | none => environVt (nextEntry m)
termination_by m => m.length
decreasing_by
  have := length_nextEntry_le m
  rw [List.length_cons]
  omega

/-- `get_vt_from_environ`, by what `/proc/<pid>/environ` holds, if it can be opened. -/
def getVtFromEnviron (environ : Option Bytes) : ℤ :=
  match environ with
  | some block => environVt (block.take 4095)
  | none => -1

/-! ### The strings of a block -/

/-- The block of some strings, each with a zero byte at its end. -/
def environBlock (entries : List Bytes) : Bytes := entries.flatMap fun e => e ++ [0]

theorem environBlock_cons (e : Bytes) (entries : List Bytes) :
  environBlock (e :: entries) = e ++ 0 :: environBlock entries
  := by
  rw [environBlock, List.flatMap_cons, List.append_assoc]
  rfl

theorem environEntries_append {e : Bytes} (he : ∀ c ∈ e, c ≠ 0) (acc m : Bytes) :
  environEntries acc (e ++ 0 :: m) = (acc.reverse ++ e) :: environEntries [] m
  := by
  induction e generalizing acc with
  | nil => rw [List.nil_append, environEntries, if_pos rfl, List.append_nil]
  | cons c e ih =>
      rw [List.cons_append, environEntries, if_neg (he c (by simp)), ih]
      · rw [List.reverse_cons, List.append_assoc, List.singleton_append]
      · intro d hd
        apply he d (by simp [hd])

/-- The searches for the user see every string of the block. -/
theorem environEntries_environBlock {entries : List Bytes} (h : ∀ e ∈ entries, ∀ c ∈ e, c ≠ 0) :
  environEntries [] (environBlock entries) = entries
  := by
  induction entries with
  | nil => rfl
  | cons e entries ih =>
      rw [environBlock_cons, environEntries_append (h e (by simp)), ih]
      · rfl
      · intro e' he'
        apply h e' (by simp [he'])

theorem nextEntry_append {e : Bytes} (he : ∀ c ∈ e, c ≠ 0) (m : Bytes) :
  nextEntry (e ++ 0 :: m) = m
  := by
  induction e with
  | nil => rw [List.nil_append, nextEntry, if_pos rfl]
  | cons c e ih =>
      rw [List.cons_append, nextEntry, if_neg (he c (by simp)), ih]
      intro d hd
      apply he d (by simp [hd])

/-- The terminal that some strings name: that of the first one that names one. -/
def firstVt (entries : List Bytes) : ℤ := (entries.findSome? entryVt).getD (-1)

/-- `get_vt_from_environ` sees the strings in front of the first empty one. -/
theorem environVt_environBlock {entries : List Bytes} (h : ∀ e ∈ entries, ∀ c ∈ e, c ≠ 0) :
  environVt (environBlock entries) = firstVt (entries.takeWhile (· ≠ []))
  := by
  induction entries with
  | nil =>
      rw [environBlock, List.flatMap_nil, environVt]
      rfl
  | cons e entries ih =>
      have hrest := ih fun e' he' => h e' (by simp [he'])
      rw [environBlock_cons]
      cases e with
      | nil =>
          rw [List.nil_append, environVt, if_pos rfl]
          rfl
      | cons c e =>
          have hc : c ≠ 0 := h (c :: e) (by simp) c (by simp)
          have hcstr : cstr (c :: (e ++ 0 :: environBlock entries)) = c :: e :=
            cstr_append_zero (h (c :: e) (by simp)) _
          have hnext : nextEntry (e ++ 0 :: environBlock entries) = environBlock entries := by
            apply nextEntry_append
            intro d hd
            apply h (c :: e) (by simp) d (by simp [hd])
          rw [List.cons_append, environVt, if_neg hc, hcstr, hnext, hrest, firstVt, firstVt,
            List.takeWhile_cons_of_pos (by simp), List.findSome?_cons]
          cases entryVt (c :: e) with
          | none => rfl
          | some vt => rfl

theorem entryVt_ne {e : Bytes} {vt : ℤ} (h : entryVt e = some vt) :
  vt ≠ -1
  := by
  unfold entryVt at h
  dsimp only at h
  split at h
  · split at h
    case isTrue hvt =>
      cases h
      omega
    case isFalse => cases h
  · cases h

theorem firstVt_eq_neg_one_iff (entries : List Bytes) :
  firstVt entries = -1 ↔ ∀ e ∈ entries, entryVt e = none
  := by
  rw [← List.findSome?_eq_none_iff, firstVt]
  cases hfind : entries.findSome? entryVt with
  | none => simp
  | some vt =>
      obtain ⟨e, -, he⟩ := List.exists_of_findSome?_eq_some hfind
      simp [entryVt_ne he]

/-- Without the strings from the first empty one on the same terminal is named exactly if there
is none, or the string that names it stands in front. -/
theorem firstVt_takeWhile_iff (entries : List Bytes) :
  firstVt (entries.takeWhile (· ≠ [])) = firstVt entries
    ↔ (∀ e ∈ entries, entryVt e = none) ∨ [] ∉ entries.takeWhile fun e => (entryVt e).isNone
  := by
  induction entries with
  | nil => simp
  | cons e entries ih =>
      cases hvt : entryVt e with
      | some vt =>
          have hne : e ≠ [] := by
            rintro rfl
            cases hvt
          simp [firstVt, hvt, hne]
      | none =>
          have hcons : firstVt (e :: entries) = firstVt entries := by
            rw [firstVt, List.findSome?_cons, hvt]
            rfl
          have htake : (e :: entries).takeWhile (fun e => (entryVt e).isNone)
              = e :: entries.takeWhile (fun e => (entryVt e).isNone) := by
            rw [List.takeWhile_cons_of_pos]
            simp [hvt]
          rw [hcons, List.forall_mem_cons, htake, List.mem_cons, not_or]
          by_cases hne : e = []
          · -- nothing is seen any more
            subst hne
            have hnone : firstVt [] = -1 := rfl
            rw [List.takeWhile_cons_of_neg (by simp), hnone, eq_comm, firstVt_eq_neg_one_iff]
            simp [hvt]
          · have hskip : firstVt (e :: entries.takeWhile (· ≠ []))
                = firstVt (entries.takeWhile (· ≠ [])) := by
              rw [firstVt, List.findSome?_cons, hvt]
              rfl
            rw [List.takeWhile_cons_of_pos (by simpa using hne), hskip, ih]
            simp [hvt, Ne.symm hne]

/-- The searches for the user see all the strings of an environment, and `get_vt_from_environ`
finds the terminal that the first of them names exactly if there is none, or no empty string
stands in front of it. -/
theorem getVtFromEnviron_eq_firstVt_iff
    {entries : List Bytes} (h : ∀ e ∈ entries, ∀ c ∈ e, c ≠ 0)
    (hsize : (environBlock entries).length ≤ 4095) :
  environEntries [] (environBlock entries) = entries
    ∧ (getVtFromEnviron (some (environBlock entries)) = firstVt entries
      ↔ (∀ e ∈ entries, entryVt e = none)
        ∨ [] ∉ entries.takeWhile fun e => (entryVt e).isNone)
  := by
  refine ⟨environEntries_environBlock h, ?_⟩
  rw [getVtFromEnviron, List.take_of_length_le hsize, environVt_environBlock h]
  exact firstVt_takeWhile_iff entries

/-- A terminal out of range does not keep the one behind it from being found. -/
theorem getVtFromEnviron_eq_firstVt_seven :
  getVtFromEnviron (some (environBlock [xdgVtnr ++ chars ['9', '9'], xdgVtnr ++ chars ['7']])) = 7
  := by
  apply ((@getVtFromEnviron_eq_firstVt_iff
    [xdgVtnr ++ chars ['9', '9'], xdgVtnr ++ chars ['7']] (by decide +kernel) (by decide)).2.mpr
    ?_).trans
  · decide
  · right
    decide

/-- A terminal behind an empty string is not found, though the searches for the user see it. -/
theorem not_getVtFromEnviron_eq_firstVt_emptyFirst :
  environEntries [] (environBlock [[], xdgVtnr ++ chars ['7']]) = [[], xdgVtnr ++ chars ['7']]
    ∧ firstVt [[], xdgVtnr ++ chars ['7']] = 7
    ∧ getVtFromEnviron (some (environBlock [[], xdgVtnr ++ chars ['7']])) = -1
  := by
  refine ⟨by decide, by decide, ?_⟩
  rw [getVtFromEnviron, List.take_of_length_le (by decide), environVt_environBlock (by decide +kernel)]
  decide

end LnxCad
