import Mathlib.Data.Finset.Card
import Mathlib.Tactic

/-!
# Open addressing

A hash table of `m` slots, in which a key is put into the first free slot of its probe
sequence, which starts at the home of the key and goes once round the table, and is looked up
along this sequence up to a free slot.  Nothing is ever removed.  A table into which some
keys were inserted finds the first `m` of them and no other.
-/

namespace Probing

variable {κ ν : Type*}

/-- A table, by slot. -/
abbrev Table (κ ν : Type*) := ℕ → Option (κ × ν)

/-- The search for a key from a slot on. -/
def find [DecidableEq κ] (m : ℕ) (t : Table κ ν) (k : κ) : ℕ → ℕ → Option ν
  | 0, _ => none
  | fuel + 1, i =>
      match t i with
      | none => none
      | some e => if e.1 = k then some e.2 else find m t k fuel ((i + 1) % m)

/-- The insertion of a key from a slot on; a full table is left as it is. -/
def insert (m : ℕ) (t : Table κ ν) (k : κ) (v : ν) : ℕ → ℕ → Table κ ν
  | 0, _ => t
  | fuel + 1, i =>
      if t i = none then Function.update t i (some (k, v)) else insert m t k v fuel ((i + 1) % m)

/-- The slot a probe sequence comes to after some steps. -/
def probe (m i d : ℕ) : ℕ := (i + d) % m

section Probe

variable {m i : ℕ}

theorem probe_zero (hi : i < m) :
  probe m i 0 = i
  := Nat.mod_eq_of_lt hi

theorem probe_succ (m i d : ℕ) :
  probe m ((i + 1) % m) d = probe m i (d + 1)
  := by
  rw [probe, probe, Nat.mod_add_mod]
  congr 1
  omega

theorem probe_lt (hi : i < m) (d : ℕ) :
  probe m i d < m
  := Nat.mod_lt _ (by omega)

/-- A probe sequence comes to every slot. -/
theorem exists_probe (hi : i < m) {j : ℕ} (hj : j < m) :
  ∃ d < m, probe m i d = j
  := by
  obtain hle | hlt := le_or_gt i j
  · refine ⟨j - i, by omega, ?_⟩
    rw [probe, Nat.add_sub_cancel' hle, Nat.mod_eq_of_lt hj]
  · refine ⟨j + m - i, by omega, ?_⟩
    rw [probe, show i + (j + m - i) = j + m by omega, Nat.add_mod_right, Nat.mod_eq_of_lt hj]

/-- A probe sequence comes to no slot twice on its way round. -/
theorem probe_injective {d e : ℕ} (hd : d < m) (he : e < m) (h : probe m i d = probe m i e) :
  d = e
  := by
  have hmod : d ≡ e [MOD m] := Nat.ModEq.add_left_cancel' i h
  rw [Nat.ModEq, Nat.mod_eq_of_lt hd, Nat.mod_eq_of_lt he] at hmod
  exact hmod

end Probe

/-! ### One search, one insertion -/

section Walk

variable {m : ℕ} {t : Table κ ν} {k : κ} {v : ν}

/-- A key is found behind slots of other keys. -/
theorem find_of_probe [DecidableEq κ] {n i d : ℕ} (hi : i < m) (hd : d < n) (h : t (probe m i d) = some (k, v))
    (hbefore : ∀ e < d, ∃ x, t (probe m i e) = some x ∧ x.1 ≠ k) :
  find m t k n i = some v
  := by
  induction n generalizing i d with
  | zero => omega
  | succ n ih =>
      rw [find]
      cases d with
      | zero =>
          rw [probe_zero hi] at h
          rw [h]
          simp
      | succ d =>
          obtain ⟨x, hx, hne⟩ := hbefore 0 (Nat.succ_pos d)
          rw [probe_zero hi] at hx
          rw [hx]
          dsimp only
          rw [if_neg hne]
          apply ih (Nat.mod_lt _ (by omega)) (by omega : d < n)
          · rw [probe_succ]
            exact h
          · intro e he
            rw [probe_succ]
            exact hbefore (e + 1) (by omega)

/-- A key that is in no slot is not found. -/
theorem find_of_absent [DecidableEq κ] {n i : ℕ} (hi : i < m) (h : ∀ j < m, ∀ v, t j ≠ some (k, v)) :
  find m t k n i = none
  := by
  induction n generalizing i with
  | zero => rfl
  | succ n ih =>
      rw [find]
      cases hslot : t i with
      | none => rfl
      | some e =>
          have hne : e.1 ≠ k := by
            rintro rfl
            exact h i hi e.2 hslot
          dsimp only
          rw [if_neg hne]
          exact ih (Nat.mod_lt _ (by omega))

/-- An insertion comes to the first free slot, or finds none. -/
theorem insert_cases (k : κ) (v : ν) (n : ℕ) {i : ℕ} (hi : i < m) :
  (∃ d < n, t (probe m i d) = none ∧ (∀ e < d, t (probe m i e) ≠ none)
      ∧ insert m t k v n i = Function.update t (probe m i d) (some (k, v)))
    ∨ ((∀ d < n, t (probe m i d) ≠ none) ∧ insert m t k v n i = t)
  := by
  induction n generalizing i with
  | zero =>
      right
      exact ⟨fun d hd => absurd hd (Nat.not_lt_zero d), rfl⟩
  | succ n ih =>
      by_cases hfree : t i = none
      · left
        refine ⟨0, Nat.succ_pos n, ?_, fun e he => absurd he (Nat.not_lt_zero e), ?_⟩
        · rw [probe_zero hi]
          exact hfree
        · rw [insert, if_pos hfree, probe_zero hi]
      · rw [insert, if_neg hfree]
        obtain ⟨d, hd, hnone, hbefore, heq⟩ | ⟨hall, heq⟩ := ih (Nat.mod_lt (i + 1) (by omega))
        · left
          rw [probe_succ] at hnone heq
          refine ⟨d + 1, by omega, hnone, ?_, heq⟩
          intro e he
          cases e with
          | zero =>
              rw [probe_zero hi]
              exact hfree
          | succ e =>
              rw [← probe_succ]
              exact hbefore e (by omega)
        · right
          refine ⟨?_, heq⟩
          intro d hd
          cases d with
          | zero =>
              rw [probe_zero hi]
              exact hfree
          | succ d =>
              rw [← probe_succ]
              exact hall d (by omega)

end Walk

/-! ### What a table stores -/

/-- The table stores some keys with their values: each in one slot, with no free slot on its
probe sequence in front. -/
structure Stores (m : ℕ) (home : κ → ℕ) (t : Table κ ν) (es : List (κ × ν)) : Prop where
  mem : ∀ e, (∃ j < m, t j = some e) ↔ e ∈ es
  reach : ∀ j < m, ∀ e, t j = some e →
    ∃ d < m, j = probe m (home e.1) d ∧ ∀ d' < d, t (probe m (home e.1) d') ≠ none
  unique : ∀ j < m, ∀ j' < m, ∀ e e', t j = some e → t j' = some e' → e.1 = e'.1 → j = j'
  card : ((Finset.range m).filter (fun j => t j ≠ none)).card = es.length

namespace Stores

variable {m : ℕ} {home : κ → ℕ} {t : Table κ ν} {es : List (κ × ν)} {k : κ} {v : ν}

theorem empty (m : ℕ) (home : κ → ℕ) :
  Stores m home (fun _ => none : Table κ ν) []
  := by
  constructor
  · simp
  · simp
  · simp
  · simp

/-- A key stored is found with its value. -/
theorem find_of_mem [DecidableEq κ] (h : Stores m home t es) (hhome : ∀ k, home k < m) (hmem : (k, v) ∈ es) :
  find m t k m (home k) = some v
  := by
  obtain ⟨j, hj, hslot⟩ := (h.mem (k, v)).mpr hmem
  obtain ⟨d, hd, rfl, hbefore⟩ := h.reach j hj (k, v) hslot
  apply find_of_probe (hhome k) hd hslot
  intro e he
  obtain ⟨x, hx⟩ := Option.ne_none_iff_exists'.mp (hbefore e he)
  refine ⟨x, hx, ?_⟩
  intro hkey
  have hsame := h.unique _ (probe_lt (hhome k) e) _ hj x (k, v) hx hslot hkey
  have := probe_injective (by omega) hd hsame
  omega

/-- A key not stored is not found. -/
theorem find_of_notMem [DecidableEq κ] (h : Stores m home t es) (hhome : ∀ k, home k < m)
    (hmem : ∀ v, (k, v) ∉ es) :
  find m t k m (home k) = none
  := by
  apply find_of_absent (hhome k)
  intro j hj v hslot
  exact hmem v ((h.mem (k, v)).mp ⟨j, hj, hslot⟩)

/-- A table with as many keys as slots has no free one. -/
theorem full (h : Stores m home t es) (hlength : m ≤ es.length) {j : ℕ} (hj : j < m) :
  t j ≠ none
  := by
  have hall : (Finset.range m).filter (fun j => t j ≠ none) = Finset.range m := by
    apply Finset.eq_of_subset_of_card_le (Finset.filter_subset _ _)
    rw [h.card, Finset.card_range]
    exact hlength
  have hmem : j ∈ (Finset.range m).filter (fun j => t j ≠ none) := by
    rw [hall]
    exact Finset.mem_range.mpr hj
  exact (Finset.mem_filter.mp hmem).2

/-- A table with fewer keys than slots has a free one. -/
theorem exists_free (h : Stores m home t es) (hlength : es.length < m) :
  ∃ j < m, t j = none
  := by
  by_contra hnot
  push Not at hnot
  have hall : (Finset.range m).filter (fun j => t j ≠ none) = Finset.range m := by
    apply Finset.filter_true_of_mem
    intro j hj
    exact hnot j (Finset.mem_range.mp hj)
  have := h.card
  rw [hall, Finset.card_range] at this
  omega

/-- A full table is left as it is. -/
theorem insert_full (h : Stores m home t es) (hhome : ∀ k, home k < m) (hlength : m ≤ es.length)
    (k : κ) (v : ν) :
  insert m t k v m (home k) = t
  := by
  obtain ⟨d, -, hnone, -, -⟩ | ⟨-, heq⟩ := insert_cases k v m (hhome k)
  · exact absurd hnone (h.full hlength (probe_lt (hhome k) d))
  · exact heq

/-- A key put into the first free slot of its probe sequence is stored. -/
theorem update (h : Stores m home t es) (hhome : ∀ k, home k < m) (hk : ∀ v, (k, v) ∉ es) {d : ℕ}
    (hd : d < m) (hnone : t (probe m (home k) d) = none)
    (hbefore : ∀ e < d, t (probe m (home k) e) ≠ none) :
  Stores m home (Function.update t (probe m (home k) d) (some (k, v))) (es ++ [(k, v)])
  := by
  have hlt := probe_lt (hhome k) d
  have hold : ∀ j, t j ≠ none → Function.update t (probe m (home k) d) (some (k, v)) j = t j := by
    intro j hj
    apply Function.update_of_ne
    rintro rfl
    exact hj hnone
  have hfresh : ∀ j < m, ∀ e, t j = some e → e.1 ≠ k := by
    rintro j hj e hslot rfl
    exact hk e.2 ((h.mem e).mp ⟨j, hj, hslot⟩)
  constructor
  case mem =>
    intro e
    rw [List.mem_append, List.mem_singleton, ← h.mem]
    constructor
    · rintro ⟨j, hj, hslot⟩
      by_cases hjd : j = probe m (home k) d
      · right
        rw [hjd, Function.update_self] at hslot
        exact (Option.some.inj hslot).symm
      · left
        rw [Function.update_of_ne hjd] at hslot
        exact ⟨j, hj, hslot⟩
    · rintro (⟨j, hj, hslot⟩ | rfl)
      · refine ⟨j, hj, ?_⟩
        rw [hold j (by simp [hslot]), hslot]
      · exact ⟨_, hlt, Function.update_self _ _ _⟩
  case reach =>
    intro j hj e hslot
    by_cases hjd : j = probe m (home k) d
    · rw [hjd, Function.update_self] at hslot
      obtain rfl := Option.some.inj hslot
      refine ⟨d, hd, hjd, ?_⟩
      intro d' hd'
      rw [hold _ (hbefore d' hd')]
      exact hbefore d' hd'
    · rw [Function.update_of_ne hjd] at hslot
      obtain ⟨d', hd', heq, hfilled⟩ := h.reach j hj e hslot
      refine ⟨d', hd', heq, ?_⟩
      intro d'' hd''
      rw [hold _ (hfilled d'' hd'')]
      exact hfilled d'' hd''
  case unique =>
    intro j hj j' hj' e e' hslot hslot' hkey
    by_cases hjd : j = probe m (home k) d
    · by_cases hjd' : j' = probe m (home k) d
      · rw [hjd, hjd']
      · rw [hjd, Function.update_self] at hslot
        rw [Function.update_of_ne hjd'] at hslot'
        obtain rfl := Option.some.inj hslot
        exact absurd hkey.symm (hfresh j' hj' e' hslot')
    · by_cases hjd' : j' = probe m (home k) d
      · rw [hjd', Function.update_self] at hslot'
        rw [Function.update_of_ne hjd] at hslot
        obtain rfl := Option.some.inj hslot'
        exact absurd hkey (hfresh j hj e hslot)
      · rw [Function.update_of_ne hjd] at hslot
        rw [Function.update_of_ne hjd'] at hslot'
        exact h.unique j hj j' hj' e e' hslot hslot' hkey
  case card =>
    have hinsert : (Finset.range m).filter
          (fun j => Function.update t (probe m (home k) d) (some (k, v)) j ≠ none)
        = Insert.insert (probe m (home k) d) ((Finset.range m).filter (fun j => t j ≠ none)) := by
      ext j
      by_cases hjd : j = probe m (home k) d
      · simp [hjd, hlt]
      · simp [hjd]
    rw [hinsert, Finset.card_insert_of_notMem, h.card, List.length_append, List.length_singleton]
    simp [hnone]

/-- An insertion stores a new key while there is room. -/
theorem insert (h : Stores m home t es) (hhome : ∀ k, home k < m) (hk : ∀ v, (k, v) ∉ es)
    (hlength : es.length < m) (v : ν) :
  Stores m home (Probing.insert m t k v m (home k)) (es ++ [(k, v)])
  := by
  obtain ⟨d, hd, hnone, hbefore, heq⟩ | ⟨hall, -⟩ := insert_cases k v m (hhome k)
  · rw [heq]
    exact h.update hhome hk hd hnone hbefore
  · obtain ⟨j, hj, hfree⟩ := h.exists_free hlength
    obtain ⟨d, hd, rfl⟩ := exists_probe (hhome k) hj
    exact absurd hfree (hall d hd)

end Stores

/-! ### Many insertions -/

/-- The insertion of some keys in order. -/
def insertAll (m : ℕ) (home : κ → ℕ) (t : Table κ ν) (es : List (κ × ν)) : Table κ ν :=
  es.foldl (fun t e => insert m t e.1 e.2 m (home e.1)) t

/-- Of distinct keys the table stores the first ones, as many as it has slots. -/
theorem stores_insertAll {m : ℕ} {home : κ → ℕ} (hhome : ∀ k, home k < m) {t : Table κ ν}
    {ds es : List (κ × ν)} (h : Stores m home t (ds.take m))
    (hnodup : ((ds ++ es).map Prod.fst).Nodup) :
  Stores m home (insertAll m home t es) ((ds ++ es).take m)
  := by
  induction es generalizing t ds with
  | nil =>
      rw [List.append_nil]
      exact h
  | cons e es ih =>
      rw [List.append_cons] at hnodup ⊢
      apply ih _ hnodup
      obtain hlt | hle := Nat.lt_or_ge ds.length m
      · rw [List.take_of_length_le (by omega)] at h
        rw [List.take_of_length_le (by simp; omega)]
        apply h.insert hhome _ hlt
        intro v hv
        rw [List.map_append, List.map_append] at hnodup
        have hdisjoint := (List.nodup_append.mp (List.nodup_append.mp hnodup).1).2.2
        exact hdisjoint e.1 (List.mem_map.mpr ⟨_, hv, rfl⟩) e.1 (by simp) rfl
      · rw [List.take_append_of_le_length hle]
        have hfull : m ≤ (ds.take m).length := by
          rw [List.length_take]
          omega
        dsimp only
        rw [h.insert_full hhome hfull]
        exact h

/-- The keys inserted into an empty table are found with their values, up to as many as it has
slots. -/
theorem find_insertAll [DecidableEq κ] {m : ℕ} {home : κ → ℕ} (hhome : ∀ k, home k < m) {es : List (κ × ν)}
    (hnodup : (es.map Prod.fst).Nodup) (k : κ) :
  (∀ v, (k, v) ∈ es.take m → find m (insertAll m home (fun _ => none) es) k m (home k) = some v)
    ∧ ((∀ v, (k, v) ∉ es.take m) →
      find m (insertAll m home (fun _ => none) es) k m (home k) = none)
  := by
  have hempty : Stores m home (fun _ => none) (([] : List (κ × ν)).take m) := by
    rw [List.take_nil]
    exact Stores.empty m home
  have hstores := stores_insertAll hhome hempty hnodup
  rw [List.nil_append] at hstores
  exact ⟨fun v hv => hstores.find_of_mem hhome hv, fun hnot => hstores.find_of_notMem hhome hnot⟩

end Probing
