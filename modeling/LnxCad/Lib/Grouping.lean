import Mathlib.Data.Finset.Card
import Mathlib.Data.List.Nodup
import Mathlib.Tactic

/-!
# Records merged by key

Records are put one after the other into a list in which every key stands once: a record is
merged into the one of its key, or put at the end of a list that is not full.  While the keys
do not outnumber the places, the list holds for every key the merge of its records.
-/

namespace Grouping

variable {α κ : Type*} [DecidableEq κ] (n : ℕ) (key : α → κ) (merge : α → α → α)

/-- A record is merged with the first one of its key, or put at the end of a list of fewer than
`n` records. -/
def add (x : α) (r : List α) : List α :=
  match r.findIdx? (fun a => key a = key x) with
  | some i => r.modify i (fun a => merge a x)
  | none => if r.length < n then r ++ [x] else r

/-- Some records merged into the first of them. -/
def merged : List α → Option α
  | [] => none
  | a :: l => some (l.foldl merge a)

/-- The records of a key. -/
def group (l : List α) (k : κ) : List α := l.filter fun a => key a = k

/-- The list `r` holds for every key of `l` the merge of its records. -/
structure Groups (l r : List α) : Prop where
  nodup : (r.map key).Nodup
  mem_keys : ∀ k, k ∈ r.map key ↔ k ∈ l.map key
  merged : ∀ a ∈ r, merged merge (group key l (key a)) = some a

variable {n key merge}

theorem merged_concat {l : List α} {a : α} (h : merged merge l = some a) (x : α) :
  merged merge (l ++ [x]) = some (merge a x)
  := by
  cases l with
  | nil => cases h
  | cons b l =>
      cases h
      rw [List.cons_append, merged, List.foldl_append]
      rfl

theorem group_concat_of_eq {k : κ} {x : α} (h : key x = k) (l : List α) :
  group key (l ++ [x]) k = group key l k ++ [x]
  := by
  rw [group, List.filter_append, List.filter_cons_of_pos (by simpa using h)]
  rfl

theorem group_concat_of_ne {k : κ} {x : α} (h : key x ≠ k) (l : List α) :
  group key (l ++ [x]) k = group key l k
  := by
  rw [group, List.filter_append, List.filter_cons_of_neg (by simpa using h), List.filter_nil,
    List.append_nil]
  rfl

namespace Groups

variable {l r : List α}

theorem nil :
  Groups key merge [] []
  := by
  constructor
  · exact List.nodup_nil
  · intro k
    rfl
  · simp

/-- There are as many records as there are keys. -/
theorem length_eq (h : Groups key merge l r) :
  r.length = (l.map key).toFinset.card
  := by
  have hkeys : (l.map key).toFinset = (r.map key).toFinset := by
    ext k
    rw [List.mem_toFinset, List.mem_toFinset, h.mem_keys]
  rw [hkeys, List.toFinset_card_of_nodup h.nodup, List.length_map]

/-- A record whose key is there is merged with the one of its key. -/
theorem modify (h : Groups key merge l r) (hkey : ∀ a b, key (merge a b) = key a) {x : α} {i : ℕ}
    (hi : r.findIdx? (fun a => key a = key x) = some i) :
  Groups key merge (l ++ [x]) (r.modify i (fun a => merge a x))
  := by
  obtain ⟨hlt, hfound, -⟩ := List.findIdx?_eq_some_iff_getElem.mp hi
  rw [decide_eq_true_eq] at hfound
  have hsplit : r = r.take i ++ r[i] :: r.drop (i + 1) := by
    rw [← List.drop_eq_getElem_cons hlt, List.take_append_drop]
  rw [List.modify_eq_take_cons_drop hlt]
  generalize r[i] = b at hfound hsplit ⊢
  generalize r.take i = front at hsplit ⊢
  generalize r.drop (i + 1) = back at hsplit ⊢
  subst hsplit
  have hmap : (front ++ merge b x :: back).map key = (front ++ b :: back).map key := by
    simp [hkey]
  have hother : ∀ a ∈ front ++ back, key x ≠ key a := by
    have hnodup := h.nodup
    rw [List.map_append, List.map_cons, List.nodup_middle, List.nodup_cons, ← List.map_append]
      at hnodup
    intro a ha heq
    apply hnodup.1
    rw [hfound, heq]
    exact List.mem_map_of_mem ha
  constructor
  case nodup =>
    rw [hmap]
    exact h.nodup
  case mem_keys =>
    intro k
    rw [hmap, h.mem_keys, List.map_append, List.mem_append, List.map_singleton,
      List.mem_singleton]
    constructor
    · exact Or.inl
    · rintro (hk | rfl)
      · exact hk
      · rw [← h.mem_keys, ← hfound]
        exact List.mem_map_of_mem (by simp)
  case merged =>
    intro a ha
    obtain ha | rfl | ha := by simpa using ha
    · rw [group_concat_of_ne (hother a (by simp [ha]))]
      exact h.merged a (by simp [ha])
    · rw [hkey, group_concat_of_eq hfound.symm]
      exact merged_concat (h.merged b (by simp)) x
    · rw [group_concat_of_ne (hother a (by simp [ha]))]
      exact h.merged a (by simp [ha])

/-- A record of a new key is put at the end. -/
theorem concat (h : Groups key merge l r) {x : α} (hx : key x ∉ r.map key) :
  Groups key merge (l ++ [x]) (r ++ [x])
  := by
  have hnew : ∀ a ∈ l, key a ≠ key x := by
    intro a ha heq
    apply hx
    rw [h.mem_keys, ← heq]
    exact List.mem_map_of_mem ha
  have hold : ∀ a ∈ r, key x ≠ key a := by
    intro a ha heq
    apply hx
    rw [heq]
    exact List.mem_map_of_mem ha
  constructor
  case nodup =>
    rw [List.map_append, List.map_singleton, List.nodup_append]
    refine ⟨h.nodup, List.nodup_singleton _, ?_⟩
    intro k hk k' hk' heq
    rw [List.mem_singleton] at hk'
    rw [heq, hk'] at hk
    exact hx hk
  case mem_keys =>
    intro k
    rw [List.map_append, List.mem_append, h.mem_keys, List.map_append, List.mem_append]
  case merged =>
    intro a ha
    obtain ha | rfl := by simpa using ha
    · rw [group_concat_of_ne (hold a ha)]
      exact h.merged a ha
    · have hnone : group key l (key a) = [] := by
        apply List.filter_eq_nil_iff.mpr
        simpa using hnew
      rw [group_concat_of_eq rfl, hnone]
      rfl

/-- One record more, while the keys do not outnumber the places. -/
theorem add (h : Groups key merge l r) (hkey : ∀ a b, key (merge a b) = key a) {x : α}
    (hroom : ((l ++ [x]).map key).toFinset.card ≤ n) :
  Groups key merge (l ++ [x]) (add n key merge x r)
  := by
  unfold Grouping.add
  cases hi : r.findIdx? (fun a => key a = key x) with
  | some i => exact h.modify hkey hi
  | none =>
      have hx : key x ∉ r.map key := by
        intro hmem
        obtain ⟨a, ha, heq⟩ := List.mem_map.mp hmem
        have := List.findIdx?_eq_none_iff.mp hi a ha
        simp [heq] at this
      have hlength := (h.concat hx).length_eq
      rw [List.length_append, List.length_singleton] at hlength
      dsimp only
      rw [if_pos (by omega)]
      exact h.concat hx

/-- The order in which the list stands does not matter. -/
theorem perm (h : Groups key merge l r) {s : List α} (hs : s.Perm r) :
  Groups key merge l s
  := by
  constructor
  · exact (hs.map key).nodup_iff.mpr h.nodup
  · intro k
    rw [(hs.map key).mem_iff, h.mem_keys]
  · intro a ha
    exact h.merged a (hs.subset ha)

/-- All records of a list. -/
theorem foldl_add (hkey : ∀ a b, key (merge a b) = key a)
    (hroom : (l.map key).toFinset.card ≤ n) :
  Groups key merge l (l.foldl (fun r x => Grouping.add n key merge x r) [])
  := by
  induction l using List.reverseRecOn with
  | nil => exact nil
  | append_singleton l x ih =>
      rw [List.foldl_append]
      apply add _ hkey hroom
      apply ih
      apply le_trans _ hroom
      apply Finset.card_le_card
      intro k hk
      rw [List.mem_toFinset] at hk ⊢
      rw [List.map_append]
      exact List.mem_append_left _ hk

end Groups

omit [DecidableEq κ] in
/-- Two lists with the same keys in the same order agree in what the records of each key agree
in. -/
theorem map_eq_map {β : Type*} {f : α → β} {r r' : List α} (h : r.map key = r'.map key)
    (hf : ∀ a ∈ r, ∀ b ∈ r', key a = key b → f a = f b) :
  r.map f = r'.map f
  := by
  induction r generalizing r' with
  | nil => rw [List.map_eq_nil_iff.mp h.symm]
  | cons a r ih =>
      cases r' with
      | nil => cases h
      | cons b s =>
          rw [List.map_cons, List.map_cons, List.cons.injEq] at h
          rw [List.map_cons, List.map_cons, hf a (by simp) b (by simp) h.1, ih h.2]
          intro c hc d hd
          apply hf c (by simp [hc]) d (by simp [hd])

end Grouping
