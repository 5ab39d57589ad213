import Mathlib.Data.Finset.Card
import Mathlib.Tactic

/-!
# Bounded caches

A cache is a list of entries with keys, at most `cap` of them.  An entry is put at its end if
there is room and no entry with its key; a key is looked up by the first entry that has it.
What is found under a key never changes, and a list of entries put into the cache fills it by
the first entry of each new key, as long as the new keys in front of it leave room.
-/

namespace Memo

variable {ε κ : Type*} [DecidableEq κ] (key : ε → κ) (cap : ℕ)

/-- The first entry of a key. -/
def lookup (c : List ε) (k : κ) : Option ε := c.find? (fun e => key e = k)

/-- An entry is put at the end of the cache, unless its key is there or the cache is full. -/
def enter (c : List ε) (e : ε) : List ε :=
  if c.length < cap ∧ lookup key c (key e) = none then c ++ [e] else c

/-- The keys of some entries that are not in the cache. -/
def newKeys (c es : List ε) : Finset κ := (es.map key).toFinset \ (c.map key).toFinset

/-- Some entries leave room for one more. -/
def Room (c es : List ε) : Prop := c.length + (newKeys key c es).card < cap

variable {key} {cap} {c es : List ε} {e : ε} {k : κ}

theorem lookup_eq_none_iff :
  lookup key c k = none ↔ k ∉ (c.map key).toFinset
  := by
  simp [lookup]

theorem lookup_append_of_some (h : lookup key c k = some e) (es : List ε) :
  lookup key (c ++ es) k = some e
  := by
  rw [lookup, List.find?_append]
  unfold lookup at h
  rw [h]
  rfl

theorem lookup_append_of_none (h : lookup key c k = none) (es : List ε) :
  lookup key (c ++ es) k = lookup key es k
  := by
  rw [lookup, List.find?_append]
  unfold lookup at h
  rw [h]
  rfl

/-- Entering keeps what is there. -/
theorem prefix_enter (c : List ε) (e : ε) :
  c <+: enter key cap c e
  := by
  unfold enter
  split
  · exact ⟨[e], rfl⟩
  · exact List.prefix_rfl

theorem prefix_fill (c es : List ε) :
  c <+: es.foldl (enter key cap) c
  := by
  induction es generalizing c with
  | nil => exact List.prefix_rfl
  | cons e es ih => exact (prefix_enter c e).trans (ih _)

/-- What is found stays what is found. -/
theorem lookup_of_prefix {c' : List ε} (hfront : c <+: c') (h : lookup key c k = some e) :
  lookup key c' k = some e
  := by
  obtain ⟨es, rfl⟩ := hfront
  exact lookup_append_of_some h es

/-- Entries of other keys do not bring a key in. -/
theorem lookup_fill_of_notMem (h : lookup key c k = none) (hk : ∀ e ∈ es, key e ≠ k) :
  lookup key (es.foldl (enter key cap) c) k = none
  := by
  induction es generalizing c with
  | nil => exact h
  | cons e es ih =>
      apply ih
      · unfold enter
        split
        · rw [lookup_append_of_none h]
          have := hk e (by simp)
          simp [lookup, this]
        · exact h
      · intro d hd
        apply hk d (by simp [hd])

/-- The new keys, the first entry taken out. -/
theorem newKeys_cons_of_some (h : lookup key c (key e) ≠ none) :
  newKeys key c (e :: es) = newKeys key c es
  := by
  have hmem : key e ∈ (c.map key).toFinset := by
    by_contra hnot
    exact h (lookup_eq_none_iff.mpr hnot)
  rw [newKeys, List.map_cons, List.toFinset_cons, Finset.insert_sdiff_of_mem _ hmem, newKeys]

theorem card_newKeys_cons_of_none (h : lookup key c (key e) = none) :
  (newKeys key c (e :: es)).card = (newKeys key (c ++ [e]) es).card + 1
  := by
  have hinsert : newKeys key c (e :: es) = insert (key e) (newKeys key (c ++ [e]) es) := by
    have hnot := lookup_eq_none_iff.mp h
    ext x
    simp only [newKeys, List.map_cons, List.toFinset_cons, List.map_append, List.map_nil,
      List.toFinset_append, List.toFinset_nil, Finset.mem_sdiff, Finset.mem_insert,
      Finset.mem_union, Finset.notMem_empty, or_false]
    by_cases hx : x = key e
    · subst hx
      simp [hnot]
    · simp [hx]
  rw [hinsert, Finset.card_insert_of_notMem]
  simp [newKeys]

/-- The cache has room behind some entries if and only if they leave room. -/
theorem length_fill_lt_iff :
  (es.foldl (enter key cap) c).length < cap ↔ Room key cap c es
  := by
  induction es generalizing c with
  | nil => simp [Room, newKeys]
  | cons e es ih =>
      rw [List.foldl_cons, ih, enter]
      split
      case isTrue h =>
        rw [Room, Room, card_newKeys_cons_of_none h.2, List.length_append, List.length_singleton]
        omega
      case isFalse h =>
        by_cases hroom : c.length < cap
        · have hsome : lookup key c (key e) ≠ none := fun hnone => h ⟨hroom, hnone⟩
          rw [Room, Room, newKeys_cons_of_some hsome]
        · rw [Room, Room]
          omega

/-- A full cache stays as it is. -/
theorem fill_of_full (h : cap ≤ c.length) :
  es.foldl (enter key cap) c = c
  := by
  induction es with
  | nil => rfl
  | cons e es ih =>
      rw [List.foldl_cons, enter, if_neg (by omega)]
      exact ih

/-- The first entry of a new key is found, provided that those in front of it leave room. -/
theorem lookup_fill_of_room {before after : List ε} (h : lookup key c (key e) = none)
    (hbefore : ∀ d ∈ before, key d ≠ key e) (hroom : Room key cap c before) :
  lookup key ((before ++ e :: after).foldl (enter key cap) c) (key e) = some e
  := by
  have hnone : lookup key (before.foldl (enter key cap) c) (key e) = none :=
    lookup_fill_of_notMem h hbefore
  rw [List.foldl_append, List.foldl_cons]
  apply lookup_of_prefix (prefix_fill _ _)
  rw [enter, if_pos ⟨length_fill_lt_iff.mpr hroom, hnone⟩, lookup_append_of_none hnone]
  simp [lookup]

/-- Where those in front of it leave no room, a new key is not found, and the cache is full. -/
theorem lookup_fill_of_not_room {before after : List ε} (h : lookup key c (key e) = none)
    (hbefore : ∀ d ∈ before, key d ≠ key e) (hroom : ¬ Room key cap c before) :
  lookup key ((before ++ e :: after).foldl (enter key cap) c) (key e) = none
    ∧ cap ≤ ((before ++ e :: after).foldl (enter key cap) c).length
  := by
  have hfull : cap ≤ (before.foldl (enter key cap) c).length := by
    rw [← length_fill_lt_iff] at hroom
    omega
  rw [List.foldl_append, fill_of_full hfull]
  exact ⟨lookup_fill_of_notMem h hbefore, hfull⟩

end Memo
