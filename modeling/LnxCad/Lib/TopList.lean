import Mathlib.Data.List.DropRight
import Mathlib.Data.List.Sort
import Mathlib.Tactic

/-!
# Bounded lists of the greatest

A list of at most `n` elements that is kept sorted by descending keys: an element offered to it
is put behind the last one whose key is at least its own, and what goes past the end is
dropped; while the list is not full, a key that is least of all stands for its last one.  The
list holds the first `n` elements of the stable descending sort of what it was offered.
-/

namespace TopList

variable {α β : Type*} [LinearOrder β] (key : α → β)

/-- The stable sort by descending keys. -/
def sortDesc (l : List α) : List α := l.insertionSort (fun a b => key b ≤ key a)

/-- An element is put behind those whose keys are at least its own, from the front. -/
def insertLast (p : α) : List α → List α
  | [] => [p]
  | q :: l => if key p ≤ key q then q :: insertLast p l else p :: q :: l

/-- An element is put in front of those at the end whose keys are less than its own. -/
def behind (p : α) (l : List α) : List α :=
  l.rdropWhile (fun q => key q < key p) ++ p :: l.rtakeWhile (fun q => key q < key p)

/-- The last key of a list of at most `n` elements, or a least one while it is not full. -/
def lastKey (n : ℕ) (least : β) (l : List α) : β :=
  match l[n - 1]? with
  | some q => key q
  | none => least

/-- An element is offered to a list of at most `n` elements. -/
def offer (n : ℕ) (least : β) (p : α) (l : List α) : List α :=
  if key p > lastKey key n least l then (behind key p l).take n else l

variable {key}

/-! ### Insertion into a sorted list -/

theorem orderedInsert_insertLast (a p : α) (l : List α) :
  (insertLast key p l).orderedInsert (fun a b => key b ≤ key a) a
    = insertLast key p (l.orderedInsert (fun a b => key b ≤ key a) a)
  := by
  induction l with
  | nil =>
      by_cases hpa : key p ≤ key a
      · simp [insertLast, hpa]
      · simp [insertLast, hpa]
  | cons b l ih =>
      by_cases hba : key b ≤ key a
      · by_cases hpb : key p ≤ key b
        · have hpa : key p ≤ key a := hpb.trans hba
          simp [insertLast, hba, hpb, hpa]
        · by_cases hpa : key p ≤ key a
          · simp [insertLast, hba, hpb, hpa]
          · simp [insertLast, hba, hpb, hpa]
      · by_cases hpb : key p ≤ key b
        · simp [insertLast, hba, hpb, ih]
        · have hpa : ¬ key p ≤ key a := fun h => hpb (h.trans (not_le.mp hba).le)
          simp [insertLast, hba, hpb, hpa]

/-- One element more at the end is put behind its equals. -/
theorem sortDesc_concat (l : List α) (p : α) :
  sortDesc key (l ++ [p]) = insertLast key p (sortDesc key l)
  := by
  unfold sortDesc
  induction l with
  | nil => rfl
  | cons a l ih =>
      rw [List.cons_append, List.insertionSort_cons, List.insertionSort_cons, ih,
        orderedInsert_insertLast]

/-- A sort puts greater keys in front. -/
theorem pairwise_sortDesc (l : List α) :
  (sortDesc key l).Pairwise (fun a b => key b ≤ key a)
  := by
  have htotal : Std.Total (fun a b : α => key b ≤ key a) := ⟨fun a b => le_total (key b) (key a)⟩
  have htrans : IsTrans α (fun a b : α => key b ≤ key a) := ⟨fun _ _ _ hab hbc => hbc.trans hab⟩
  exact List.pairwise_insertionSort _ l

theorem length_sortDesc (l : List α) :
  (sortDesc key l).length = l.length
  := List.length_insertionSort _ l

theorem mem_sortDesc {l : List α} {p : α} :
  p ∈ sortDesc key l ↔ p ∈ l
  := List.mem_insertionSort _

theorem filter_insertLast {l : List α} (h : l.Pairwise (fun a b => key b ≤ key a)) (p : α) (b : β) :
  (insertLast key p l).filter (fun q => key q = b)
    = l.filter (fun q => key q = b) ++ [p].filter (fun q => key q = b)
  := by
  induction l with
  | nil => simp [insertLast]
  | cons q l ih =>
      obtain ⟨hq, hl⟩ := List.pairwise_cons.mp h
      by_cases hpq : key p ≤ key q
      · rw [insertLast, if_pos hpq, List.filter_cons, List.filter_cons, ih hl]
        split
        · rfl
        · rfl
      · rw [insertLast, if_neg hpq, List.filter_cons]
        split
        case isFalse hpb => simp [hpb]
        case isTrue hpb =>
          -- what stands behind has lesser keys
          have hnil : (q :: l).filter (fun q => key q = b) = [] := by
            rw [decide_eq_true_eq] at hpb
            rw [List.filter_eq_nil_iff]
            intro r hr
            have hrp : key r < key p := by
              obtain rfl | hr := List.mem_cons.mp hr
              · exact not_le.mp hpq
              · exact (hq r hr).trans_lt (not_le.mp hpq)
            rw [decide_eq_true_eq, ← hpb]
            exact hrp.ne
          simp [hnil, hpb]

/-- The sort is stable: it keeps the order of the elements of one key. -/
theorem filter_sortDesc (l : List α) (b : β) :
  (sortDesc key l).filter (fun q => key q = b) = l.filter (fun q => key q = b)
  := by
  induction l using List.reverseRecOn with
  | nil => rfl
  | append_singleton l p ih =>
      rw [sortDesc_concat, filter_insertLast (pairwise_sortDesc l), ih, List.filter_append]

/-! ### Insertion from the back -/

/-- Elements that satisfy the condition do not matter at the end. -/
theorem rdropWhile_append_of_all {P : α → Bool} {u : List α} (hu : ∀ q ∈ u, P q = true)
    (s : List α) :
  (s ++ u).rdropWhile P = s.rdropWhile P ∧ (s ++ u).rtakeWhile P = s.rtakeWhile P ++ u
  := by
  induction u using List.reverseRecOn with
  | nil => simp
  | append_singleton u q ih =>
      have hq : P q = true := hu q (by simp)
      obtain ⟨hdrop, htake⟩ := ih (by
        intro r hr
        apply hu r (by simp [hr]))
      rw [← List.append_assoc, List.rdropWhile_concat_pos _ _ _ hq,
        List.rtakeWhile_concat_pos _ _ _ hq, hdrop, htake, List.append_assoc]
      exact ⟨rfl, rfl⟩

theorem insertLast_eq (p : α) (l : List α) :
  insertLast key p l
    = l.takeWhile (fun q => key p ≤ key q) ++ p :: l.dropWhile (fun q => key p ≤ key q)
  := by
  induction l with
  | nil => rfl
  | cons q l ih =>
      by_cases hpq : key p ≤ key q
      · simp [insertLast, hpq, ih]
      · simp [insertLast, hpq]

/-- In a sorted list an element comes to the same place from the back as from the front. -/
theorem behind_eq_insertLast {l : List α} (h : l.Pairwise (fun a b => key b ≤ key a)) (p : α) :
  behind key p l = insertLast key p l
  := by
  have hless : ∀ q ∈ l.dropWhile (fun q => key p ≤ key q), decide (key q < key p) = true := by
    intro q hq
    rw [decide_eq_true_eq]
    cases hdrop : l.dropWhile (fun q => key p ≤ key q) with
    | nil =>
        rw [hdrop] at hq
        cases hq
    | cons r u =>
        have hr : key r < key p := by
          have := List.head_dropWhile_not (fun q => decide (key p ≤ key q)) (l := l)
            (by rw [hdrop]; simp)
          simpa [hdrop] using this
        have hsorted : (r :: u).Pairwise (fun a b => key b ≤ key a) := by
          rw [← hdrop]
          exact h.sublist (List.dropWhile_sublist _)
        rw [hdrop] at hq
        obtain rfl | hq := List.mem_cons.mp hq
        · exact hr
        · exact ((List.pairwise_cons.mp hsorted).1 q hq).trans_lt hr
  have hlast : ∀ hne : l.takeWhile (fun q => key p ≤ key q) ≠ [],
      ¬ decide (key ((l.takeWhile (fun q => key p ≤ key q)).getLast hne) < key p) = true := by
    intro hne
    have := List.mem_takeWhile_imp (List.getLast_mem hne)
    simpa using this
  obtain ⟨hdrop, htake⟩ :=
    rdropWhile_append_of_all hless (l.takeWhile (fun q => key p ≤ key q))
  have hkept : (l.takeWhile (fun q => key p ≤ key q)).rdropWhile (fun q => key q < key p)
      = l.takeWhile (fun q => key p ≤ key q) := List.rdropWhile_eq_self_iff.mpr hlast
  have hnone : (l.takeWhile (fun q => key p ≤ key q)).rtakeWhile (fun q => key q < key p) = [] :=
    List.rtakeWhile_eq_nil_iff.mpr hlast
  rw [List.takeWhile_append_dropWhile, hkept] at hdrop
  rw [List.takeWhile_append_dropWhile, hnone, List.nil_append] at htake
  rw [behind, hdrop, htake, insertLast_eq]

/-! ### Bounded lists -/

theorem take_insertLast (n : ℕ) (p : α) (l : List α) :
  (insertLast key p (l.take n)).take n = (insertLast key p l).take n
  := by
  induction l generalizing n with
  | nil => simp
  | cons q l ih =>
      cases n with
      | zero => simp
      | succ n =>
          rw [List.take_succ_cons]
          by_cases hpq : key p ≤ key q
          · simp [insertLast, hpq, ih]
          · cases n with
            | zero => simp [insertLast, hpq]
            | succ n => simp [insertLast, hpq, List.take_take]

/-- An element that no key is less than is put at the end. -/
theorem insertLast_of_forall_le {p : α} {l : List α} (h : ∀ q ∈ l, key p ≤ key q) :
  insertLast key p l = l ++ [p]
  := by
  induction l with
  | nil => rfl
  | cons q l ih =>
      rw [insertLast, if_pos (h q (by simp)), ih]
      · rfl
      · intro r hr
        apply h r (by simp [hr])

/-- One element more is offered to a list that holds the greatest ones so far. -/
theorem offer_sortDesc {n : ℕ} (hn : 0 < n) {least : β} {l : List α} {p : α}
    (hp : least < key p) :
  offer key n least p ((sortDesc key l).take n) = (sortDesc key (l ++ [p])).take n
  := by
  have hsorted : ((sortDesc key l).take n).Pairwise (fun a b => key b ≤ key a) :=
    (pairwise_sortDesc l).sublist (List.take_sublist _ _)
  rw [sortDesc_concat, ← take_insertLast, offer]
  split
  case isTrue => rw [behind_eq_insertLast hsorted]
  case isFalse hnot =>
    -- a list that is not full has the least key at its end, so this one is full
    have hlength : ((sortDesc key l).take n).length = n := by
      by_contra hne
      have hle := List.length_take_le n (sortDesc key l)
      rw [lastKey, List.getElem?_eq_none (by omega)] at hnot
      exact hnot hp
    have hlast : n - 1 < ((sortDesc key l).take n).length := by omega
    rw [lastKey, List.getElem?_eq_getElem hlast] at hnot
    have hall : ∀ q ∈ (sortDesc key l).take n, key p ≤ key q := by
      intro q hq
      obtain ⟨i, hi, rfl⟩ := List.getElem_of_mem hq
      apply (not_lt.mp hnot).trans
      obtain heq | hlt := Nat.eq_or_lt_of_le (show i ≤ n - 1 by omega)
      · simp [heq]
      · exact List.pairwise_iff_getElem.mp hsorted i (n - 1) hi hlast hlt
    rw [insertLast_of_forall_le hall, List.take_append_of_le_length (by omega), List.take_take,
      Nat.min_self]

/-- What is offered to an empty list one after the other leaves the greatest. -/
theorem foldl_offer {n : ℕ} (hn : 0 < n) {least : β} {l : List α} (h : ∀ p ∈ l, least < key p) :
  l.foldl (fun top p => offer key n least p top) [] = (sortDesc key l).take n
  := by
  induction l using List.reverseRecOn with
  | nil => simp [sortDesc]
  | append_singleton l p ih =>
      rw [List.foldl_append, List.foldl_cons, List.foldl_nil, ih]
      · exact offer_sortDesc hn (h p (by simp))
      · intro q hq
        apply h q (by simp [hq])

end TopList
