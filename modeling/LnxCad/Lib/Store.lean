import Mathlib.Data.List.Nodup
import Mathlib.Tactic

/-!
# Memory with a record of its writes

A memory is a function from indices to values, with the list of the indices written so far,
oldest first.  A memory over the natural numbers can be read and written piece by piece.  A
loop that visits different cells and writes each of them at most once, by what the cell holds,
acts on every cell as if it were the only one.
-/

/-- A memory, and where it was written. -/
structure Store (ι α : Type*) where
  cell : ι → α
  writes : List ι

namespace Store

variable {ι κ α : Type*} [DecidableEq ι]

/-- A cell is written. -/
def write (s : Store ι α) (i : ι) (a : α) : Store ι α :=
  ⟨Function.update s.cell i a, s.writes ++ [i]⟩

@[simp]
theorem write_cell_self (s : Store ι α) (i : ι) (a : α) :
  (s.write i a).cell i = a
  := by
  apply Function.update_self

theorem write_cell_of_ne (s : Store ι α) {i j : ι} (h : j ≠ i) (a : α) :
  (s.write i a).cell j = s.cell j
  := by
  apply Function.update_of_ne h

@[simp]
theorem write_writes (s : Store ι α) (i : ι) (a : α) :
  (s.write i a).writes = s.writes ++ [i]
  := rfl

/-- The values of `n` cells from index `i` on. -/
def read (s : Store ℕ α) : ℕ → ℕ → List α
  | _, 0 => []
  | i, n + 1 => s.cell i :: s.read (i + 1) n

/-- The cells from index `i` on are written, in order. -/
def writeAll (s : Store ℕ α) : ℕ → List α → Store ℕ α
  | _, [] => s
  | i, a :: l => (s.write i a).writeAll (i + 1) l

@[simp]
theorem length_read (s : Store ℕ α) (i n : ℕ) :
  (s.read i n).length = n
  := by
  induction n generalizing i with
  | zero => rfl
  | succ n ih => rw [read, List.length_cons, ih]

theorem read_add (s : Store ℕ α) (i n k : ℕ) :
  s.read i (n + k) = s.read i n ++ s.read (i + n) k
  := by
  induction n generalizing i with
  | zero => rw [Nat.zero_add, Nat.add_zero, read, List.nil_append]
  | succ n ih =>
      rw [Nat.succ_add_eq_add_succ, Nat.add_succ, read, ih, read, List.cons_append, Nat.add_assoc,
        Nat.add_comm 1 n]

theorem take_read (s : Store ℕ α) (i : ℕ) {k n : ℕ} (h : k ≤ n) :
  (s.read i n).take k = s.read i k
  := by
  obtain ⟨m, rfl⟩ := Nat.exists_eq_add_of_le h
  rw [read_add, List.take_left' (length_read s i k)]

theorem drop_read (s : Store ℕ α) (i : ℕ) {k n : ℕ} (h : k ≤ n) :
  (s.read i n).drop k = s.read (i + k) (n - k)
  := by
  obtain ⟨m, rfl⟩ := Nat.exists_eq_add_of_le h
  rw [read_add, List.drop_left' (length_read s i k), Nat.add_sub_cancel_left]

theorem read_congr {s t : Store ℕ α} {i n : ℕ} (h : ∀ j, i ≤ j → j < i + n → s.cell j = t.cell j) :
  s.read i n = t.read i n
  := by
  induction n generalizing i with
  | zero => rfl
  | succ n ih =>
      rw [read, read, h i (le_refl i) (by omega)]
      congr 1
      apply ih
      intro j hlo hhi
      apply h j
      · omega
      · omega

/-- Cells outside a piece are not changed when it is written. -/
theorem writeAll_cell_of_not_mem (s : Store ℕ α) {i j : ℕ} {l : List α}
    (h : j < i ∨ i + l.length ≤ j) :
  (s.writeAll i l).cell j = s.cell j
  := by
  induction l generalizing s i with
  | nil => rfl
  | cons a l ih =>
      rw [List.length_cons] at h
      rw [writeAll, ih]
      · apply write_cell_of_ne
        omega
      · omega

/-- What was written is read back. -/
theorem read_writeAll (s : Store ℕ α) (i : ℕ) (l : List α) :
  (s.writeAll i l).read i l.length = l
  := by
  induction l generalizing s i with
  | nil => rfl
  | cons a l ih =>
      rw [writeAll, List.length_cons, read, ih, writeAll_cell_of_not_mem _ (by omega),
        write_cell_self]

theorem writeAll_append (s : Store ℕ α) (i : ℕ) (l l' : List α) :
  s.writeAll i (l ++ l') = (s.writeAll i l).writeAll (i + l.length) l'
  := by
  induction l generalizing s i with
  | nil => rfl
  | cons a l ih =>
      rw [List.cons_append, writeAll, writeAll, ih, List.length_cons, Nat.add_assoc,
        Nat.add_comm 1]

/-- A piece is written in order, each cell once. -/
theorem writeAll_writes (s : Store ℕ α) (i : ℕ) (l : List α) :
  (s.writeAll i l).writes = s.writes ++ List.range' i l.length
  := by
  induction l generalizing s i with
  | nil => rw [writeAll, List.length_nil, List.range'_zero, List.append_nil]
  | cons a l ih =>
      rw [writeAll, ih, write_writes, List.append_assoc, List.singleton_append, List.length_cons,
        List.range'_succ]

/-- A buffer of `n` cells after a piece of it was written. -/
theorem read_zero_writeAll (s : Store ℕ α) {i n : ℕ} {l : List α} (h : i + l.length ≤ n) :
  (s.writeAll i l).read 0 n = (s.read 0 n).take i ++ l ++ (s.read 0 n).drop (i + l.length)
  := by
  obtain ⟨m, rfl⟩ := Nat.exists_eq_add_of_le h
  rw [take_read s 0 (by omega), drop_read s 0 (Nat.le_add_right _ m), Nat.add_sub_cancel_left,
    read_add, read_add, Nat.zero_add, Nat.zero_add, read_writeAll]
  congr 1
  · congr 1
    apply read_congr
    intro j _ hj
    apply writeAll_cell_of_not_mem
    omega
  · apply read_congr
    intro j hj _
    apply writeAll_cell_of_not_mem
    omega

theorem read_eq_map (s : Store ℕ α) (i n : ℕ) :
  s.read i n = (List.range n).map (fun j => s.cell (i + j))
  := by
  induction n with
  | zero => rfl
  | succ n ih =>
      rw [read_add, ih, List.range_succ, List.map_append]
      rfl

/-- A counted loop that writes consecutive cells writes a piece. -/
theorem foldl_range_write (s : Store ℕ α) (i n : ℕ) (g : ℕ → α) :
  (List.range n).foldl (fun s j => s.write (i + j) (g j)) s
    = s.writeAll i ((List.range n).map g)
  := by
  induction n with
  | zero => rfl
  | succ n ih =>
      rw [List.range_succ, List.foldl_append, ih, List.map_append, writeAll_append,
        List.length_map, List.length_range]
      rfl

/-- A piece read backwards. -/
theorem reverse_read (s : Store ℕ α) (i n : ℕ) :
  (s.read i n).reverse = (List.range n).map (fun j => s.cell (i + n - 1 - j))
  := by
  rw [read_eq_map]
  apply List.ext_getElem
  · simp
  · intro j hj _
    simp only [List.length_reverse, List.length_map, List.length_range] at hj
    simp only [List.getElem_reverse, List.getElem_map, List.getElem_range, List.length_map,
      List.length_range]
    congr 1
    omega

/-! ### Loops over different cells -/

/-- A cell is written if its value asks for it. -/
def touch (s : Store ι α) (i : ι) (f : α → Option α) : Store ι α :=
  match f (s.cell i) with
  | some a => s.write i a
  | none => s

theorem touch_cell_self (s : Store ι α) (i : ι) (f : α → Option α) :
  (s.touch i f).cell i = (f (s.cell i)).getD (s.cell i)
  := by
  unfold touch
  cases f (s.cell i) with
  | none => rfl
  | some a => exact write_cell_self s i a

theorem touch_cell_of_ne (s : Store ι α) {i j : ι} (h : j ≠ i) (f : α → Option α) :
  (s.touch i f).cell j = s.cell j
  := by
  unfold touch
  cases f (s.cell i) with
  | none => rfl
  | some a => exact write_cell_of_ne s h a

theorem touch_writes (s : Store ι α) (i : ι) (f : α → Option α) :
  (s.touch i f).writes = s.writes ++ if (f (s.cell i)).isSome then [i] else []
  := by
  unfold touch
  cases f (s.cell i) with
  | none => exact (List.append_nil _).symm
  | some a => rfl

/-- The cells of some places are visited in order. -/
def touchAll (s : Store ι α) (places : List κ) (addr : κ → ι) (f : κ → α → Option α) : Store ι α :=
  places.foldl (fun s k => s.touch (addr k) (f k)) s

variable {places : List κ} {addr : κ → ι} {f : κ → α → Option α}

theorem touchAll_cons (s : Store ι α) (k : κ) (places : List κ) :
  s.touchAll (k :: places) addr f = (s.touch (addr k) (f k)).touchAll places addr f
  := rfl

/-- A cell that is not visited is not changed. -/
theorem touchAll_cell_of_not_mem (s : Store ι α) {j : ι} (h : ∀ k ∈ places, addr k ≠ j) :
  (s.touchAll places addr f).cell j = s.cell j
  := by
  induction places generalizing s with
  | nil => rfl
  | cons k places ih =>
      rw [touchAll_cons, ih _ (fun k' hk' => h k' (by simp [hk']))]
      apply touch_cell_of_ne
      exact (h k (by simp)).symm

/-- A visited cell gets the value that its own place gives it. -/
theorem touchAll_cell_of_mem (s : Store ι α) (h : (places.map addr).Nodup) {k : κ}
    (hk : k ∈ places) :
  (s.touchAll places addr f).cell (addr k) = (f k (s.cell (addr k))).getD (s.cell (addr k))
  := by
  induction places generalizing s with
  | nil => cases hk
  | cons k' places ih =>
      rw [List.map_cons, List.nodup_cons] at h
      obtain ⟨hnot, hnodup⟩ := h
      rw [touchAll_cons]
      obtain rfl | hk := List.mem_cons.mp hk
      · rw [touchAll_cell_of_not_mem]
        · apply touch_cell_self
        · intro k' hk' heq
          apply hnot
          rw [← heq]
          exact List.mem_map_of_mem hk'
      · have hne : addr k ≠ addr k' := by
          intro heq
          apply hnot
          rw [← heq]
          exact List.mem_map_of_mem hk
        rw [ih _ hnodup hk, touch_cell_of_ne _ hne]

/-- The writes are those of the places whose cells ask for it, in order. -/
theorem touchAll_writes (s : Store ι α) (h : (places.map addr).Nodup) :
  (s.touchAll places addr f).writes
    = s.writes ++ (places.filter fun k => (f k (s.cell (addr k))).isSome).map addr
  := by
  induction places generalizing s with
  | nil => simp [touchAll]
  | cons k places ih =>
      rw [List.map_cons, List.nodup_cons] at h
      obtain ⟨hnot, hnodup⟩ := h
      have hrest : places.filter (fun k' => (f k' ((s.touch (addr k) (f k)).cell (addr k'))).isSome)
          = places.filter (fun k' => (f k' (s.cell (addr k'))).isSome) := by
        apply List.filter_congr
        intro k' hk'
        have hne : addr k' ≠ addr k := by
          intro heq
          apply hnot
          rw [← heq]
          exact List.mem_map_of_mem hk'
        rw [touch_cell_of_ne _ hne]
      rw [touchAll_cons, ih _ hnodup, touch_writes, hrest, List.append_assoc, List.filter_cons]
      split
      · rfl
      · rfl

/-- A visited cell is written once if its value asks for it, and not at all otherwise. -/
theorem count_touchAll_writes (s : Store ι α) (h : (places.map addr).Nodup) {k : κ}
    (hk : k ∈ places) :
  (s.touchAll places addr f).writes.count (addr k)
    = s.writes.count (addr k) + if (f k (s.cell (addr k))).isSome then 1 else 0
  := by
  have hinj := List.inj_on_of_nodup_map h
  have hfilter := h.sublist
    ((places.filter_sublist (p := fun k => (f k (s.cell (addr k))).isSome)).map addr)
  rw [touchAll_writes s h, List.count_append, hfilter.count]
  congr 1
  apply if_congr _ rfl rfl
  constructor
  · intro hmem
    obtain ⟨k', hk', heq⟩ := List.mem_map.mp hmem
    obtain ⟨hk', hsome⟩ := List.mem_filter.mp hk'
    rw [← hinj hk' hk heq]
    exact hsome
  · intro hsome
    apply List.mem_map_of_mem
    exact List.mem_filter.mpr ⟨hk, hsome⟩

/-- Two nested loops that pass over some rows and some columns visit the cells of a rectangle. -/
theorem foldl_foldl_touch {ρ γ : Type*} (s : Store ι α) (rows : List ρ) (cols : List γ)
    (p : ρ → Prop) (q : γ → Prop) [DecidablePred p] [DecidablePred q] (addr : ρ → γ → ι)
    (f : ρ → γ → α → Option α) :
  rows.foldl (fun s r =>
      if p r then s
      else cols.foldl (fun s c => if q c then s else s.touch (addr r c) (f r c)) s) s
    = s.touchAll (rows.filter (fun r => ¬ p r) ×ˢ cols.filter (fun c => ¬ q c))
      (fun k => addr k.1 k.2) (fun k => f k.1 k.2)
  := by
  have hinner : ∀ (r : ρ) (s : Store ι α),
      cols.foldl (fun s c => if q c then s else s.touch (addr r c) (f r c)) s
        = ((cols.filter (fun c => ¬ q c)).map (Prod.mk r)).foldl
          (fun s k => s.touch (addr k.1 k.2) (f k.1 k.2)) s := by
    intro r s
    rw [List.foldl_map, List.foldl_filter]
    congr 1
    funext s c
    by_cases hc : q c
    · rw [if_pos hc, if_neg (by simpa using hc)]
    · rw [if_neg hc, if_pos (by simpa using hc)]
  have hproduct : rows.filter (fun r => ¬ p r) ×ˢ cols.filter (fun c => ¬ q c)
      = (rows.filter (fun r => ¬ p r)).flatMap
        (fun r => (cols.filter (fun c => ¬ q c)).map (Prod.mk r)) := rfl
  rw [touchAll, hproduct, List.foldl_flatMap, List.foldl_filter]
  congr 1
  funext s r
  by_cases hr : p r
  · rw [if_pos hr, if_neg (by simpa using hr)]
  · rw [if_neg hr, if_pos (by simpa using hr), hinner]

end Store
