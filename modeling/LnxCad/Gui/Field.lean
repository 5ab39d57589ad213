import LnxCad.Text

/-!
# Text fields

A text field of the interface is a buffer of the program together with the length the
program keeps beside it.  `nk_edit_string` edits the bytes below the length in place and
updates the length; it never writes a terminating zero, so the bytes a deletion drops stay
in the buffer past the new length.
-/

namespace LnxCad

/-- A text field: the memory the program owns and the length it keeps beside it. -/
structure Field where
  memory : Bytes
  len : ℕ
deriving DecidableEq

/-- A field over `n` zero bytes, with no text. -/
def Field.zero (n : ℕ) : Field := ⟨List.replicate n 0, 0⟩

/-- The text a field shows. -/
def Field.text (f : Field) : Bytes := f.memory.take f.len

/-- `secure_clear_buffer` on the memory, with the length reset. -/
def Field.clear (f : Field) : Field := .zero f.memory.length

/-- A character the program hands to the toolkit: never zero, since a key is forwarded
only when its code is nonzero. -/
abbrev TypedChar := { c : UInt8 // c ≠ 0 }

/-- One change of the text by the toolkit: typing a character at a position, or deleting a
range (a backspace, a delete or the removal of a selection). -/
inductive NkEdit where
  | insert (pos : ℕ) (c : TypedChar)
  | delete (pos n : ℕ)
deriving DecidableEq

/-- The length after an edit: `nk_str_insert_at_char` refuses a position past the text and
a text that would fill the memory, `nk_str_delete_chars` a range past the text. -/
def NkEdit.lenAfter (cap : ℕ) (n : ℕ) : NkEdit → ℕ
  | .insert pos _ => if pos ≤ n ∧ n + 1 < cap then n + 1 else n
  | .delete pos k => if pos + k ≤ n then n - k else n

/-- The memory after an edit.  An insertion moves the rest of the text up, a deletion
moves it down; bytes past the new text are left as they are. -/
def Field.apply (cap : ℕ) (f : Field) (e : NkEdit) : Field :=
  let m := f.memory
  match e with
  | .insert pos c =>
      if pos ≤ f.len ∧ f.len + 1 < cap then
        ⟨m.take pos ++ c.val :: (m.drop pos).take (f.len - pos) ++ m.drop (f.len + 1), f.len + 1⟩
      else f
  | .delete pos k =>
      if pos + k ≤ f.len then
        ⟨m.take pos ++ (m.drop (pos + k)).take (f.len - pos - k) ++ m.drop (f.len - k), f.len - k⟩
      else f

/-- `nk_edit_string` over memory of which the toolkit may use `cap` bytes: the length is
cut to `cap - 1`, then the edits of the frame are applied in order. -/
def nkEditString (cap : ℕ) (edits : List NkEdit) (f : Field) : Field :=
  edits.foldl (Field.apply cap) { f with len := min f.len (cap - 1) }

/-- The greatest length a text of length `n` reaches along a sequence of edits. -/
def peakFrom (cap : ℕ) : ℕ → List NkEdit → ℕ
  | n, [] => n
  | n, e :: es => max n (peakFrom cap (e.lenAfter cap n) es)

/-- The greatest length an empty text reaches along a sequence of edits. -/
def peak (cap : ℕ) (edits : List NkEdit) : ℕ := peakFrom cap 0 edits

/-! ### Where the stale bytes are -/

theorem getElem?_inserted
    {m : Bytes} {pos n : ℕ} (c : UInt8) (hpos : pos ≤ n) (hn : n < m.length) (i : ℕ) :
  (m.take pos ++ c :: (m.drop pos).take (n - pos) ++ m.drop (n + 1))[i]?
    = if i < pos then m[i]? else if i = pos then some c else if i ≤ n then m[i - 1]? else m[i]?
  := by
  have hl : (m.take pos).length = pos := by
    simp
    omega
  have hl' : (m.take pos ++ c :: (m.drop pos).take (n - pos)).length = n + 1 := by
    simp
    omega
  by_cases h1 : i < n + 1
  · rw [List.getElem?_append_left (by omega)]
    by_cases h2 : i < pos
    · rw [List.getElem?_append_left (by omega), List.getElem?_take_of_lt h2, if_pos h2]
    · rw [List.getElem?_append_right (by omega), hl, if_neg h2]
      by_cases h3 : i = pos
      · simp [h3]
      · obtain ⟨k, rfl⟩ : ∃ k, i = pos + k + 1 := ⟨i - pos - 1, by omega⟩
        rw [show pos + k + 1 - pos = k + 1 by omega, List.getElem?_cons_succ,
          List.getElem?_take_of_lt (by omega), List.getElem?_drop, if_neg h3, if_pos (by omega)]
        rfl
  · rw [List.getElem?_append_right (by omega), hl', List.getElem?_drop, if_neg (by omega),
      if_neg (by omega), if_neg (by omega)]
    congr 1
    omega

theorem getElem?_deleted
    {m : Bytes} {pos k n : ℕ} (hpos : pos + k ≤ n) (hn : n ≤ m.length) (i : ℕ) :
  (m.take pos ++ (m.drop (pos + k)).take (n - pos - k) ++ m.drop (n - k))[i]?
    = if i < pos then m[i]? else if i < n - k then m[i + k]? else m[i]?
  := by
  have hl : (m.take pos).length = pos := by
    simp
    omega
  have hl' : (m.take pos ++ (m.drop (pos + k)).take (n - pos - k)).length = n - k := by
    simp
    omega
  by_cases h1 : i < n - k
  · rw [List.getElem?_append_left (by omega), if_pos h1]
    by_cases h2 : i < pos
    · rw [List.getElem?_append_left (by omega), List.getElem?_take_of_lt h2, if_pos h2]
    · rw [List.getElem?_append_right (by omega), hl, List.getElem?_take_of_lt (by omega),
        List.getElem?_drop, if_neg h2]
      congr 1
      omega
  · rw [List.getElem?_append_right (by omega), hl', List.getElem?_drop, if_neg (by omega), if_neg h1]
    congr 1
    omega

/-- `HighWater cap f n`: the bytes of `f` below `n` are nonzero, those from `n` on are
zero, and the text lies below `n`, which the toolkit keeps below `cap`. -/
structure HighWater (cap : ℕ) (f : Field) (n : ℕ) : Prop where
  len_le : f.len ≤ n
  lt_cap : n < cap
  cap_le : cap ≤ f.memory.length
  low : ∀ i < n, f.memory[i]? ≠ some 0
  high : ∀ i c, n ≤ i → f.memory[i]? = some c → c = 0

theorem apply_len (cap : ℕ) (f : Field) (e : NkEdit) :
  (f.apply cap e).len = e.lenAfter cap f.len
  := by
  cases e with
  | insert pos c =>
      simp only [Field.apply, NkEdit.lenAfter]
      split
      · rfl
      · rfl
  | delete pos k =>
      simp only [Field.apply, NkEdit.lenAfter]
      split
      · rfl
      · rfl

theorem HighWater.zero {cap n : ℕ} (h0 : 0 < cap) (h : cap ≤ n) :
  HighWater cap (.zero n) 0
  := by
  constructor
  · apply Nat.le_refl
  · apply h0
  · simpa [Field.zero] using h
  · simp
  · intro i c _ hc
    simp only [Field.zero, List.getElem?_replicate] at hc
    split at hc
    · cases hc
      rfl
    · cases hc

/-- An edit keeps the bytes below the high-water mark nonzero and raises the mark to the
new length where that is greater. -/
theorem HighWater.apply
    {cap : ℕ} {f : Field} {n : ℕ} (h : HighWater cap f n) (e : NkEdit) :
  HighWater cap (f.apply cap e) (max n (e.lenAfter cap f.len))
  := by
  obtain ⟨hlen, hlt, hmax, hlow, hhigh⟩ := h
  cases e with
  | insert pos c =>
      by_cases hok : pos ≤ f.len ∧ f.len + 1 < cap
      · have hat := getElem?_inserted (m := f.memory) c.val hok.1 (by omega)
        simp only [Field.apply, NkEdit.lenAfter, if_pos hok]
        constructor
        · apply Nat.le_max_right
        · simp only [Nat.max_def]
          split <;> omega
        · simp only [List.length_append, List.length_take, List.length_cons, List.length_drop]
          omega
        · intro i hi
          rw [hat]
          split_ifs with hbefore hpos hmoved
          · exact hlow i (by omega)
          · rw [ne_eq, Option.some.injEq]
            exact c.property
          · exact hlow (i - 1) (by omega)
          · exact hlow i (by omega)
        · intro i d hi hd
          rw [hat, if_neg (by omega), if_neg (by omega), if_neg (by omega)] at hd
          exact hhigh i d (by omega) hd
      · simp only [Field.apply, NkEdit.lenAfter, if_neg hok]
        rw [max_eq_left hlen]
        exact ⟨hlen, hlt, hmax, hlow, hhigh⟩
  | delete pos k =>
      have hle : NkEdit.lenAfter cap f.len (.delete pos k) ≤ n := by
        simp only [NkEdit.lenAfter]
        split <;> omega
      rw [max_eq_left hle]
      by_cases hok : pos + k ≤ f.len
      · have hat := getElem?_deleted (m := f.memory) hok (by omega)
        simp only [Field.apply, if_pos hok]
        constructor
        · simp only
          omega
        · exact hlt
        · simp only [List.length_append, List.length_take, List.length_drop]
          omega
        · intro i hi
          rw [hat]
          split_ifs with hbefore hmoved
          · exact hlow i hi
          · exact hlow (i + k) (by omega)
          · exact hlow i hi
        · intro i d hi hd
          rw [hat, if_neg (by omega), if_neg (by omega)] at hd
          exact hhigh i d hi hd
      · simp only [Field.apply, if_neg hok]
        exact ⟨hlen, hlt, hmax, hlow, hhigh⟩

theorem le_peakFrom (cap n : ℕ) (edits : List NkEdit) :
  n ≤ peakFrom cap n edits
  := by
  cases edits with
  | nil => apply Nat.le_refl
  | cons e es => apply Nat.le_max_left

/-- Along a sequence of edits the high-water mark is the greatest length reached. -/
theorem HighWater.foldl
    {cap : ℕ} (edits : List NkEdit) :
    ∀ {f : Field} {n : ℕ}, HighWater cap f n →
      HighWater cap (edits.foldl (Field.apply cap) f) (max n (peakFrom cap f.len edits))
  := by
  induction edits with
  | nil =>
      intro f n h
      rw [peakFrom, max_eq_left h.len_le]
      exact h
  | cons e es ih =>
      intro f n h
      have hstep := ih (h.apply e)
      rw [apply_len] at hstep
      have hle := h.len_le
      simp only [List.foldl_cons, peakFrom]
      convert hstep using 1
      have hpeak := le_peakFrom cap (e.lenAfter cap f.len) es
      omega

/-- A field with high-water mark `n` stores, as a string, its first `n` bytes. -/
theorem HighWater.cstr_eq {cap : ℕ} {f : Field} {n : ℕ} (h : HighWater cap f n) :
  cstr f.memory = f.memory.take n
  := cstr_eq_take h.low h.high

/-- The stored string is the shown text exactly when the text reaches the high-water
mark. -/
theorem HighWater.cstr_eq_text_iff {cap : ℕ} {f : Field} {n : ℕ} (h : HighWater cap f n) :
  cstr f.memory = f.text ↔ f.len = n
  := by
  have hn := h.lt_cap
  have hm := h.cap_le
  rw [h.cstr_eq, Field.text]
  constructor
  · intro heq
    have hlen := congrArg List.length heq
    simp only [List.length_take] at hlen
    have hle := h.len_le
    omega
  · rintro rfl
    rfl

end LnxCad
