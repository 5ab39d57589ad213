import LnxCad.Lib.Store
import LnxCad.Text

/-!
# Strings put together in a buffer

`safe_copy` and `safe_concat`, byte by byte, on a memory that records where it is written.  Both
write one piece of the buffer, and what they leave in it is what they are elsewhere said to leave
there.  So a chain of them puts as much of its strings into the buffer as fits.
-/

namespace LnxCad

namespace Mem

/-! ### The functions -/

/-- The copying loop of both functions, which writes from index `len` on: the rest of `src`,
and `i`. -/
def copyLoop (maxLen len : ℕ) : Bytes → ℕ → Store ℕ UInt8 → Store ℕ UInt8 × ℕ
  | [], i, dst => (dst, i)
  | c :: src, i, dst =>
      if c ≠ 0 ∧ len + i < maxLen - 1 then
        copyLoop maxLen len src (i + 1) (dst.write (len + i) c)
      else (dst, i)

/-- `safe_copy`. -/
def safeCopy (dst : Store ℕ UInt8) (src : Bytes) (maxLen : ℕ) : Store ℕ UInt8 :=
  if maxLen = 0 then dst
  else
    let (dst, i) := copyLoop maxLen 0 src 0 dst
    dst.write i 0

/-- The loop that finds the end of the string in the buffer, by the number of bytes it may still
pass, and `len`. -/
def lenLoop (dst : Store ℕ UInt8) : ℕ → ℕ → ℕ
  | 0, len => len
  | n + 1, len => if dst.cell len ≠ 0 then lenLoop dst n (len + 1) else len

/-- `safe_concat`. -/
def safeConcat (dst : Store ℕ UInt8) (src : Bytes) (maxLen : ℕ) : Store ℕ UInt8 :=
  if maxLen = 0 then dst
  else
    let len := lenLoop dst (maxLen - 1) 0
    let (dst, i) := copyLoop maxLen len src 0 dst
    dst.write (len + i) 0

/-! ### What they write -/

theorem copyLoop_eq (maxLen len : ℕ) (src : Bytes) (i : ℕ) (dst : Store ℕ UInt8) :
  copyLoop maxLen len src i dst
    = (dst.writeAll (len + i) ((cstr src).take (maxLen - 1 - (len + i))),
      i + ((cstr src).take (maxLen - 1 - (len + i))).length)
  := by
  induction src generalizing i dst with
  | nil => rw [copyLoop, cstr_nil, List.take_nil, Store.writeAll, List.length_nil, Nat.add_zero]
  | cons c src ih =>
      unfold copyLoop
      split
      case isTrue hgo =>
        obtain ⟨hc, hlt⟩ := hgo
        obtain ⟨n, hn⟩ : ∃ n, maxLen - 1 - (len + i) = n + 1 := ⟨maxLen - 1 - (len + i) - 1, by omega⟩
        have hrest : maxLen - 1 - (len + (i + 1)) = n := by omega
        rw [ih, hrest, hn, cstr_cons hc, List.take_succ_cons, Store.writeAll, List.length_cons,
          Nat.add_assoc len i 1]
        congr 1
        omega
      case isFalse hstop =>
        have hnil : (cstr (c :: src)).take (maxLen - 1 - (len + i)) = [] := by
          by_cases hc : c = 0
          · subst hc
            rw [cstr_zero_cons, List.take_nil]
          · have hzero : maxLen - 1 - (len + i) = 0 := by
              have hlt : ¬ len + i < maxLen - 1 := fun hlt => hstop ⟨hc, hlt⟩
              omega
            rw [hzero, List.take_zero]
        rw [hnil, Store.writeAll, List.length_nil, Nat.add_zero]

/-- `safe_copy` writes the string and its end at the start of the buffer. -/
theorem safeCopy_eq (dst : Store ℕ UInt8) (src : Bytes) {maxLen : ℕ} (h : maxLen ≠ 0) :
  safeCopy dst src maxLen = dst.writeAll 0 ((cstr src).take (maxLen - 1) ++ [0])
  := by
  rw [safeCopy, if_neg h, copyLoop_eq]
  dsimp only
  rw [Store.writeAll_append, Nat.add_zero, Nat.sub_zero, Nat.zero_add]
  rfl

theorem lenLoop_eq (dst : Store ℕ UInt8) (n len : ℕ) :
  lenLoop dst n len = len + (cstr (dst.read len n)).length
  := by
  induction n generalizing len with
  | zero => rfl
  | succ n ih =>
      unfold lenLoop
      split
      case isTrue hc =>
        rw [ih, Store.read, cstr_cons hc, List.length_cons]
        omega
      case isFalse hc =>
        rw [not_not] at hc
        rw [Store.read, hc, cstr_zero_cons, List.length_nil, Nat.add_zero]

/-- `safe_concat` writes the string and its end behind the string in the buffer. -/
theorem safeConcat_eq (dst : Store ℕ UInt8) (src : Bytes) {maxLen : ℕ} (h : maxLen ≠ 0) :
  safeConcat dst src maxLen
    = dst.writeAll (cstr (dst.read 0 (maxLen - 1))).length
      ((cstr src).take (maxLen - 1 - (cstr (dst.read 0 (maxLen - 1))).length) ++ [0])
  := by
  rw [safeConcat, if_neg h, lenLoop_eq, Nat.zero_add]
  dsimp only
  rw [copyLoop_eq]
  dsimp only
  rw [Store.writeAll_append, Nat.zero_add, Nat.add_zero]
  rfl

/-- A bounded string has its end within the buffer. -/
theorem length_cstr_read_le (dst : Store ℕ UInt8) (n : ℕ) :
  (cstr (dst.read 0 n)).length ≤ n
  := by
  have hle := length_cstr_le (dst.read 0 n)
  rwa [Store.length_read] at hle

/-! ### What they leave in the buffer -/

/-- The bytes that `safe_copy` leaves in a buffer. -/
theorem read_safeCopy (dst : Store ℕ UInt8) (src : Bytes) (maxLen : ℕ) :
  (safeCopy dst src maxLen).read 0 maxLen = LnxCad.safeCopy (dst.read 0 maxLen) src maxLen
  := by
  by_cases h : maxLen = 0
  · subst h
    rfl
  · have hlen : ((cstr src).take (maxLen - 1) ++ [0]).length ≤ maxLen := by
      rw [List.length_append, List.length_take, List.length_singleton]
      omega
    rw [safeCopy_eq dst src h, Store.read_zero_writeAll _ (by omega), LnxCad.safeCopy, if_neg h,
      List.take_zero, List.nil_append, List.append_assoc, Nat.zero_add, List.length_append]
    rfl

/-- The bytes that `safe_concat` leaves in a buffer. -/
theorem read_safeConcat (dst : Store ℕ UInt8) (src : Bytes) (maxLen : ℕ) :
  (safeConcat dst src maxLen).read 0 maxLen = LnxCad.safeConcat (dst.read 0 maxLen) src maxLen
  := by
  by_cases h : maxLen = 0
  · subst h
    rfl
  · have hstored : cstr (dst.read 0 (maxLen - 1)) = (cstr (dst.read 0 maxLen)).take (maxLen - 1) := by
      rw [← cstr_take, Store.take_read _ _ (by omega)]
    have hle := length_cstr_read_le dst (maxLen - 1)
    have hfront : (dst.read 0 maxLen).take (cstr (dst.read 0 (maxLen - 1))).length
        = cstr (dst.read 0 (maxLen - 1)) := by
      have hprefix : cstr (dst.read 0 (maxLen - 1)) <+: dst.read 0 maxLen := by
        rw [hstored]
        exact (List.take_prefix _ _).trans (List.takeWhile_prefix _)
      exact (List.prefix_iff_eq_take.mp hprefix).symm
    rw [safeConcat_eq dst src h, Store.read_zero_writeAll, hfront, LnxCad.safeConcat, if_neg h,
      ← hstored]
    · dsimp only
      rw [List.length_append, List.append_assoc, List.append_assoc, List.append_assoc]
      rfl
    · rw [List.length_append, List.length_take, List.length_singleton]
      omega

/-- `safe_copy` writes inside the buffer. -/
theorem safeCopy_writes (dst : Store ℕ UInt8) (src : Bytes) {maxLen : ℕ}
    (h : ∀ i ∈ dst.writes, i < maxLen) :
  ∀ i ∈ (safeCopy dst src maxLen).writes, i < maxLen
  := by
  by_cases hzero : maxLen = 0
  · subst hzero
    exact h
  · intro i hi
    rw [safeCopy_eq dst src hzero, Store.writeAll_writes, List.mem_append, List.mem_range'_1] at hi
    obtain hi | ⟨-, hi⟩ := hi
    · exact h i hi
    · rw [List.length_append, List.length_take, List.length_singleton] at hi
      omega

/-- `safe_concat` writes inside the buffer. -/
theorem safeConcat_writes (dst : Store ℕ UInt8) (src : Bytes) {maxLen : ℕ}
    (h : ∀ i ∈ dst.writes, i < maxLen) :
  ∀ i ∈ (safeConcat dst src maxLen).writes, i < maxLen
  := by
  by_cases hzero : maxLen = 0
  · subst hzero
    exact h
  · have hle := length_cstr_read_le dst (maxLen - 1)
    intro i hi
    rw [safeConcat_eq dst src hzero, Store.writeAll_writes, List.mem_append, List.mem_range'_1] at hi
    obtain hi | ⟨-, hi⟩ := hi
    · exact h i hi
    · rw [List.length_append, List.length_take, List.length_singleton] at hi
      omega

/-! ### Chains -/

/-- A string put together from a first one and others. -/
def assemble (dst : Store ℕ UInt8) (m : ℕ) (s₀ : Bytes) (rest : List Bytes) : Store ℕ UInt8 :=
  rest.foldl (fun dst s => safeConcat dst s m) (safeCopy dst s₀ m)

/-- The string in the buffer grows by what fits of each further one. -/
theorem cstr_read_foldl {m : ℕ} (hm : m ≠ 0) (rest : List Bytes)
    (hrest : ∀ s ∈ rest, ∀ c ∈ s, c ≠ 0) {dst : Store ℕ UInt8} {text : Bytes}
    (h : cstr (dst.read 0 m) = text.take (m - 1)) :
  cstr ((rest.foldl (fun dst s => safeConcat dst s m) dst).read 0 m)
    = (text ++ rest.flatten).take (m - 1)
  := by
  induction rest generalizing dst text with
  | nil => rw [List.foldl_nil, List.flatten_nil, List.append_nil, h]
  | cons s rest ih =>
      have hs : cstr s = s := cstr_of_ne_zero (hrest s (by simp))
      rw [List.foldl_cons, List.flatten_cons, ← List.append_assoc]
      apply ih
      · intro s' hs'
        apply hrest s' (by simp [hs'])
      · rw [read_safeConcat, cstr_safeConcat _ _ hm, h, hs, List.take_append, List.take_take,
          Nat.min_self, List.take_append, List.length_take]
        congr 2
        omega

theorem assemble_writes {dst : Store ℕ UInt8} {m : ℕ} (s₀ : Bytes) (rest : List Bytes)
    (h : ∀ i ∈ dst.writes, i < m) :
  ∀ i ∈ (assemble dst m s₀ rest).writes, i < m
  := by
  unfold assemble
  induction rest using List.reverseRecOn with
  | nil => exact safeCopy_writes dst s₀ h
  | append_singleton rest s ih =>
      rw [List.foldl_append, List.foldl_cons, List.foldl_nil]
      exact safeConcat_writes _ s ih

/-- `safe_copy` of a string, followed by `safe_concat` of others, leaves in the buffer as much of
their concatenation as fits, with its end, and writes nowhere else. -/
theorem read_assemble
    {m : ℕ} (hm : 1 ≤ m) (cells : ℕ → UInt8) {s₀ : Bytes} {rest : List Bytes}
    (hs : ∀ s ∈ s₀ :: rest, ∀ c ∈ s, c ≠ 0) :
  (assemble ⟨cells, []⟩ m s₀ rest).read 0 (min (m - 1) (s₀ :: rest).flatten.length + 1)
      = (s₀ :: rest).flatten.take (m - 1) ++ [0]
    ∧ ∀ i ∈ (assemble ⟨cells, []⟩ m s₀ rest).writes, i < m
  := by
  constructor
  · have hs₀ : cstr s₀ = s₀ := cstr_of_ne_zero (hs s₀ (by simp))
    have hstored : cstr ((assemble ⟨cells, []⟩ m s₀ rest).read 0 m)
        = (s₀ :: rest).flatten.take (m - 1) := by
      apply cstr_read_foldl (by omega)
      · intro s hmem
        apply hs s (by simp [hmem])
      · rw [read_safeCopy, cstr_safeCopy _ _ (by omega), hs₀]
    have hlen : (cstr ((assemble ⟨cells, []⟩ m s₀ rest).read 0 m)).length
        = min (m - 1) (s₀ :: rest).flatten.length := by
      rw [hstored, List.length_take]
    rw [← hlen, ← hstored, ← take_length_cstr_succ, Store.take_read]
    · omega
    · rw [Store.length_read]
      omega
  · apply assemble_writes
    simp

/-- A path that does not fit is cut, and the piece behind it is not written. -/
theorem read_assemble_path :
  (assemble ⟨fun _ => 255, []⟩ 8 (chars ['/', 'p', 'r', 'o', 'c', '/'])
      [chars ['1', '2'], chars ['/', 'e', 'n', 'v']]).read 0 8
    = chars ['/', 'p', 'r', 'o', 'c', '/', '1'] ++ [0]
  := (@read_assemble 8 (by decide) (fun _ => 255) (chars ['/', 'p', 'r', 'o', 'c', '/'])
    [chars ['1', '2'], chars ['/', 'e', 'n', 'v']] (by decide +kernel)).1

end Mem

end LnxCad
