import Mathlib.Data.List.TakeWhile
import Mathlib.Tactic

/-!
# Byte buffers and the strings stored in them

A buffer is a list of bytes.  The string a buffer holds is the part before its first
zero byte.  `cstr` reads it back; `chars` writes down the bytes of a text.
-/

/-- A byte buffer. -/
abbrev Bytes := List UInt8

/-- The bytes of a text, one per character. -/
def chars (text : List Char) : Bytes := text.map Char.toUInt8

/-- The string stored at the start of a buffer: the bytes before the first zero. -/
def cstr (m : Bytes) : Bytes := m.takeWhile (· ≠ 0)

@[simp]
theorem cstr_nil :
  cstr [] = []
  := rfl

@[simp]
theorem cstr_zero_cons (m : Bytes) :
  cstr (0 :: m) = []
  := rfl

theorem cstr_cons {c : UInt8} (hc : c ≠ 0) (m : Bytes) :
  cstr (c :: m) = c :: cstr m
  := by
  simp [cstr, hc]

/-- No byte of a stored string is zero. -/
theorem ne_zero_of_mem_cstr {m : Bytes} {c : UInt8} (h : c ∈ cstr m) :
  c ≠ 0
  := by
  simpa using List.mem_takeWhile_imp h

/-- A text without a zero byte is the string it stores. -/
theorem cstr_of_ne_zero {s : Bytes} (h : ∀ c ∈ s, c ≠ 0) :
  cstr s = s
  := by
  rw [cstr, List.takeWhile_eq_self_iff]
  simpa using h

theorem length_cstr_le (m : Bytes) :
  (cstr m).length ≤ m.length
  := (List.takeWhile_prefix _).length_le

/-- The string a buffer stores is cut with the buffer. -/
theorem cstr_take (m : Bytes) (n : ℕ) :
  cstr (m.take n) = (cstr m).take n
  := List.take_takeWhile.symm

/-- The end of a string that is shorter than its buffer. -/
theorem take_length_cstr_succ {m : Bytes} (h : (cstr m).length < m.length) :
  m.take ((cstr m).length + 1) = cstr m ++ [0]
  := by
  induction m with
  | nil => simp at h
  | cons c m ih =>
      by_cases hc : c = 0
      · subst hc
        rfl
      · rw [cstr_cons hc, List.length_cons, List.length_cons] at h
        rw [cstr_cons hc, List.length_cons, List.take_succ_cons, ih (by omega), List.cons_append]

/-- A nonzero text followed by a zero byte stores that text. -/
theorem cstr_append_zero {s : Bytes} (hs : ∀ c ∈ s, c ≠ 0) (m : Bytes) :
  cstr (s ++ 0 :: m) = s
  := by
  induction s with
  | nil => rfl
  | cons c s ih =>
      rw [List.cons_append, cstr_cons (hs c (by simp))]
      congr 1
      apply ih
      intro d hd
      apply hs d (by simp [hd])

/-- A buffer that is nonzero below `n` and zero from `n` on stores its first `n` bytes. -/
theorem cstr_eq_take
    {m : Bytes} {n : ℕ} (hlow : ∀ i < n, m[i]? ≠ some 0)
    (hhigh : ∀ i c, n ≤ i → m[i]? = some c → c = 0) :
  cstr m = m.take n
  := by
  induction m generalizing n with
  | nil => simp
  | cons c m ih =>
      cases n with
      | zero =>
          obtain rfl : c = 0 := hhigh 0 c (Nat.le_refl 0) rfl
          rfl
      | succ n =>
          have hc : c ≠ 0 := by
            intro h
            apply hlow 0 (Nat.succ_pos n)
            rw [h]
            rfl
          rw [cstr_cons hc, List.take_succ_cons]
          congr 1
          apply ih
          · intro i hi
            apply hlow (i + 1) (by omega)
          · intro i d hi hd
            apply hhigh (i + 1) d (by omega) hd

/-! ### Searching -/

/-- Whether a string contains another, as `strstr` finds it. -/
def strstr : Bytes → Bytes → Bool
  | [], needle => needle.isPrefixOf []
  | c :: s, needle => needle.isPrefixOf (c :: s) || strstr s needle

theorem strstr_iff (s needle : Bytes) :
  strstr s needle = true ↔ needle <:+: s
  := by
  induction s with
  | nil => simp [strstr]
  | cons c s ih =>
      rw [strstr, Bool.or_eq_true, ih, List.infix_cons_iff, List.isPrefixOf_iff_prefix]

/-- A text that contains no separator is found before or behind one. -/
theorem strstr_append_cons {needle : Bytes} {x : UInt8} (hx : x ∉ needle) (a b : Bytes) :
  strstr (a ++ x :: b) needle = (strstr a needle || strstr b needle)
  := by
  rw [Bool.eq_iff_iff, Bool.or_eq_true, strstr_iff, strstr_iff, strstr_iff, List.infix_append_iff,
    List.infix_cons_iff]
  constructor
  · rintro (h | (h | h) | ⟨l, l', rfl, hl, hl'⟩)
    · exact Or.inl h
    · obtain hnil | ⟨l, rfl, -⟩ := List.prefix_cons_iff.mp h
      · rw [hnil]
        exact Or.inl List.nil_infix
      · simp at hx
    · exact Or.inr h
    · obtain hnil | ⟨l, rfl, -⟩ := List.prefix_cons_iff.mp hl'
      · rw [hnil, List.append_nil]
        exact Or.inl hl.isInfix
      · simp at hx
  · rintro (h | h)
    · exact Or.inl h
    · exact Or.inr (Or.inl (Or.inr h))

/-- The lower case of an upper-case letter of ASCII, other bytes unchanged. -/
def toLower (c : UInt8) : UInt8 := if 65 ≤ c.toNat ∧ c.toNat ≤ 90 then c + 32 else c

theorem toLower_toLower (c : UInt8) :
  toLower (toLower c) = toLower c
  := by
  unfold toLower
  split
  case isTrue h =>
    rw [if_neg]
    rw [UInt8.toNat_add]
    have h32 : (32 : UInt8).toNat = 32 := rfl
    omega
  case isFalse => rfl

/-- Whether a string contains another up to the case of letters. -/
def strcasestr (s needle : Bytes) : Bool := strstr (s.map toLower) (needle.map toLower)
