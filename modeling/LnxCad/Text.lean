import LnxCad.Lib.CString

/-!
# Text utilities

The bounded string functions and the decimal conversions of the rescue program, over
byte buffers.
-/

namespace LnxCad

/-! ### Bounded copies -/

/-- `safe_copy`: copies the string `src` into the buffer `dst` of size `maxLen`, cut
after `maxLen - 1` bytes, and terminates it. -/
def safeCopy (dst src : Bytes) (maxLen : ℕ) : Bytes :=
  if maxLen = 0 then dst
  else
    let s := (cstr src).take (maxLen - 1)
    s ++ 0 :: dst.drop (s.length + 1)

/-- `safe_concat`: appends the string `src` to the one stored in the buffer `dst` of
size `maxLen`, cut so that the result and its terminator fit. -/
def safeConcat (dst src : Bytes) (maxLen : ℕ) : Bytes :=
  if maxLen = 0 then dst
  else
    let s := (cstr dst).take (maxLen - 1)
    let t := (cstr src).take (maxLen - 1 - s.length)
    s ++ t ++ 0 :: dst.drop (s.length + t.length + 1)

/-- After `safe_copy` the buffer stores the source string, cut after `maxLen - 1`
bytes. -/
theorem cstr_safeCopy (dst src : Bytes) {maxLen : ℕ} (h : maxLen ≠ 0) :
  cstr (safeCopy dst src maxLen) = (cstr src).take (maxLen - 1)
  := by
  rw [safeCopy, if_neg h]
  apply cstr_append_zero
  intro c hc
  apply ne_zero_of_mem_cstr (List.mem_of_mem_take hc)

/-- After `safe_concat` the buffer stores the two strings in sequence, cut after
`maxLen - 1` bytes. -/
theorem cstr_safeConcat (dst src : Bytes) {maxLen : ℕ} (h : maxLen ≠ 0) :
  cstr (safeConcat dst src maxLen) = (cstr dst ++ cstr src).take (maxLen - 1)
  := by
  rw [safeConcat, if_neg h]
  dsimp only
  rw [cstr_append_zero]
  · rw [List.take_append, List.length_take]
    congr 2
    omega
  · intro c hc
    obtain hc | hc := List.mem_append.mp hc
    · apply ne_zero_of_mem_cstr (List.mem_of_mem_take hc)
    · apply ne_zero_of_mem_cstr (List.mem_of_mem_take hc)

/-! ### Decimal conversions -/

/-- The value of a byte between `'0'` and `'9'`. -/
def digit (c : UInt8) : Option ℕ :=
  if 48 ≤ c.toNat ∧ c.toNat ≤ 57 then some (c.toNat - 48) else none

/-- The digit loop of `str_to_int`: accumulates digits, and returns the limit of the
sign as soon as the value passes the largest `int`. -/
def strToIntLoop (sign : ℤ) : ℤ → Bytes → ℤ
  | res, [] => res * sign
  | res, c :: s =>
      match digit c with
      | none => res * sign
      | some d =>
          let res' := res * 10 + d
          if res' > 2147483647 then
            if sign = 1 then 2147483647 else -2147483648
          else strToIntLoop sign res' s

/-- `str_to_int`: skips blanks and tabs, reads a sign, and accumulates the digits. -/
def strToInt (s : Bytes) : ℤ :=
  match s.dropWhile (fun c => c = 32 ∨ c = 9) with
  | 45 :: s => strToIntLoop (-1) 0 s
  | 43 :: s => strToIntLoop 1 0 s
  | s => strToIntLoop 1 0 s

/-- The digit loop of `str_to_ull`, modulo `2 ^ 64`. -/
def strToUllLoop : ℕ → Bytes → ℕ
  | res, [] => res
  | res, c :: s =>
      match digit c with
      | none => res
      | some d => strToUllLoop ((res * 10 + d) % 2 ^ 64) s

/-- `str_to_ull`: skips blanks and accumulates the digits. -/
def strToUll (s : Bytes) : ℕ := strToUllLoop 0 (s.dropWhile (· = 32))

/-- The digits of a natural number, most significant first. -/
def natDigits (n : ℕ) : Bytes :=
  (Nat.toDigits 10 n).map Char.toUInt8

/-- `int_to_str`: the decimal text of an `int`. -/
def intToStr (v : ℤ) : Bytes :=
  if v < 0 then 45 :: natDigits v.natAbs else natDigits v.natAbs

/-! ### Numbers are read as they were written -/

/-- The byte of a digit. -/
def digitByte (d : Fin 10) : UInt8 := UInt8.ofNat (48 + d)

/-- The number that some digits denote, the first one being the most significant. -/
def denoted (ds : List (Fin 10)) : ℕ := Nat.ofDigits 10 (ds.reverse.map Fin.val)

theorem digit_digitByte (d : Fin 10) :
  digit (digitByte d) = some d.val
  := by
  revert d
  decide

theorem denoted_concat (ds : List (Fin 10)) (d : Fin 10) :
  denoted (ds ++ [d]) = denoted ds * 10 + d
  := by
  rw [denoted, List.reverse_append, List.reverse_singleton, List.singleton_append, List.map_cons,
    Nat.ofDigits_cons, denoted, Nat.mul_comm]
  exact Nat.add_comm _ _

theorem strToIntLoop_digitByte (sign res : ℤ) (d : Fin 10) (rest : Bytes) :
  strToIntLoop sign res (digitByte d :: rest)
    = if res * 10 + (d : ℕ) > 2147483647 then
        if sign = 1 then 2147483647 else -2147483648
      else strToIntLoop sign (res * 10 + (d : ℕ)) rest
  := by
  rw [strToIntLoop, digit_digitByte]

/-- Digits that denote an `int`, read from zero, give the number. -/
theorem strToIntLoop_digits (sign : ℤ) {ds : List (Fin 10)} (h : denoted ds ≤ 2147483647)
    (rest : Bytes) :
  strToIntLoop sign 0 (ds.map digitByte ++ rest) = strToIntLoop sign (denoted ds) rest
  := by
  induction ds using List.reverseRecOn generalizing rest with
  | nil => rfl
  | append_singleton ds d ih =>
      rw [denoted_concat] at h ⊢
      rw [List.map_append, List.append_assoc, ih (by omega)]
      rw [List.map_singleton, List.singleton_append, strToIntLoop_digitByte, if_neg (by omega)]
      congr 1

/-- Digits that denote more give the limit of the sign. -/
theorem strToIntLoop_digits_limit (sign : ℤ) {ds : List (Fin 10)} (h : 2147483647 < denoted ds)
    (rest : Bytes) :
  strToIntLoop sign 0 (ds.map digitByte ++ rest) = if sign = 1 then 2147483647 else -2147483648
  := by
  induction ds using List.reverseRecOn generalizing rest with
  | nil => exact absurd h (by decide)
  | append_singleton ds d ih =>
      rw [denoted_concat] at h
      rw [List.map_append, List.append_assoc]
      obtain hlt | hge := Nat.lt_or_ge 2147483647 (denoted ds)
      · exact ih hlt _
      · rw [strToIntLoop_digits sign hge, List.map_singleton, List.singleton_append,
          strToIntLoop_digitByte, if_pos (by omega)]

/-- Digits, read from zero, give the number they denote modulo `2 ^ 64`. -/
theorem strToUllLoop_digits (ds : List (Fin 10)) (rest : Bytes) :
  strToUllLoop 0 (ds.map digitByte ++ rest) = strToUllLoop (denoted ds % 2 ^ 64) rest
  := by
  induction ds using List.reverseRecOn generalizing rest with
  | nil => rfl
  | append_singleton ds d ih =>
      rw [denoted_concat, List.map_append, List.append_assoc, ih, List.map_singleton,
        List.singleton_append, strToUllLoop, digit_digitByte]
      dsimp only
      congr 1
      omega

theorem natDigits_eq_of_lt {n : ℕ} (h : n < 10) :
  natDigits n = [UInt8.ofNat (n + 48)]
  := by
  interval_cases n
  all_goals decide

theorem natDigits_of_le {n : ℕ} (h : 10 ≤ n) :
  natDigits n = natDigits (n / 10) ++ natDigits (n % 10)
  := by
  rw [natDigits, natDigits, natDigits, ← List.map_append, Nat.toDigits_append_toDigits (by omega)
    (by omega) (by omega), Nat.div_add_mod]

/-- The text of a number is made of digits that denote it. -/
theorem exists_digits (n : ℕ) :
  ∃ ds, ds ≠ [] ∧ natDigits n = ds.map digitByte ∧ denoted ds = n
  := by
  induction n using Nat.strong_induction_on with
  | h n ih =>
      obtain hlt | hge := Nat.lt_or_ge n 10
      · use [⟨n, hlt⟩], List.cons_ne_nil _ _
        rw [natDigits_eq_of_lt hlt, Nat.add_comm]
        exact ⟨rfl, denoted_concat [] ⟨n, hlt⟩ |>.trans (by simp [denoted])⟩
      · obtain ⟨ds, hne, htext, hn⟩ := ih (n / 10) (by omega)
        have hlast : n % 10 < 10 := Nat.mod_lt n (by decide)
        refine ⟨ds ++ [⟨n % 10, hlast⟩], by simp, ?_, ?_⟩
        · rw [natDigits_of_le hge, natDigits_eq_of_lt hlast, htext, List.map_append, Nat.add_comm]
          rfl
        · rw [denoted_concat, hn]
          dsimp only
          omega

/-- The digits of a number, read from zero, give the number back. -/
theorem strToIntLoop_natDigits
    (sign : ℤ) {n : ℕ} (h : n ≤ 2147483647) (rest : Bytes) :
  strToIntLoop sign 0 (natDigits n ++ rest) = strToIntLoop sign n rest
  := by
  obtain ⟨ds, -, htext, rfl⟩ := exists_digits n
  rw [htext, strToIntLoop_digits sign h]

/-- The digits of a number past the largest `int` give the limit of the sign. -/
theorem strToIntLoop_natDigits_limit
    (sign : ℤ) {n : ℕ} (h : 2147483647 < n) (rest : Bytes) :
  strToIntLoop sign 0 (natDigits n ++ rest) = if sign = 1 then 2147483647 else -2147483648
  := by
  obtain ⟨ds, -, htext, rfl⟩ := exists_digits n
  rw [htext, strToIntLoop_digits_limit sign h]

/-- The digits of a number, read from zero, give the number back modulo `2 ^ 64`. -/
theorem strToUllLoop_natDigits (n : ℕ) (rest : Bytes) :
  strToUllLoop 0 (natDigits n ++ rest) = strToUllLoop (n % 2 ^ 64) rest
  := by
  obtain ⟨ds, -, htext, hn⟩ := exists_digits n
  rw [htext, strToUllLoop_digits, hn]

theorem digit_head_natDigits (n : ℕ) :
  ∃ c cs, natDigits n = c :: cs ∧ digit c ≠ none
  := by
  obtain ⟨ds, hne, htext, -⟩ := exists_digits n
  cases ds with
  | nil => exact absurd rfl hne
  | cons d ds =>
      use digitByte d, ds.map digitByte, htext
      rw [digit_digitByte]
      exact Option.some_ne_none _

theorem strToInt_digits {c : UInt8} (hc : digit c ≠ none) (cs : Bytes) :
  strToInt (c :: cs) = strToIntLoop 1 0 (c :: cs)
  := by
  have hrange : 48 ≤ c.toNat ∧ c.toNat ≤ 57 := by
    by_contra hnot
    apply hc
    rw [digit, if_neg hnot]
  have hne : ∀ d : UInt8, d.toNat < 48 → c ≠ d := by
    rintro d hd rfl
    omega
  rw [strToInt, List.dropWhile_cons_of_neg]
  · split
    case h_1 heq => exact absurd (List.cons.inj heq).1 (hne 45 (by decide))
    case h_2 heq => exact absurd (List.cons.inj heq).1 (hne 43 (by decide))
    case h_3 => rfl
  · simp [hne 32 (by decide), hne 9 (by decide)]

/-- A text that does not go on with a digit. -/
def NoDigit (rest : Bytes) : Prop := ∀ c ∈ rest.head?, digit c = none

theorem strToIntLoop_noDigit {rest : Bytes} (h : NoDigit rest) (sign res : ℤ) :
  strToIntLoop sign res rest = res * sign
  := by
  cases rest with
  | nil => rfl
  | cons c rest => rw [strToIntLoop, h c rfl]

theorem strToUllLoop_noDigit {rest : Bytes} (h : NoDigit rest) (res : ℕ) :
  strToUllLoop res rest = res
  := by
  cases rest with
  | nil => rfl
  | cons c rest => rw [strToUllLoop, h c rfl]

/-- `str_to_int` reads a natural number, up to the largest `int`. -/
theorem strToInt_natDigits (n : ℕ) {rest : Bytes} (h : NoDigit rest) :
  strToInt (natDigits n ++ rest) = min n 2147483647
  := by
  obtain ⟨c, cs, hdigits, hc⟩ := digit_head_natDigits n
  have hloop : strToInt (natDigits n ++ rest) = strToIntLoop 1 0 (natDigits n ++ rest) := by
    rw [hdigits, List.cons_append, strToInt_digits hc]
  rw [hloop]
  obtain hle | hlt := le_or_gt n 2147483647
  · rw [strToIntLoop_natDigits _ hle, strToIntLoop_noDigit h]
    omega
  · rw [strToIntLoop_natDigits_limit _ hlt, if_pos rfl]
    omega

/-- `str_to_int` reads an `int` that `int_to_str` wrote. -/
theorem strToInt_intToStr_append {v : ℤ} (hlo : -2147483648 ≤ v) (hhi : v ≤ 2147483647)
    {rest : Bytes} (h : NoDigit rest) :
  strToInt (intToStr v ++ rest) = v
  := by
  unfold intToStr
  split
  case isTrue hneg =>
    have hsign : strToInt (45 :: natDigits v.natAbs ++ rest)
        = strToIntLoop (-1) 0 (natDigits v.natAbs ++ rest) := rfl
    rw [hsign]
    obtain hle | hlt := le_or_gt v.natAbs 2147483647
    · rw [strToIntLoop_natDigits _ hle, strToIntLoop_noDigit h]
      omega
    · -- the least `int` runs past the limit with its last digit
      rw [strToIntLoop_natDigits_limit _ hlt, if_neg (by decide)]
      omega
  case isFalse hpos =>
    rw [strToInt_natDigits _ h]
    omega

/-- `str_to_int` reads an `int` from a line that `int_to_str` wrote. -/
theorem strToInt_intToStr {v : ℤ} (hlo : -2147483648 ≤ v) (hhi : v ≤ 2147483647) :
  strToInt (intToStr v ++ [10]) = v
  := by
  apply strToInt_intToStr_append hlo hhi
  rintro c ⟨⟩
  rfl

/-- `str_to_ull` reads a natural number modulo `2 ^ 64`. -/
theorem strToUll_natDigits (n : ℕ) {rest : Bytes} (h : NoDigit rest) :
  strToUll (natDigits n ++ rest) = n % 2 ^ 64
  := by
  obtain ⟨c, cs, hdigits, hc⟩ := digit_head_natDigits n
  have hblank : c ≠ 32 := by
    rintro rfl
    exact hc rfl
  have hloop : strToUll (natDigits n ++ rest) = strToUllLoop 0 (natDigits n ++ rest) := by
    rw [strToUll, hdigits, List.cons_append, List.dropWhile_cons_of_neg (by simpa using hblank)]
  rw [hloop, strToUllLoop_natDigits, strToUllLoop_noDigit h]

/-- Every byte of the text of a number is a digit. -/
theorem digit_of_mem_natDigits {n : ℕ} {c : UInt8} (h : c ∈ natDigits n) :
  digit c ≠ none
  := by
  obtain ⟨ds, -, htext, -⟩ := exists_digits n
  rw [htext] at h
  obtain ⟨d, -, rfl⟩ := List.mem_map.mp h
  rw [digit_digitByte]
  exact Option.some_ne_none _

/-- Every byte of the text of an `int` is a digit or the sign. -/
theorem digit_of_mem_intToStr {v : ℤ} {c : UInt8} (h : c ∈ intToStr v) :
  c = 45 ∨ digit c ≠ none
  := by
  unfold intToStr at h
  split at h
  · obtain h | h := List.mem_cons.mp h
    · exact Or.inl h
    · exact Or.inr (digit_of_mem_natDigits h)
  · exact Or.inr (digit_of_mem_natDigits h)

end LnxCad
