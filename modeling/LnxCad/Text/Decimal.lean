import LnxCad.Text.Buffers

/-!
# Decimal numbers at the limits of `int`

`int_to_str` collects the digits of a number, last one first, in an array that shares its index
with the buffer, and copies them back in order; it writes the text of the number and its end.
`str_to_int` is followed with every value checked against its type: it never overflows, and it
gives the number a text denotes, cut to the range of `int`.
-/

namespace LnxCad

/-! ### Writing -/

namespace Mem

/-- The digit loop of `int_to_str`: the digits of `v` are stored in `temp`, the last one first,
from index `i` on. -/
def digitLoop (v i : ℕ) (temp : Store ℕ UInt8) : Store ℕ UInt8 × ℕ :=
  if v = 0 then (temp, i)
  else digitLoop (v / 10) (i + 1) (temp.write i (UInt8.ofNat (v % 10 + 48)))
termination_by v
decreasing_by omega

/-- `int_to_str`: the buffer and the array `temp` afterwards. -/
def intToStr (val : ℤ) (buf temp : Store ℕ UInt8) : Store ℕ UInt8 × Store ℕ UInt8 :=
  if val = 0 then ((buf.write 0 48).write 1 0, temp)
  else
    let (start, v, buf) := if val < 0 then (1, -val, buf.write 0 45) else (0, val, buf)
    let (temp, i) := digitLoop v.toNat start temp
    let buf :=
      (List.range (i - start)).foldl (fun buf j => buf.write (start + j) (temp.cell (i - 1 - j))) buf
    (buf.write i 0, temp)

end Mem

theorem length_natDigits_le {n k : ℕ} (hk : 0 < k) (h : n < 10 ^ k) :
  (natDigits n).length ≤ k
  := by
  rw [natDigits, List.length_map]
  exact Nat.toDigits_length 10 n k hk h

/-- The text of a number is the one it is usually given. -/
theorem intToStr_eq_toString (v : ℤ) :
  intToStr v = chars (toString v).toList
  := by
  have hnat : ∀ n : ℕ, natDigits n = chars (Nat.repr n).toList := by
    intro n
    rw [Nat.repr_eq_ofList_toDigits, String.toList_ofList]
    rfl
  cases v with
  | ofNat n =>
      have hpos : ¬ (Int.ofNat n < 0) := by simp
      rw [intToStr, if_neg hpos]
      exact hnat n
  | negSucc n =>
      have htext : toString (Int.negSucc n) = "-" ++ Nat.repr (n + 1) := rfl
      rw [intToStr, if_pos (Int.negSucc_lt_zero n), htext, String.toList_append, chars,
        List.map_append, Int.natAbs_negSucc]
      exact congrArg (List.cons 45) (hnat (n + 1))

/-- The text of an `int` has at most eleven bytes. -/
theorem length_intToStr_le {v : ℤ} (hlo : -2 ^ 31 ≤ v) (hhi : v < 2 ^ 31) :
  (intToStr v).length ≤ 11
  := by
  have hlen := length_natDigits_le (n := v.natAbs) (k := 10) (by decide) (by omega)
  unfold intToStr
  split
  · rw [List.length_cons]
    omega
  · omega

namespace Mem

/-- The digit loop stores the digits of a positive number, the last one first. -/
theorem digitLoop_eq {v : ℕ} (h : 0 < v) (i : ℕ) (temp : Store ℕ UInt8) :
  digitLoop v i temp
    = (temp.writeAll i (natDigits v).reverse, i + (natDigits v).length)
  := by
  induction v using Nat.strong_induction_on generalizing i temp with
  | h v ih =>
      rw [digitLoop, if_neg (by omega)]
      obtain hlt | hge := Nat.lt_or_ge v 10
      · have hzero : v / 10 = 0 := by omega
        rw [hzero, digitLoop, if_pos rfl, natDigits_eq_of_lt hlt, Nat.mod_eq_of_lt hlt]
        rfl
      · rw [ih (v / 10) (by omega) (by omega), natDigits_of_le hge,
          natDigits_eq_of_lt (Nat.mod_lt v (by decide)), List.reverse_append, List.length_append,
          List.length_singleton, Nat.add_assoc, Nat.add_comm 1]
        rfl

/-- The digits are copied back in order. -/
theorem foldl_digits (buf temp : Store ℕ UInt8) {v : ℕ} (h : 0 < v) (start : ℕ) :
  (List.range ((digitLoop v start temp).2 - start)).foldl
      (fun buf j => buf.write (start + j)
        ((digitLoop v start temp).1.cell ((digitLoop v start temp).2 - 1 - j))) buf
    = buf.writeAll start (natDigits v)
  := by
  have hread := Store.read_writeAll temp start (natDigits v).reverse
  rw [List.length_reverse] at hread
  rw [Store.foldl_range_write, digitLoop_eq h, Nat.add_sub_cancel_left, ← Store.reverse_read, hread,
    List.reverse_reverse]

/-- The digit loop writes as many bytes of `temp` as the number has digits. -/
theorem digitLoop_writes {v : ℕ} (h : 0 < v) {i start : ℕ} {temp : Store ℕ UInt8}
    (hi : i ∈ (digitLoop v start temp).1.writes) :
  i ∈ temp.writes ∨ i < start + (natDigits v).length
  := by
  rw [digitLoop_eq h, Store.writeAll_writes, List.mem_append, List.mem_range'_1,
    List.length_reverse] at hi
  obtain hi | ⟨-, hi⟩ := hi
  · exact Or.inl hi
  · exact Or.inr hi

/-- `int_to_str` writes the text of the number and its end, and no more of `temp`. -/
theorem intToStr_eq (val : ℤ) (buf temp : Store ℕ UInt8) :
  (intToStr val buf temp).1 = buf.writeAll 0 (LnxCad.intToStr val ++ [0])
    ∧ ∀ i ∈ (intToStr val buf temp).2.writes,
      i ∈ temp.writes ∨ i < (LnxCad.intToStr val).length
  := by
  by_cases hzero : val = 0
  · subst hzero
    exact ⟨rfl, fun i hi => Or.inl hi⟩
  · rw [intToStr, if_neg hzero]
    by_cases hneg : val < 0
    · have hv : (-val).toNat = val.natAbs := by omega
      have hpos : 0 < val.natAbs := by omega
      simp only [LnxCad.intToStr, if_pos hneg, hv]
      constructor
      · rw [foldl_digits _ _ hpos, digitLoop_eq hpos, List.cons_append, Store.writeAll,
          Store.writeAll_append]
        rfl
      · intro i hi
        rw [List.length_cons, Nat.add_comm]
        exact digitLoop_writes hpos hi
    · have hv : val.toNat = val.natAbs := by omega
      have hpos : 0 < val.natAbs := by omega
      simp only [LnxCad.intToStr, if_neg hneg, hv]
      constructor
      · rw [foldl_digits _ _ hpos, digitLoop_eq hpos, Store.writeAll_append]
        rfl
      · intro i hi
        have hwrites := digitLoop_writes hpos hi
        rwa [Nat.zero_add] at hwrites

end Mem

/-! ### Reading -/

namespace Checked

/-- The value of an expression of type `long long`, unless it overflows. -/
def longLong (v : ℤ) : Option ℤ := if -2 ^ 63 ≤ v ∧ v < 2 ^ 63 then some v else none

/-- The value converted to `int`, unless it is out of range. -/
def toInt (v : ℤ) : Option ℤ := if -2 ^ 31 ≤ v ∧ v < 2 ^ 31 then some v else none

/-- The value `str_to_int` returns behind its digits. -/
def signed (sign res : ℤ) : Option ℤ := (longLong (res * sign)).bind toInt

/-- The digit loop of `str_to_int`, with every operation checked. -/
def strToIntLoop (sign : ℤ) : ℤ → Bytes → Option ℤ
  | res, [] => signed sign res
  | res, c :: s =>
      match digit c with
      | none => signed sign res
      | some d => do
          let shifted ← longLong (res * 10)
          let res' ← longLong (shifted + d)
          if res' > 2147483647 then
            some (if sign = 1 then 2147483647 else -2147483648)
          else strToIntLoop sign res' s

/-- `str_to_int`, with every operation checked. -/
def strToInt (s : Bytes) : Option ℤ :=
  match s.dropWhile (fun c => c = 32 ∨ c = 9) with
  | 45 :: s => strToIntLoop (-1) 0 s
  | 43 :: s => strToIntLoop 1 0 s
  | s => strToIntLoop 1 0 s

theorem longLong_eq {v : ℤ} (hlo : -2 ^ 63 ≤ v) (hhi : v < 2 ^ 63) :
  longLong v = some v
  := if_pos ⟨hlo, hhi⟩

theorem signed_eq {sign res : ℤ} (hsign : sign = 1 ∨ sign = -1) (hlo : 0 ≤ res)
    (hhi : res ≤ 2147483647) :
  signed sign res = some (res * sign)
  := by
  have hrange : -2147483647 ≤ res * sign ∧ res * sign ≤ 2147483647 := by
    obtain rfl | rfl := hsign
    · omega
    · omega
  rw [signed, longLong_eq (by omega) (by omega), Option.bind_some, toInt, if_pos (by omega)]

theorem digit_le {c : UInt8} {d : ℕ} (h : digit c = some d) :
  d ≤ 9
  := by
  unfold digit at h
  split at h
  · cases h
    omega
  · cases h

/-- The accumulator never passes ten times the largest `int`, and what is returned is an `int`. -/
theorem strToIntLoop_eq {sign : ℤ} (hsign : sign = 1 ∨ sign = -1) (s : Bytes) {res : ℤ}
    (hlo : 0 ≤ res) (hhi : res ≤ 2147483647) :
  strToIntLoop sign res s = some (LnxCad.strToIntLoop sign res s)
  := by
  induction s generalizing res with
  | nil => exact signed_eq hsign hlo hhi
  | cons c s ih =>
      rw [strToIntLoop, LnxCad.strToIntLoop]
      cases hc : digit c with
      | none => exact signed_eq hsign hlo hhi
      | some d =>
          have hd := digit_le hc
          simp only [longLong_eq (v := res * 10) (by omega) (by omega),
            longLong_eq (v := res * 10 + d) (by omega) (by omega), Option.bind_eq_bind,
            Option.bind_some]
          split
          case isTrue hlimit => rfl
          case isFalse hlimit =>
            apply ih
            · omega
            · omega

/-- A text without a sign is read from its first byte on, with and without the checks. -/
theorem strToInt_unsigned {s t : Bytes} (ht : s.dropWhile (fun c => c = 32 ∨ c = 9) = t)
    (hminus : ∀ u, t ≠ 45 :: u) (hplus : ∀ u, t ≠ 43 :: u) :
  strToInt s = strToIntLoop 1 0 t ∧ LnxCad.strToInt s = LnxCad.strToIntLoop 1 0 t
  := by
  constructor
  · rw [strToInt, ht]
    split
    case h_1 u => exact absurd rfl (hminus u)
    case h_2 u => exact absurd rfl (hplus u)
    case h_3 => rfl
  · rw [LnxCad.strToInt, ht]
    split
    case h_1 u => exact absurd rfl (hminus u)
    case h_2 u => exact absurd rfl (hplus u)
    case h_3 => rfl

/-- `str_to_int` never overflows. -/
theorem strToInt_eq (s : Bytes) :
  strToInt s = some (LnxCad.strToInt s)
  := by
  by_cases hminus : ∃ u, s.dropWhile (fun c => c = 32 ∨ c = 9) = 45 :: u
  · obtain ⟨u, hu⟩ := hminus
    rw [strToInt, LnxCad.strToInt, hu]
    exact strToIntLoop_eq (Or.inr rfl) u (le_refl 0) (by decide)
  · by_cases hplus : ∃ u, s.dropWhile (fun c => c = 32 ∨ c = 9) = 43 :: u
    · obtain ⟨u, hu⟩ := hplus
      rw [strToInt, LnxCad.strToInt, hu]
      exact strToIntLoop_eq (Or.inl rfl) u (le_refl 0) (by decide)
    · obtain ⟨hchecked, hplain⟩ := strToInt_unsigned rfl (not_exists.mp hminus) (not_exists.mp hplus)
      rw [hchecked, hplain]
      exact strToIntLoop_eq (Or.inl rfl) _ (le_refl 0) (by decide)

end Checked

/-! ### The number a text denotes -/

/-- The sign of a number, as it is written. -/
inductive Sign where
  | absent
  | plus
  | minus
deriving DecidableEq

/-- The text of a sign. -/
def Sign.text : Sign → Bytes
  | .absent => []
  | .plus => [43]
  | .minus => [45]

/-- The number with a sign. -/
def Sign.apply : Sign → ℕ → ℤ
  | .minus, n => -n
  | _, n => n

/-- A number, cut to the range of `int`. -/
def clampInt (v : ℤ) : ℤ := max (-2147483648) (min v 2147483647)

theorem strToInt_blanks {blanks : Bytes} (h : ∀ c ∈ blanks, c = 32 ∨ c = 9) (s : Bytes) :
  strToInt (blanks ++ s) = strToInt s
  := by
  rw [strToInt, strToInt, List.dropWhile_append_of_pos]
  intro c hc
  simpa using h c hc

/-- A text that goes on with neither a blank, a sign nor a digit. -/
def NoNumber (rest : Bytes) : Prop := ∀ c ∈ rest.head?, c ≠ 32 ∧ c ≠ 9 ∧ c ≠ 43 ∧ c ≠ 45

theorem strToInt_noNumber {rest : Bytes} (h : NoNumber rest) :
  strToInt rest = strToIntLoop 1 0 rest
  := by
  cases rest with
  | nil => rfl
  | cons c rest =>
      obtain ⟨hblank, htab, hplus, hminus⟩ := h c rfl
      apply (Checked.strToInt_unsigned _ _ _).2
      · rw [List.dropWhile_cons_of_neg (by simp [hblank, htab])]
      · intro u heq
        exact hminus (List.cons.inj heq).1
      · intro u heq
        exact hplus (List.cons.inj heq).1

/-- `str_to_int` gives the number that a text denotes, cut to the range of `int`. -/
theorem strToInt_text
    {blanks rest : Bytes} {sign : Sign} {ds : List (Fin 10)}
    (hblanks : ∀ c ∈ blanks, c = 32 ∨ c = 9) (hrest : NoDigit rest)
    (hread : sign = .absent → ds = [] → NoNumber rest) :
  strToInt (blanks ++ sign.text ++ ds.map digitByte ++ rest) = clampInt (sign.apply (denoted ds))
  := by
  have hpos : strToIntLoop 1 0 (ds.map digitByte ++ rest) = clampInt (denoted ds) := by
    obtain hle | hlt := le_or_gt (denoted ds) 2147483647
    · rw [strToIntLoop_digits 1 hle, strToIntLoop_noDigit hrest, clampInt]
      omega
    · rw [strToIntLoop_digits_limit 1 hlt, if_pos rfl, clampInt]
      omega
  rw [List.append_assoc, List.append_assoc, strToInt_blanks hblanks]
  cases sign with
  | absent =>
      cases ds with
      | nil => exact (strToInt_noNumber (hread rfl rfl)).trans hpos
      | cons d ds =>
          have hd : digit (digitByte d) ≠ none := by simp [digit_digitByte]
          exact (strToInt_digits hd _).trans hpos
  | plus => exact hpos
  | minus =>
      have hneg : strToIntLoop (-1) 0 (ds.map digitByte ++ rest) = clampInt (-denoted ds) := by
        obtain hle | hlt := le_or_gt (denoted ds) 2147483647
        · rw [strToIntLoop_digits (-1) hle, strToIntLoop_noDigit hrest, clampInt]
          omega
        · rw [strToIntLoop_digits_limit (-1) hlt, if_neg (by decide), clampInt]
          omega
      exact hneg

/-- `int_to_str` writes the text of an `int` and its end into twelve bytes, from which `str_to_int`
reads the number again; and `str_to_int` reads any text of a number, cut to the range of `int`,
without an overflow. -/
theorem intToStr_strToInt :
  (∀ (v : Int32) (buf temp : ℕ → UInt8),
    let out := Mem.intToStr v.toInt ⟨buf, []⟩ ⟨temp, []⟩
    let text := chars (toString v.toInt).toList
    out.1.read 0 (text.length + 1) = text ++ [0]
      ∧ text.length + 1 ≤ 12
      ∧ (∀ i ∈ out.1.writes, i ≤ text.length)
      ∧ (∀ i ∈ out.2.writes, i < 32)
      ∧ Checked.strToInt (out.1.read 0 12) = some v.toInt)
  ∧ ∀ (blanks : Bytes) (sign : Sign) (ds : List (Fin 10)) (rest : Bytes),
    (∀ c ∈ blanks, c = 32 ∨ c = 9) → NoDigit rest →
      (sign = .absent → ds = [] → NoNumber rest) →
      Checked.strToInt (blanks ++ sign.text ++ ds.map digitByte ++ rest)
        = some (clampInt (sign.apply (denoted ds)))
  := by
  constructor
  · intro v buf temp out text
    have hlo : -2 ^ 31 ≤ v.toInt := v.le_toInt
    have hhi : v.toInt < 2 ^ 31 := v.toInt_lt
    have htext : text = intToStr v.toInt := (intToStr_eq_toString v.toInt).symm
    have hlen := length_intToStr_le hlo hhi
    obtain ⟨hbuf, htemp⟩ := Mem.intToStr_eq v.toInt ⟨buf, []⟩ ⟨temp, []⟩
    rw [htext]
    have hread : out.1.read 0 ((intToStr v.toInt).length + 1) = intToStr v.toInt ++ [0] := by
      have hlength : (intToStr v.toInt ++ [0]).length = (intToStr v.toInt).length + 1 := by simp
      rw [← hlength, hbuf, Store.read_writeAll]
    refine ⟨hread, by omega, ?_, ?_, ?_⟩
    · intro i hi
      rw [hbuf, Store.writeAll_writes, List.nil_append, List.mem_range'_1, List.length_append,
        List.length_singleton] at hi
      omega
    · intro i hi
      have := htemp i hi
      simp only [List.not_mem_nil, false_or] at this
      omega
    · have hsplit : (12 : ℕ) = (intToStr v.toInt).length + 1 + (11 - (intToStr v.toInt).length) := by
        omega
      rw [Checked.strToInt_eq, hsplit, Store.read_add, hread, List.append_assoc,
        strToInt_intToStr_append]
      · omega
      · omega
      · rintro c ⟨⟩
        rfl
  · intro blanks sign ds rest hblanks hrest hread
    rw [Checked.strToInt_eq, strToInt_text hblanks hrest hread]

/-- The least `int` is read, and so is what is less. -/
theorem intToStr_strToInt_least :
  Checked.strToInt (chars [' ', '-', '0', '2', '1', '4', '7', '4', '8', '3', '6', '4', '9', '\n'])
    = some (-2147483648)
  := intToStr_strToInt.2 [32] .minus [0, 2, 1, 4, 7, 4, 8, 3, 6, 4, 9] [10] (by simp)
    (by simp [NoDigit, digit]) (by simp)

end LnxCad
