import LnxCad.Lib.CString

/-!
# Characters as bytes

The texts of the graphical program are in UTF-8.  `nk_utf_encode` and `nk_utf_decode` are inverse to each
other except at the ends of the ranges, where a comparison is strict: the last character of every length
is decoded as an invalid one, and the last surrogate is not.
-/

namespace LnxCad

/-! ### Encoding and decoding -/

/-- `NK_UTF_INVALID`. -/
def nkUtfInvalid : ℕ := 0xFFFD

def nkUtfbyte (i : ℕ) : UInt8 := [0x80, 0, 0xC0, 0xE0, 0xF0].getD i 0

def nkUtfmask (i : ℕ) : UInt8 := [0xC0, 0x80, 0xE0, 0xF0, 0xF8].getD i 0

def nkUtfmin (i : ℕ) : ℕ := [0, 0, 0x80, 0x800, 0x10000].getD i 0

def nkUtfmax (i : ℕ) : ℕ := [0x10FFFF, 0x7F, 0x7FF, 0xFFFF, 0x10FFFF].getD i 0

/-- `NK_BETWEEN`. -/
def nkBetween (x a b : ℕ) : Bool := a ≤ x ∧ x < b

/-- The loop of `nk_utf_validate`, which ends at the longest characters. -/
def nkUtfClass (u : ℕ) : ℕ :=
  if u ≤ nkUtfmax 1 then 1 else if u ≤ nkUtfmax 2 then 2 else if u ≤ nkUtfmax 3 then 3 else 4

/-- `nk_utf_validate`: the character, and its length. -/
def nkUtfValidate (u i : ℕ) : ℕ × ℕ :=
  let u := if !nkBetween u (nkUtfmin i) (nkUtfmax i) || nkBetween u 0xD800 0xDFFF then nkUtfInvalid
    else u
  (u, nkUtfClass u)

/-- `nk_utf_decode_byte`: the bits of a byte, and its type. -/
def nkUtfDecodeByte (c : UInt8) : ℕ × ℕ :=
  match (List.range 5).find? (fun i => c &&& nkUtfmask i = nkUtfbyte i) with
  | some i => ((c &&& ~~~ nkUtfmask i).toNat, i)
  | none => (0, 5)

/-- The loop of `nk_utf_decode` over the bytes that continue a character of length `len`, and what
follows it. -/
def nkUtfContinue (len : ℕ) : ℕ → ℕ → Bytes → ℕ × ℕ
  | j, udecoded, [] =>
      if j < len then (0, nkUtfInvalid) else (len, (nkUtfValidate udecoded len).1)
  | j, udecoded, c :: text =>
      if j < len then
        let (bits, type) := nkUtfDecodeByte c
        if type ≠ 0 then (j, nkUtfInvalid) else nkUtfContinue len (j + 1) (udecoded <<< 6 ||| bits) text
      else (len, (nkUtfValidate udecoded len).1)

/-- `nk_utf_decode`: the number of bytes, and `*u`, which was `u` before. -/
def nkUtfDecode (text : Bytes) (u : ℕ) : ℕ × ℕ :=
  match text with
  | [] => (0, u)
  | c :: text =>
      let (udecoded, len) := nkUtfDecodeByte c
      if !nkBetween len 1 5 then (1, nkUtfInvalid) else nkUtfContinue len 1 udecoded text

/-- `nk_utf_encode_byte`. -/
def nkUtfEncodeByte (u i : ℕ) : UInt8 := nkUtfbyte i ||| (UInt8.ofNat u &&& ~~~ nkUtfmask i)

/-- The loop of `nk_utf_encode`, from the last byte to the second one, and the first byte. -/
def nkUtfEncodeLoop (len : ℕ) : ℕ → ℕ → Bytes → Bytes
  | 0, u, c => nkUtfEncodeByte u len :: c
  | i + 1, u, c => nkUtfEncodeLoop len i (u >>> 6) (nkUtfEncodeByte u 0 :: c)

/-- `nk_utf_encode`: the bytes written. -/
def nkUtfEncode (u clen : ℕ) : Bytes :=
  let (u, len) := nkUtfValidate u 0
  if clen < len ∨ len = 0 ∨ 4 < len then [] else nkUtfEncodeLoop len (len - 1) u []

/-! ### Bytes -/

/-- A byte that continues a character. -/
def IsTail (c : UInt8) : Prop := 128 ≤ c.toNat ∧ c.toNat < 192

instance : DecidablePred IsTail := fun c => inferInstanceAs (Decidable (128 ≤ c.toNat ∧ c.toNat < 192))

/-- The kinds of bytes. -/
theorem nkUtfDecodeByte_eq (c : UInt8) :
  nkUtfDecodeByte c = if c.toNat < 128 then (c.toNat, 1)
    else if c.toNat < 192 then (c.toNat - 128, 0)
    else if c.toNat < 224 then (c.toNat - 192, 2)
    else if c.toNat < 240 then (c.toNat - 224, 3)
    else if c.toNat < 248 then (c.toNat - 240, 4)
    else (0, 5)
  := by
  have hall : ∀ n < 256, nkUtfDecodeByte (UInt8.ofNat n) = if n < 128 then (n, 1)
      else if n < 192 then (n - 128, 0)
      else if n < 224 then (n - 192, 2)
      else if n < 240 then (n - 224, 3)
      else if n < 248 then (n - 240, 4)
      else (0, 5) := by
    decide +kernel
  have hc := hall c.toNat c.toNat_lt
  rwa [UInt8.ofNat_toNat] at hc

theorem nkUtfDecodeByte_tail {c : UInt8} (hc : IsTail c) :
  nkUtfDecodeByte c = (c.toNat - 128, 0)
  := by
  rw [nkUtfDecodeByte_eq, if_neg (by have := hc.1; omega), if_pos hc.2]

theorem isTail_of_type {c : UInt8} (hc : (nkUtfDecodeByte c).2 = 0) :
  IsTail c
  := by
  rw [nkUtfDecodeByte_eq] at hc
  unfold IsTail
  split_ifs at hc
  all_goals omega

theorem nkUtfEncodeByte_tail (u : ℕ) :
  nkUtfEncodeByte u 0 = UInt8.ofNat (128 + u % 64)
  := by
  have hall : ∀ n < 256, nkUtfEncodeByte n 0 = UInt8.ofNat (128 + n % 64) := by decide +kernel
  have hmod : UInt8.ofNat u = UInt8.ofNat (u % 256) := by
    rw [← UInt8.toNat_inj, UInt8.toNat_ofNat', UInt8.toNat_ofNat', Nat.mod_mod]
  have hu := hall (u % 256) (Nat.mod_lt _ (by decide))
  rw [Nat.mod_mod_of_dvd u (by decide : 64 ∣ 256)] at hu
  rw [← hu, nkUtfEncodeByte, hmod]
  rfl

/-- The values that fit into the first byte of a character of some length. -/
def leadBound (len : ℕ) : ℕ := [0, 128, 32, 16, 8].getD len 0

/-- The first byte of a character shows its length and its bits. -/
theorem nkUtfDecodeByte_lead {len v : ℕ} (hv : v < leadBound len) :
  nkUtfDecodeByte (nkUtfEncodeByte v len) = (v, len)
  := by
  have hall : ∀ len < 5, ∀ v < leadBound len, nkUtfDecodeByte (nkUtfEncodeByte v len) = (v, len) := by
    decide +kernel
  by_cases hlen : len < 5
  · exact hall len hlen v hv
  · rw [leadBound, List.getD_eq_getElem?_getD, List.getElem?_eq_none (by simpa using hlen)] at hv
    cases hv

theorem nkUtfEncodeByte_lead {c : UInt8} {v len : ℕ} (hc : nkUtfDecodeByte c = (v, len))
    (hlen : 1 ≤ len ∧ len < 5) :
  nkUtfEncodeByte v len = c ∧ v < leadBound len
  := by
  have hall : ∀ n < 256, let r := nkUtfDecodeByte (UInt8.ofNat n)
      1 ≤ r.2 ∧ r.2 < 5 → nkUtfEncodeByte r.1 r.2 = UInt8.ofNat n ∧ r.1 < leadBound r.2 := by
    decide +kernel
  have h := hall c.toNat c.toNat_lt
  rw [UInt8.ofNat_toNat, hc] at h
  exact h hlen

/-! ### The value of the bytes behind the first one -/

/-- The bits of some bytes behind those of a value. -/
def tailValue (v : ℕ) (tail : Bytes) : ℕ := tail.foldl (fun v c => v * 64 + (c.toNat - 128)) v

theorem tailValue_cons (v : ℕ) (c : UInt8) (tail : Bytes) :
  tailValue v (c :: tail) = tailValue (v * 64 + (c.toNat - 128)) tail
  := by
  unfold tailValue
  rw [List.foldl_cons]

theorem tailValue_concat (v : ℕ) (tail : Bytes) (c : UInt8) :
  tailValue v (tail ++ [c]) = tailValue v tail * 64 + (c.toNat - 128)
  := by
  rw [tailValue, List.foldl_append]
  rfl

/-- Every number is the value of as many bytes as one likes. -/
theorem exists_tailValue (n u : ℕ) :
  ∃ tail : Bytes, tail.length = n ∧ (∀ c ∈ tail, IsTail c) ∧ tailValue (u / 64 ^ n) tail = u
  := by
  induction n generalizing u with
  | zero => exact ⟨[], rfl, by simp, by simp [tailValue]⟩
  | succ n ih =>
      obtain ⟨tail, hlength, htail, hvalue⟩ := ih (u / 64)
      have hc : (UInt8.ofNat (128 + u % 64)).toNat = 128 + u % 64 := by
        rw [UInt8.toNat_ofNat', Nat.mod_eq_of_lt (by omega)]
      refine ⟨tail ++ [UInt8.ofNat (128 + u % 64)], by simp [hlength], ?_, ?_⟩
      · intro c hmem
        rw [List.mem_append, List.mem_singleton] at hmem
        obtain hmem | rfl := hmem
        · exact htail c hmem
        · unfold IsTail
          omega
      · rw [tailValue_concat, hc, pow_succ', ← Nat.div_div_eq_div_mul, hvalue]
        omega

/-- The loop writes the bytes whose value it is given. -/
theorem nkUtfEncodeLoop_tailValue (len v : ℕ) {tail : Bytes} (htail : ∀ c ∈ tail, IsTail c)
    (acc : Bytes) :
  nkUtfEncodeLoop len tail.length (tailValue v tail) acc = nkUtfEncodeByte v len :: (tail ++ acc)
  := by
  induction tail using List.reverseRecOn generalizing acc with
  | nil => rfl
  | append_singleton tail c ih =>
      have hc := htail c (by simp)
      unfold IsTail at hc
      have hbyte : nkUtfEncodeByte (tailValue v (tail ++ [c])) 0 = c := by
        rw [nkUtfEncodeByte_tail, tailValue_concat,
          show 128 + (tailValue v tail * 64 + (c.toNat - 128)) % 64 = c.toNat by omega,
          UInt8.ofNat_toNat]
      have hshift : tailValue v (tail ++ [c]) >>> 6 = tailValue v tail := by
        rw [tailValue_concat, Nat.shiftRight_eq_div_pow]
        omega
      rw [List.length_append, List.length_singleton, nkUtfEncodeLoop, hbyte, hshift,
        ih fun c' hc' => htail c' (by simp [hc']), List.append_assoc]
      rfl

/-- The bits of a byte that continues a character are put behind those of the others. -/
theorem or_tail {c : UInt8} (hc : IsTail c) (v : ℕ) :
  v <<< 6 ||| (c.toNat - 128) = v * 64 + (c.toNat - 128)
  := by
  unfold IsTail at hc
  rw [← Nat.shiftLeft_add_eq_or_of_lt (by omega), Nat.shiftLeft_eq]

/-- The loop reads the bytes that continue a character. -/
theorem nkUtfContinue_tail {len : ℕ} (tail : Bytes) (htail : ∀ c ∈ tail, IsTail c) {j v : ℕ}
    (hj : j + tail.length = len) (rest : Bytes) :
  nkUtfContinue len j v (tail ++ rest) = (len, (nkUtfValidate (tailValue v tail) len).1)
  := by
  induction tail generalizing j v with
  | nil =>
      obtain rfl : j = len := hj
      cases rest <;> simp [nkUtfContinue, tailValue]
  | cons c tail ih =>
      have hc := htail c (by simp)
      rw [List.length_cons] at hj
      rw [List.cons_append, nkUtfContinue, if_pos (by omega), nkUtfDecodeByte_tail hc]
      dsimp only
      rw [if_neg (by simp), or_tail hc, ih (fun c' hc' => htail c' (by simp [hc'])) (by omega),
        tailValue_cons]

/-- What the loop accepts are bytes that continue a character. -/
theorem nkUtfContinue_eq {len : ℕ} {text : Bytes} {j v n u : ℕ} (hj : j ≤ len)
    (h : nkUtfContinue len j v text = (n, u)) (hu : u ≠ nkUtfInvalid) :
  ∃ tail rest, text = tail ++ rest ∧ (∀ c ∈ tail, IsTail c) ∧ j + tail.length = len ∧ n = len
    ∧ u = (nkUtfValidate (tailValue v tail) len).1
  := by
  induction text generalizing j v with
  | nil =>
      rw [nkUtfContinue] at h
      split at h
      · cases h
        exact absurd rfl hu
      · cases h
        exact ⟨[], [], rfl, by simp, by simp; omega, rfl, rfl⟩
  | cons c text ih =>
      rw [nkUtfContinue] at h
      split at h
      case isFalse =>
        cases h
        exact ⟨[], c :: text, rfl, by simp, by simp; omega, rfl, rfl⟩
      case isTrue hlt =>
        dsimp only at h
        by_cases htype : (nkUtfDecodeByte c).2 = 0
        · have hc := isTail_of_type htype
          rw [if_neg (by simpa using htype), nkUtfDecodeByte_tail hc, or_tail hc] at h
          obtain ⟨tail, rest, rfl, htail, hlength, hn, hvalue⟩ := ih hlt h
          rw [← tailValue_cons] at hvalue
          refine ⟨c :: tail, rest, rfl, ?_, ?_, hn, hvalue⟩
          · intro c' hc'
            obtain rfl | hc' := List.mem_cons.mp hc'
            · exact hc
            · exact htail c' hc'
          · rw [List.length_cons]
            omega
        · rw [if_pos htype] at h
          cases h
          exact absurd rfl hu

/-! ### Characters -/

/-- A character that has an encoding of its own: not beyond the last one, which is left out, and not a
surrogate, of which the last one is let in. -/
def IsRune (u : ℕ) : Prop := u < 0x10FFFF ∧ ¬ (0xD800 ≤ u ∧ u < 0xDFFF)

/-- A character that is decoded as it was encoded: not the last one of its length. -/
def RoundTrips (u : ℕ) : Prop := IsRune u ∧ u ≠ 0x7F ∧ u ≠ 0x7FF ∧ u ≠ 0xFFFF

instance : DecidablePred IsRune := fun u =>
  inferInstanceAs (Decidable (u < 0x10FFFF ∧ ¬ (0xD800 ≤ u ∧ u < 0xDFFF)))

instance : DecidablePred RoundTrips := fun u =>
  inferInstanceAs (Decidable (IsRune u ∧ u ≠ 0x7F ∧ u ≠ 0x7FF ∧ u ≠ 0xFFFF))

theorem nkUtfValidate_zero (u : ℕ) :
  (nkUtfValidate u 0).1 = if IsRune u then u else nkUtfInvalid
  := by
  unfold nkUtfValidate nkBetween IsRune nkUtfmin nkUtfmax
  by_cases h : u < 0x10FFFF
  · by_cases h' : 0xD800 ≤ u ∧ u < 0xDFFF
    · simp [h, h']
    · simp [h, h']
  · simp [h]

/-- The lengths of characters. -/
theorem nkUtfClass_bounds (u : ℕ) (hu : u < 0x10FFFF) :
  1 ≤ nkUtfClass u ∧ nkUtfClass u < 5 ∧ nkUtfmin (nkUtfClass u) ≤ u ∧ u ≤ nkUtfmax (nkUtfClass u)
    ∧ u / 64 ^ (nkUtfClass u - 1) < leadBound (nkUtfClass u)
  := by
  unfold nkUtfClass nkUtfmin nkUtfmax leadBound
  simp only [List.getD_cons_succ, List.getD_cons_zero]
  split_ifs
  all_goals simp
  all_goals omega

/-- In the bounds of a length there are the characters of that length, without the last one. -/
theorem between_iff {u len : ℕ} (hlen : 1 ≤ len ∧ len < 5) :
  nkBetween u (nkUtfmin len) (nkUtfmax len) = true ∧ nkBetween u 0xD800 0xDFFF = false
    ↔ RoundTrips u ∧ nkUtfClass u = len
  := by
  obtain ⟨hlo, hhi⟩ := hlen
  unfold RoundTrips IsRune nkUtfClass nkBetween nkUtfmin nkUtfmax
  interval_cases len
  all_goals simp
  all_goals split_ifs
  all_goals omega

theorem nkUtfEncode_fits {u clen : ℕ} (hu : IsRune u) (hclen : nkUtfClass u ≤ clen) :
  nkUtfEncode u clen = nkUtfEncodeLoop (nkUtfClass u) (nkUtfClass u - 1) u []
  := by
  obtain ⟨hlo, hhi, -⟩ := nkUtfClass_bounds u hu.1
  have hvalid := nkUtfValidate_zero u
  rw [if_pos hu] at hvalid
  have hclass : nkUtfValidate u 0 = (u, nkUtfClass u) := by
    refine Prod.ext hvalid ?_
    change nkUtfClass (nkUtfValidate u 0).1 = _
    rw [hvalid]
  rw [nkUtfEncode, hclass]
  dsimp only
  rw [if_neg (by omega)]

theorem nkUtfEncode_loop {u : ℕ} (hu : IsRune u) :
  nkUtfEncode u 4 = nkUtfEncodeLoop (nkUtfClass u) (nkUtfClass u - 1) u []
  := nkUtfEncode_fits hu (Nat.le_of_lt_succ (nkUtfClass_bounds u hu.1).2.1)

/-- The bytes of a character. -/
theorem nkUtfEncode_eq {u : ℕ} (hu : IsRune u) :
  ∃ tail, nkUtfEncode u 4 = nkUtfEncodeByte (u / 64 ^ (nkUtfClass u - 1)) (nkUtfClass u) :: tail
    ∧ tail.length = nkUtfClass u - 1 ∧ (∀ c ∈ tail, IsTail c)
    ∧ tailValue (u / 64 ^ (nkUtfClass u - 1)) tail = u
  := by
  obtain ⟨tail, hlength, htail, hvalue⟩ := exists_tailValue (nkUtfClass u - 1) u
  have hloop := nkUtfEncodeLoop_tailValue (nkUtfClass u) (u / 64 ^ (nkUtfClass u - 1)) htail []
  rw [hlength, hvalue, List.append_nil] at hloop
  exact ⟨tail, (nkUtfEncode_loop hu).trans hloop, hlength, htail, hvalue⟩

theorem length_nkUtfEncode {u : ℕ} (hu : IsRune u) :
  (nkUtfEncode u 4).length = nkUtfClass u
  := by
  obtain ⟨tail, hbytes, hlength, -⟩ := nkUtfEncode_eq hu
  obtain ⟨hlo, -⟩ := nkUtfClass_bounds u hu.1
  rw [hbytes, List.length_cons, hlength]
  omega

/-- A character behind which there is anything is decoded with its length, and as itself unless it is the
last one of its length. -/
theorem nkUtfDecode_encode {u : ℕ} (hu : IsRune u) (rest : Bytes) (v : ℕ) :
  nkUtfDecode (nkUtfEncode u 4 ++ rest) v
    = (nkUtfClass u, if RoundTrips u then u else nkUtfInvalid)
  := by
  obtain ⟨tail, hbytes, hlength, htail, hvalue⟩ := nkUtfEncode_eq hu
  obtain ⟨hlo, hhi, -, -, hlead⟩ := nkUtfClass_bounds u hu.1
  have hvalid : (nkUtfValidate u (nkUtfClass u)).1 = if RoundTrips u then u else nkUtfInvalid := by
    have hiff := between_iff (u := u) ⟨hlo, hhi⟩
    unfold nkUtfValidate
    by_cases h : RoundTrips u
    · obtain ⟨hin, hout⟩ := hiff.mpr ⟨h, rfl⟩
      simp [hin, hout, h]
    · have hnot : ¬ (nkBetween u (nkUtfmin (nkUtfClass u)) (nkUtfmax (nkUtfClass u)) = true
          ∧ nkBetween u 0xD800 0xDFFF = false) := fun hboth => h (hiff.mp hboth).1
      rw [if_neg h]
      dsimp only
      rw [if_pos]
      cases hin : nkBetween u (nkUtfmin (nkUtfClass u)) (nkUtfmax (nkUtfClass u)) with
      | false => rfl
      | true =>
          cases hout : nkBetween u 0xD800 0xDFFF with
          | false => exact absurd ⟨hin, hout⟩ hnot
          | true => rfl
  rw [hbytes, List.cons_append, nkUtfDecode, nkUtfDecodeByte_lead hlead]
  dsimp only
  rw [if_neg (by simp [nkBetween, hlo, hhi]), nkUtfContinue_tail tail htail (by omega), hvalue, hvalid]

/-- A character other than the invalid one is decoded exactly if its bytes are there, and it is not the
last one of its length. -/
theorem nkUtfDecode_iff {text : Bytes} {v n u : ℕ} (hn : n ≠ 0) (hu : u ≠ nkUtfInvalid) :
  nkUtfDecode text v = (n, u)
    ↔ RoundTrips u ∧ nkUtfEncode u 4 <+: text ∧ n = (nkUtfEncode u 4).length
  := by
  constructor
  · intro h
    cases text with
    | nil =>
        cases h
        exact absurd rfl hn
    | cons c text =>
        rw [nkUtfDecode] at h
        cases hc : nkUtfDecodeByte c with
        | mk lead len =>
            rw [hc] at h
            dsimp only at h
            split at h
            case isTrue =>
              cases h
              exact absurd rfl hu
            case isFalse hbetween =>
              have hlen : 1 ≤ len ∧ len < 5 := by
                simp only [nkBetween, Bool.not_eq_true', decide_eq_false_iff_not, not_not] at hbetween
                exact hbetween
              obtain ⟨tail, rest, rfl, htail, hlength, rfl, hvalue⟩ := nkUtfContinue_eq hlen.1 h hu
              obtain ⟨hbyte, -⟩ := nkUtfEncodeByte_lead hc hlen
              -- the character is within the bounds of its length
              unfold nkUtfValidate at hvalue
              dsimp only at hvalue
              split at hvalue
              case isTrue => exact absurd hvalue hu
              case isFalse hin =>
                rw [Bool.or_eq_true, not_or, Bool.not_eq_true', Bool.not_eq_false,
                  Bool.not_eq_true, ← hvalue] at hin
                obtain ⟨hround, hclass⟩ := (between_iff hlen).mp hin
                have hloop := nkUtfEncodeLoop_tailValue n lead htail []
                rw [← hvalue, List.append_nil, hbyte] at hloop
                have hencode : nkUtfEncode u 4 = c :: tail := by
                  rw [nkUtfEncode_loop hround.1, hclass, ← hloop]
                  congr 1
                  omega
                rw [hencode]
                exact ⟨hround, ⟨rest, rfl⟩, by rw [List.length_cons]; omega⟩
  · rintro ⟨hround, ⟨rest, rfl⟩, rfl⟩
    rw [nkUtfDecode_encode hround.1, if_pos hround, length_nkUtfEncode hround.1]

theorem nkUtfDecode_iff_euro :
  nkUtfDecode [0xE2, 0x82, 0xAC, 0x21] 0 = (3, 0x20AC)
    ↔ RoundTrips 0x20AC ∧ nkUtfEncode 0x20AC 4 <+: [0xE2, 0x82, 0xAC, 0x21]
      ∧ 3 = (nkUtfEncode 0x20AC 4).length
  := nkUtfDecode_iff (by decide) (by decide)

/-- The bytes of a character are those of the standard. -/
theorem nkUtfEncode_char {c : Char} (hc : c.toNat ≠ 0x10FFFF) :
  nkUtfEncode c.toNat 4 = String.utf8EncodeChar c
  := by
  have hrune : IsRune c.toNat := by
    have hvalid := c.valid
    unfold UInt32.isValidChar Nat.isValidChar at hvalid
    unfold IsRune
    change c.val.toNat ≠ _ at hc
    change c.val.toNat < _ ∧ ¬ (_ ≤ c.val.toNat ∧ c.val.toNat < _)
    omega
  have hlead : ∀ len < 5, ∀ v < leadBound len, nkUtfEncodeByte v len
      = UInt8.ofNat ([0, v, v % 0x20 + 0xC0, v % 0x10 + 0xE0, v % 0x08 + 0xF0].getD len 0) := by
    decide +kernel
  have hcval : c.val.toNat = c.toNat := rfl
  have htail (u : ℕ) : nkUtfEncodeByte u 0 = UInt8.ofNat (u % 0x40 + 0x80) := by
    rw [nkUtfEncodeByte_tail, Nat.add_comm]
  rw [nkUtfEncode_loop hrune, String.utf8EncodeChar, hcval]
  unfold nkUtfClass nkUtfmax
  simp only [List.getD_cons_succ, List.getD_cons_zero]
  obtain ⟨hlast, -⟩ := hrune
  have hshift : c.toNat >>> 6 = c.toNat / 64 := Nat.shiftRight_eq_div_pow _ _
  have hshift' : c.toNat >>> 6 >>> 6 = c.toNat / 4096 := by
    rw [hshift, Nat.shiftRight_eq_div_pow, Nat.div_div_eq_div_mul]
  have hshift'' : c.toNat >>> 6 >>> 6 >>> 6 = c.toNat / 262144 := by
    rw [hshift', Nat.shiftRight_eq_div_pow, Nat.div_div_eq_div_mul]
  split_ifs with h1 h2 h3
  · rw [nkUtfEncodeLoop, hlead 1 (by decide) _ (show c.toNat < 128 by omega)]
    rfl
  · rw [nkUtfEncodeLoop, nkUtfEncodeLoop, hshift, htail,
      hlead 2 (by decide) _ (show c.toNat / 64 < 32 by omega)]
    rfl
  · rw [nkUtfEncodeLoop, nkUtfEncodeLoop, nkUtfEncodeLoop, hshift', hshift, htail, htail,
      hlead 3 (by decide) _ (show c.toNat / 4096 < 16 by omega)]
    rfl
  · rw [nkUtfEncodeLoop, nkUtfEncodeLoop, nkUtfEncodeLoop, nkUtfEncodeLoop, hshift'', hshift', hshift,
      htail, htail, htail, hlead 4 (by decide) _ (show c.toNat / 262144 < 8 by omega)]
    rfl

end LnxCad
