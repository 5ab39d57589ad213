import LnxCad.Zx0.Decompress
import LnxCad.Zx0.Encoding

/-!
# The reader follows the stream

While a stream lies ahead of the bit reader, every bit and byte it reads is the next
element of the stream, and a number in the gamma code is read back.
-/

namespace LnxCad.Zx0

open Interleave

/-! ### Elements -/

/-- A stream lies ahead of the reader, and no bit of the last byte is to be read again. -/
structure BitReader.Reads (br : BitReader) (ts : List Tok) (rest : Bytes) : Prop where
  backtrack : br.backtrack = false
  ahead : ∃ r bits, r < 8 ∧ br.bitMask / 2 = 2 ^ r / 2 ∧ (0 < r → br.bitValue = (bits : ℕ))
    ∧ Ahead r bits br.src ts rest

theorem land_two_pow_ne_zero (bits r : ℕ) :
  decide (Int.land (bits : ℤ) ((2 ^ r : ℕ) : ℤ) ≠ 0) = bits.testBit r
  := by
  have hland : Int.land (bits : ℤ) ((2 ^ r : ℕ) : ℤ) = ((bits &&& 2 ^ r : ℕ) : ℤ) := rfl
  rw [hland, Nat.and_two_pow]
  cases bits.testBit r with
  | false => simp
  | true => simp

variable {br : BitReader} {ts : List Tok} {rest : Bytes}

/-- A bit is read. -/
theorem BitReader.Reads.bit {b : Bool} (h : br.Reads (.bit b :: ts) rest) :
  ∃ br', rdBit br = (b, br') ∧ br'.Reads ts rest
  := by
  obtain ⟨hback, r, bits, hr, hmask, hvalue, hahead⟩ := h
  rw [rdBit, if_neg (by simp [hback])]
  cases r with
  | zero =>
      obtain ⟨v, src', hsrc, hbit, hahead'⟩ := hahead.bit_zero
      have hzero : br.bitMask / 2 = 0 := hmask
      have htest := land_two_pow_ne_zero v.toNat 7
      refine ⟨⟨src', 128, v.toNat, br.backtrack, v.toNat⟩, ?_, hback, 7, v.toNat, by omega, rfl,
        fun _ => rfl, hahead'⟩
      rw [← hbit, ← htest]
      simp only [hzero, if_pos, rdByte, hsrc]
      rfl
  | succ r =>
      obtain ⟨hbit, hahead'⟩ := hahead.bit_succ (by omega)
      have hhalf : br.bitMask / 2 = 2 ^ r := by
        rw [hmask, pow_succ]
        omega
      have hne : 2 ^ r ≠ 0 := by positivity
      refine ⟨{ br with bitMask := br.bitMask / 2 }, ?_, hback, r, bits, by omega, ?_, ?_, hahead'⟩
      · dsimp only
        rw [hhalf, if_neg hne, hvalue (by omega), land_two_pow_ne_zero, hbit]
      · dsimp only
        rw [hhalf]
      · intro _
        apply hvalue
        omega

/-- A byte is read. -/
theorem BitReader.Reads.byte {v : UInt8} (h : br.Reads (.byte v :: ts) rest) :
  ∃ br', rdByte br = ((v.toNat : ℤ), br') ∧ br'.Reads ts rest ∧ br'.lastByte = v.toNat
  := by
  obtain ⟨hback, r, bits, hr, hmask, hvalue, hahead⟩ := h
  obtain ⟨src', hsrc, hahead'⟩ := hahead.byte
  refine ⟨{ br with src := src', lastByte := v.toNat }, ?_, ⟨hback, r, bits, hr, hmask, hvalue, hahead'⟩,
    rfl⟩
  simp only [rdByte, hsrc]

/-! ### Numbers -/

variable (M : Mode)

/-- Reading some bits leads from one reader to another. -/
def Supplies : BitReader → List Bool → BitReader → Prop
  | br, [], br' => br = br'
  | br, b :: bs, br' => ∃ br₁, rdBit br = (b, br₁) ∧ Supplies br₁ bs br'

theorem BitReader.Reads.supplies {bits : List Bool} (h : br.Reads (bits.map Tok.bit ++ ts) rest) :
  ∃ br', Supplies br bits br' ∧ br'.Reads ts rest
  := by
  induction bits generalizing br with
  | nil => exact ⟨br, rfl, h⟩
  | cons b bits ih =>
      obtain ⟨br₁, hbit, hrest⟩ := h.bit
      obtain ⟨br', hsupplies, hrest'⟩ := ih hrest
      exact ⟨br', ⟨br₁, hbit, hsupplies⟩, hrest'⟩

/-- The lowest digits of a number complete the higher part of it. -/
theorem rdEliasGamma_digits
    {inverted : Bool} {v k : ℕ} {br br' : BitReader}
    (h : Supplies br (EliasGamma.digits inverted v k) br') (hv : v < 2 ^ 31) {fuel : ℕ}
    (hfuel : k < fuel) :
  rdEliasGamma M inverted fuel (v >>> k : ℕ) br = .next (v, br')
  := by
  induction k generalizing br fuel with
  | zero =>
      obtain ⟨fuel, rfl⟩ := Nat.exists_eq_succ_of_ne_zero (Nat.ne_zero_of_lt hfuel)
      obtain ⟨br₁, hbit, rfl⟩ := h
      simp [rdEliasGamma, hbit]
  | succ k ih =>
      obtain ⟨fuel, rfl⟩ := Nat.exists_eq_succ_of_ne_zero (Nat.ne_zero_of_lt hfuel)
      obtain ⟨br₁, hzero, br₂, hdigit, hrest⟩ := h
      have hstep := EliasGamma.shiftRight_mul_two_add v k
      have hle : v >>> k ≤ v := Nat.shiftRight_le v k
      have hvalue : M.arith ((v >>> (k + 1) : ℕ) * 2 + ((v.testBit k ^^ inverted) ^^ inverted).toNat)
          = .next (v >>> k : ℕ) := by
        rw [Bool.xor_assoc, Bool.xor_self, Bool.xor_false, M.arith_eq (by omega) (by omega)]
        congr 1
        omega
      simp only [rdEliasGamma, hzero, hdigit, hvalue, Bool.false_eq_true, if_false, Flow.next_bind]
      apply ih hrest
      omega

/-- A number in the gamma code is read back. -/
theorem rdEliasGamma_code
    {inverted : Bool} {v : ℕ} {br br' : BitReader} (h : Supplies br (EliasGamma.code inverted v) br')
    (hv : v ≠ 0) (hlt : v < 2 ^ 31) {fuel : ℕ} (hfuel : 31 < fuel) :
  rdEliasGamma M inverted fuel 1 br = .next (v, br')
  := by
  have hlog : Nat.log2 v ≤ 31 := EliasGamma.log2_le_of_lt (by omega)
  have hgamma := rdEliasGamma_digits M h hlt (show Nat.log2 v < fuel by omega)
  rwa [EliasGamma.shiftRight_log2 hv] at hgamma

theorem BitReader.Reads.gamma
    {inverted : Bool} {v : ℕ} (h : br.Reads (gammaToks inverted v ++ ts) rest) (hv : v ≠ 0)
    (hlt : v < 2 ^ 31) {fuel : ℕ} (hfuel : 31 < fuel) :
  ∃ br', rdEliasGamma M inverted fuel 1 br = .next (v, br') ∧ br'.Reads ts rest
  := by
  obtain ⟨br', hsupplies, hrest⟩ := BitReader.Reads.supplies h
  exact ⟨br', rdEliasGamma_code M hsupplies hv hlt hfuel, hrest⟩

/-! ### Offsets -/

theorem toNat_offsetByte_or (offset : ℕ) (b : Bool) :
  (offsetByte offset false ||| maskOf 0 b).toNat = (127 - (offset - 1) % 128) * 2 + b.toNat
  := by
  have hbyte : (offsetByte offset false).toNat = (127 - (offset - 1) % 128) * 2 := by
    rw [offsetByte, if_neg Bool.false_ne_true, UInt8.toNat_ofNat']
    omega
  have hb : b.toNat < 2 ^ 1 := by
    cases b with
    | false => decide
    | true => decide
  have hor := Nat.two_pow_add_eq_or_of_lt hb (127 - (offset - 1) % 128)
  rw [UInt8.toNat_or, hbyte, toNat_maskOf (by omega), pow_zero, mul_one, mul_comm _ 2]
  rw [pow_one] at hor
  exact hor.symm

/-- The upper part and the byte of an offset give the offset. -/
theorem offset_upper_sub_lower {offset : ℕ} (hone : 1 ≤ offset) (b : Bool) :
  (((offset - 1) / 128 + 1 : ℕ) : ℤ) * 128
    - ((offsetByte offset false ||| maskOf 0 b).toNat : ℤ) / 2 = offset
  := by
  have hb : b.toNat ≤ 1 := Bool.toNat_le b
  rw [toNat_offsetByte_or]
  omega

/-- The lowest bit of the byte of an offset is read again, as the first bit of the length. -/
theorem rdBit_offsetByte
    {offset : ℕ} {b : Bool} (hback : br.backtrack = false)
    (hlast : br.lastByte = (offsetByte offset false ||| maskOf 0 b).toNat) :
  rdBit { br with backtrack := true } = (b, br)
  := by
  obtain ⟨src, bitMask, bitValue, backtrack, lastByte⟩ := br
  obtain rfl : backtrack = false := hback
  obtain rfl := hlast
  have hbit := land_two_pow_ne_zero (offsetByte offset false ||| maskOf 0 b).toNat 0
  have hfirst : (offsetByte offset false ||| maskOf 0 b).toNat.testBit 0 = b := by
    rw [toNat_offsetByte_or, Nat.testBit_zero]
    cases b with
    | false => simp
    | true => simp
  exact Prod.ext (hbit.trans hfirst) rfl

/-- The byte of an offset and the length behind it, whose first bit is in the byte, are
read. -/
theorem BitReader.Reads.offset
    {offset v : ℕ} (h : br.Reads (offsetToks offset (EliasGamma.code false v) ++ ts) rest)
    (hone : 1 ≤ offset) (hv : v ≠ 0) (hlt : v < 2 ^ 31) {fuel : ℕ} (hfuel : 31 < fuel) :
  ∃ (t : ℕ) (br₁ br' : BitReader), rdByte br = ((t : ℤ), br₁)
    ∧ (((offset - 1) / 128 + 1 : ℕ) : ℤ) * 128 - (t : ℤ) / 2 = offset
    ∧ rdEliasGamma M false fuel 1 { br₁ with backtrack := true } = .next (v, br') ∧ br'.Reads ts rest
  := by
  cases hcode : EliasGamma.code false v with
  | nil =>
      have hlen := EliasGamma.length_code false v
      have hpos := EliasGamma.length_pos v
      rw [hcode, List.length_nil] at hlen
      omega
  | cons b bs =>
      rw [hcode, offsetToks, List.cons_append] at h
      obtain ⟨br₁, hbyte, hrest, hlast⟩ := h.byte
      obtain ⟨br', hsupplies, hrest'⟩ := hrest.supplies
      refine ⟨_, br₁, br', hbyte, offset_upper_sub_lower hone b, ?_, hrest'⟩
      apply rdEliasGamma_code M _ hv hlt hfuel
      rw [hcode]
      exact ⟨br₁, rdBit_offsetByte hrest.backtrack hlast, hsupplies⟩

end LnxCad.Zx0
