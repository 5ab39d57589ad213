import LnxCad.Lib.CString
import Mathlib.Data.Nat.Bitwise

/-!
# Bits interleaved with bytes

A stream of bits and whole bytes is stored as follows.  Bits are collected, most
significant first, in a byte that is put into the stream where its first bit occurs; whole
bytes are put where they occur.  While a bit byte is open, whole bytes may follow it, and
later bits still go into it.
-/

namespace Interleave

/-- An element of a stream. -/
inductive Tok where
  | bit (b : Bool)
  | byte (x : UInt8)
deriving DecidableEq

/-- The bit of value `2 ^ r`, if it is set. -/
def maskOf (r : ℕ) (b : Bool) : UInt8 := if b then UInt8.ofNat (2 ^ r) else 0

/-- The bytes that store a stream when the open bit byte has room for `r` bits: what goes
into the open byte, and the bytes behind. -/
def layout : ℕ → List Tok → UInt8 × Bytes
  | _, [] => (0, [])
  | 0, .bit b :: ts =>
      let l := layout 7 ts
      (0, (maskOf 7 b ||| l.1) :: l.2)
  | r + 1, .bit b :: ts =>
      let l := layout r ts
      (maskOf r b ||| l.1, l.2)
  | r, .byte x :: ts =>
      let l := layout r ts
      (l.1, x :: l.2)

theorem layout_byte (r : ℕ) (x : UInt8) (ts : List Tok) :
  layout r (.byte x :: ts) = ((layout r ts).1, x :: (layout r ts).2)
  := by
  cases r with
  | zero => rfl
  | succ r => rfl

theorem toNat_maskOf {r : ℕ} (h : r < 8) (b : Bool) :
  (maskOf r b).toNat = b.toNat * 2 ^ r
  := by
  unfold maskOf
  cases b with
  | false => simp
  | true =>
      have hlt : 2 ^ r < 2 ^ 8 := Nat.pow_lt_pow_right (by omega) h
      simpa using hlt

theorem testBit_maskOf {r : ℕ} (h : r < 8) (b : Bool) (i : ℕ) :
  (maskOf r b).toNat.testBit i = (decide (i = r) && b)
  := by
  rw [toNat_maskOf h]
  cases b with
  | false => simp
  | true => simp [Nat.testBit_two_pow, eq_comm]

/-- What goes into the open byte fits into its room. -/
theorem layout_testBit {r : ℕ} (hr : r < 8) (ts : List Tok) {i : ℕ} (hi : r ≤ i) :
  (layout r ts).1.toNat.testBit i = false
  := by
  induction ts generalizing r with
  | nil => simp [layout]
  | cons t ts ih =>
      cases t with
      | byte x =>
          rw [layout_byte]
          apply ih hr hi
      | bit b =>
          cases r with
          | zero => simp [layout]
          | succ r =>
              rw [layout, UInt8.toNat_or, Nat.testBit_or, testBit_maskOf (by omega),
                ih (by omega) (by omega)]
              simp
              omega

/-! ### Reading a stream -/

/-- A stream lies ahead: the lowest `r` bits of the open byte, and the bytes behind, store
it. -/
def Ahead (r open_ : ℕ) (src : Bytes) (ts : List Tok) (rest : Bytes) : Prop :=
  (∀ i < r, open_.testBit i = (layout r ts).1.toNat.testBit i) ∧ src = (layout r ts).2 ++ rest

variable {r open_ : ℕ} {src rest : Bytes} {ts : List Tok}

/-- The next bit is in the open byte while that has room. -/
theorem Ahead.bit_succ {b : Bool} (hr : r < 7) (h : Ahead (r + 1) open_ src (.bit b :: ts) rest) :
  open_.testBit r = b ∧ Ahead r open_ src ts rest
  := by
  obtain ⟨hbits, hsrc⟩ := h
  have hbit : ∀ i < r + 1, open_.testBit i
      = ((decide (i = r) && b) || (layout r ts).1.toNat.testBit i) := by
    intro i hi
    rw [hbits i hi, layout, UInt8.toNat_or, Nat.testBit_or, testBit_maskOf (by omega)]
  refine ⟨?_, ?_, hsrc⟩
  · rw [hbit r (by omega), layout_testBit (by omega) ts (le_refl r)]
    simp
  · intro i hi
    rw [hbit i (by omega)]
    simp [show i ≠ r by omega]

/-- Otherwise it is the first of the next byte. -/
theorem Ahead.bit_zero {b : Bool} (h : Ahead 0 open_ src (.bit b :: ts) rest) :
  ∃ x src', src = x :: src' ∧ x.toNat.testBit 7 = b ∧ Ahead 7 x.toNat src' ts rest
  := by
  refine ⟨maskOf 7 b ||| (layout 7 ts).1, (layout 7 ts).2 ++ rest, h.2, ?_, ?_, rfl⟩
  · rw [UInt8.toNat_or, Nat.testBit_or, testBit_maskOf (by omega),
      layout_testBit (by omega) ts (le_refl 7)]
    simp
  · intro i hi
    rw [UInt8.toNat_or, Nat.testBit_or, testBit_maskOf (by omega)]
    simp [show i ≠ 7 by omega]

/-- A whole byte is the next byte. -/
theorem Ahead.byte {x : UInt8} (h : Ahead r open_ src (.byte x :: ts) rest) :
  ∃ src', src = x :: src' ∧ Ahead r open_ src' ts rest
  := by
  obtain ⟨hbits, hsrc⟩ := h
  rw [layout_byte] at hbits hsrc
  exact ⟨_, hsrc, hbits, rfl⟩

/-! ### The room a stream takes -/

/-- The room of an element, in bits. -/
def Tok.size : Tok → ℕ
  | .bit _ => 1
  | .byte _ => 8

/-- The room of a stream, in bits. -/
def size (ts : List Tok) : ℕ := (ts.map Tok.size).sum

theorem size_cons (t : Tok) (ts : List Tok) :
  size (t :: ts) = t.size + size ts
  := rfl

theorem size_append (ts us : List Tok) :
  size (ts ++ us) = size ts + size us
  := by
  rw [size, size, size, List.map_append, List.sum_append]

/-- A stream is stored in the least number of bytes that, with the room of the open byte,
have room for it. -/
theorem length_layout {r : ℕ} (hr : r < 8) (ts : List Tok) :
  8 * (layout r ts).2.length + r ≤ size ts + 7 ∧ size ts ≤ 8 * (layout r ts).2.length + r
  := by
  induction ts generalizing r with
  | nil =>
      simp only [layout, size, List.length_nil, List.map_nil, List.sum_nil]
      omega
  | cons t ts ih =>
      rw [size_cons]
      cases t with
      | byte x =>
          have := ih hr
          rw [layout_byte, List.length_cons, Tok.size]
          omega
      | bit b =>
          cases r with
          | zero =>
              have := ih (r := 7) (by omega)
              simp only [layout, List.length_cons, Tok.size]
              omega
          | succ r =>
              have := ih (r := r) (by omega)
              simp only [layout, Tok.size]
              omega

end Interleave
