import LnxCad.Lib.CString
import LnxCad.Lib.Int32
import Mathlib.Data.Int.Bitwise

/-!
# The decompressor of the watchdog

`zx0_decompress_to` reads a compressed stream from a buffer and writes what it stands for
into another.  Past the end of the input every byte reads as `-1`.
-/

namespace LnxCad.Zx0

/-! ### The bit reader -/

/-- `BitReader`; the source is what lies between `src` and `src_end`. -/
structure BitReader where
  src : Bytes
  bitMask : ℕ
  bitValue : ℤ
  backtrack : Bool
  lastByte : ℤ
deriving DecidableEq

/-- `rd_byte`. -/
def rdByte (br : BitReader) : ℤ × BitReader :=
  match br.src with
  | [] => (-1, br)
  | c :: src => (c.toNat, { br with src := src, lastByte := c.toNat })

/-- `rd_bit`. -/
def rdBit (br : BitReader) : Bool × BitReader :=
  if br.backtrack then (Int.land br.lastByte 1 ≠ 0, { br with backtrack := false })
  else
    let bitMask := br.bitMask / 2
    if bitMask = 0 then
      let (bitValue, br) := rdByte br
      (Int.land bitValue 128 ≠ 0, { br with bitMask := 128, bitValue := bitValue })
    else (Int.land br.bitValue bitMask ≠ 0, { br with bitMask := bitMask })

/-- A byte that is not there is read as ones. -/
theorem land_neg_one (n : ℕ) :
  Int.land (-1) n = n
  := by
  change ((Nat.ldiff n 0 : ℕ) : ℤ) = n
  simp [Nat.ldiff]

/-! ### Control flow -/

/-- What a part of the function comes to: it goes on with a value, or the function returns,
or it fails, or the part does not come to an end. -/
inductive Flow (α : Type) where
  | next (a : α)
  | ret (value : ℤ) (out : Bytes)
  | fault
  | stuck

/-- One part after the other. -/
def Flow.bind {α β : Type} (x : Flow α) (f : α → Flow β) : Flow β :=
  match x with
  | .next a => f a
  | .ret value out => .ret value out
  | .fault => .fault
  | .stuck => .stuck

instance : Monad Flow where
  pure := Flow.next
  bind := Flow.bind

@[simp]
theorem Flow.next_bind {α β : Type} (a : α) (f : α → Flow β) :
  (Flow.next a >>= f) = f a
  := rfl

@[simp]
theorem Flow.ret_bind {α β : Type} (value : ℤ) (out : Bytes) (f : α → Flow β) :
  (Flow.ret value out >>= f) = Flow.ret value out
  := rfl

@[simp]
theorem Flow.fault_bind {α β : Type} (f : α → Flow β) :
  (Flow.fault >>= f) = Flow.fault
  := rfl

@[simp]
theorem Flow.stuck_bind {α β : Type} (f : α → Flow β) :
  (Flow.stuck >>= f) = Flow.stuck
  := rfl

theorem Flow.bind_assoc {α β γ : Type} (x : Flow α) (f : α → Flow β) (g : β → Flow γ) :
  (x >>= f >>= g) = x >>= fun a => f a >>= g
  := by
  cases x with
  | next a => rfl
  | ret value out => rfl
  | fault => rfl
  | stuck => rfl

theorem Flow.bind_congr {α β : Type} {x : Flow α} {f g : α → Flow β} (h : ∀ a, f a = g a) :
  (x >>= f) = (x >>= g)
  := by
  rw [funext h]

/-- What the function makes of the cases the language leaves open.  Results of `int`
arithmetic wrap around and memory is accessed as it is, or the function fails with the first
result that does not fit and the first access outside of its array. -/
inductive Mode where
  | wrapping (memory : ℕ → UInt8)
  | checked

/-- The result of an operation on `int`. -/
def Mode.arith (M : Mode) (v : ℤ) : Flow ℤ :=
  match M with
  | .wrapping _ => .next (int32 v)
  | .checked => if -2 ^ 31 ≤ v ∧ v < 2 ^ 31 then .next v else .fault

/-- A byte of the output is read, of which `outPos` bytes have been written. -/
def Mode.load (M : Mode) (out : Bytes) (outPos i : ℕ) : Flow UInt8 :=
  match M, out[i]? with
  | .wrapping _, some c => .next c
  | .wrapping memory, none => .next (memory i)
  | .checked, some c => if i < outPos then .next c else .fault
  | .checked, none => .fault

/-- A byte is put into the output. -/
def Mode.store (M : Mode) (out : Bytes) (i : ℕ) (c : UInt8) : Flow Bytes :=
  match M with
  | .wrapping _ => .next (out.set i c)
  | .checked => if i < out.length then .next (out.set i c) else .fault

variable (M : Mode)

theorem Mode.arith_eq {v : ℤ} (hlo : -2 ^ 31 ≤ v) (hhi : v < 2 ^ 31) :
  M.arith v = .next v
  := by
  cases M with
  | wrapping memory => rw [arith, int32_eq hlo hhi]
  | checked => exact if_pos ⟨hlo, hhi⟩

theorem Mode.load_eq {out : Bytes} {outPos i : ℕ} {c : UInt8} (h : out[i]? = some c)
    (hi : i < outPos) :
  M.load out outPos i = .next c
  := by
  cases M with
  | wrapping memory => simp [load, h]
  | checked => simp [load, h, hi]

theorem Mode.store_eq {out : Bytes} {i : ℕ} (h : i < out.length) (c : UInt8) :
  M.store out i c = .next (out.set i c)
  := by
  cases M with
  | wrapping memory => rfl
  | checked => exact if_pos h

/-- `rd_elias_gamma`, from a value on. -/
def rdEliasGamma (inverted : Bool) : ℕ → ℤ → BitReader → Flow (ℤ × BitReader)
  | 0, _, _ => .stuck
  | fuel + 1, value, br =>
      let (stop, br) := rdBit br
      if stop then .next (value, br)
      else do
        let (b, br) := rdBit br
        let value ← M.arith (value * 2 + (b ^^ inverted).toNat)
        rdEliasGamma inverted fuel value br

/-! ### The loops -/

/-- The variables of the function. -/
structure Decoder where
  br : BitReader
  lastOffset : ℤ
  out : Bytes
  outPos : ℕ

/-- The loop that copies literals. -/
def copyLiteralBytes : ℕ → Decoder → Flow Decoder
  | 0, d => .next d
  | k + 1, d =>
      let (c, br) := rdByte d.br
      if c < 0 then .ret (-1) d.out
      else if d.outPos ≥ d.out.length then .ret (-1) d.out
      else do
        let out ← M.store d.out d.outPos (UInt8.ofNat c.toNat)
        copyLiteralBytes k { d with br := br, out := out, outPos := d.outPos + 1 }

/-- The loops that copy from the output. -/
def copyMatchBytes : ℕ → Decoder → Flow Decoder
  | 0, d => .next d
  | k + 1, d => do
      let srcPos ← M.arith (d.outPos - d.lastOffset)
      if srcPos < 0 ∨ d.outPos ≥ d.out.length then .ret (-1) d.out
      else
        let c ← M.load d.out d.outPos srcPos.toNat
        let out ← M.store d.out d.outPos c
        copyMatchBytes k { d with out := out, outPos := d.outPos + 1 }

/-- The loops that copy from new offsets, up to the one before literals. -/
def copyFromNewOffsets : ℕ → Decoder → Flow Decoder
  | 0, _ => .stuck
  | fuel + 1, d => do
      let (offset, br) ← rdEliasGamma M true fuel 1 d.br
      if offset = 256 then Flow.ret d.outPos d.out
      else
        let (t, br) := rdByte br
        if t < 0 then Flow.ret (-1) d.out
        else
          let upper ← M.arith (offset * 128)
          let lastOffset ← M.arith (upper - t / 2)
          let (value, br) ← rdEliasGamma M false fuel 1 { br with backtrack := true }
          let length ← M.arith (value + 1)
          let d ← copyMatchBytes M length.toNat { d with br := br, lastOffset := lastOffset }
          let (more, br) := rdBit d.br
          if more then copyFromNewOffsets fuel { d with br := br }
          else Flow.next { d with br := br }

/-- The outer loop, from literals to literals. -/
def decompressLoop : ℕ → Decoder → Flow Unit
  | 0, _ => .stuck
  | fuel + 1, d => do
      let (length, br) ← rdEliasGamma M false fuel 1 d.br
      let d ← copyLiteralBytes M length.toNat { d with br := br }
      let (isNew, br) := rdBit d.br
      if isNew then
        let d ← copyFromNewOffsets M fuel { d with br := br }
        decompressLoop fuel d
      else
        let (length, br) ← rdEliasGamma M false fuel 1 br
        let d ← copyMatchBytes M length.toNat { d with br := br }
        let (isNew, br) := rdBit d.br
        if isNew then
          let d ← copyFromNewOffsets M fuel { d with br := br }
          decompressLoop fuel d
        else decompressLoop fuel { d with br := br }

/-- `zx0_decompress_to`: the value returned and the output buffer, whose length is
`out_max`. -/
def zx0DecompressTo (fuel : ℕ) (input out : Bytes) : Option (ℤ × Bytes) :=
  if input = [] ∨ out = [] then some (-1, out)
  else
    match decompressLoop M fuel ⟨⟨input, 0, 0, false, 0⟩, 1, out, 0⟩ with
    | .ret value out => some (value, out)
    | .next _ => none
    | .fault => none
    | .stuck => none

end LnxCad.Zx0
