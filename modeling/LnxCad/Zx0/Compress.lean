import LnxCad.Zx0.Optimize

/-!
# The writer of the compressed stream

`zx0_compress` turns the chain of blocks round and writes them in order: bits into the
current bit byte, lengths and offsets in the interlaced Elias gamma code, literals as
whole bytes.  The lowest bit of the byte of a new offset takes the first bit of the length
that follows.
-/

namespace LnxCad.Zx0

/-! ### Bits and bytes -/

/-- The static variables of the writer; the output is kept up to `output_index`. -/
structure Writer where
  outputData : Bytes
  outputSize : ℕ
  bitIndex : ℕ
  bitMask : ℕ
  backtrack : Bool
deriving DecidableEq

/-- `write_byte`; there is no output past the size of the buffer. -/
def writeByte (w : Writer) (value : UInt8) : Option Writer :=
  if w.outputData.length < w.outputSize then
    some { w with outputData := w.outputData ++ [value] }
  else none

/-- The part of `write_bit` that opens a bit byte when the last one is full. -/
def openBitByte (w : Writer) : Option Writer :=
  if w.bitMask = 0 then
    writeByte { w with bitMask := 128, bitIndex := w.outputData.length } 0
  else some w

/-- `write_bit`. -/
def writeBit (w : Writer) (value : Bool) : Option Writer :=
  if w.backtrack then
    if value then
      if w.outputData = [] then none
      else
        some { w with
          outputData := w.outputData.modify (w.outputData.length - 1) (fun x => x ||| 1)
          backtrack := false }
    else some { w with backtrack := false }
  else do
    let w ← openBitByte w
    let output :=
      if value then w.outputData.modify w.bitIndex (fun x => x ||| UInt8.ofNat w.bitMask)
      else w.outputData
    some { w with outputData := output, bitMask := w.bitMask / 2 }

/-- The loop of `write_interlaced_elias_gamma`, where `i` runs down from `2 ^ k`, and the
bit behind it. -/
def writeGammaDigits (value : ℕ) (backwardsMode invertMode : Bool) :
    ℕ → Writer → Option Writer
  | 0, w => writeBit w (!backwardsMode)
  | k + 1, w => do
      let w ← writeBit w backwardsMode
      let set : Bool := value &&& 2 ^ k ≠ 0
      let w ← writeBit w (if invertMode then !set else set)
      writeGammaDigits value backwardsMode invertMode k w

/-- The first loop of `write_interlaced_elias_gamma`, where `i` is `2 ^ k` and may be doubled
`room` times before `i <<= 1` is no `int`, with which the loop does not come to its end. -/
def gammaPower (value : ℕ) : ℕ → ℕ → Option ℕ
  | 0, k => if 2 ^ k ≤ value then none else some k
  | room + 1, k => if 2 ^ k ≤ value then gammaPower value room (k + 1) else some k

/-- `write_interlaced_elias_gamma`; the largest power of two of an `int` is `2 ^ 30`. -/
def writeInterlacedEliasGamma (w : Writer) (value : ℕ) (backwardsMode invertMode : Bool) :
    Option Writer := do
  let k ← gammaPower value 29 1
  writeGammaDigits value backwardsMode invertMode (k - 1) w

/-! ### Blocks -/

/-- The writer with the position in the input and the last offset. -/
structure Emitter where
  writer : Writer
  inputIndex : ℕ
  lastOffset : ℕ

/-- The loop that writes literals. -/
def writeLiterals (input : Bytes) : ℕ → Emitter → Option Emitter
  | 0, e => some e
  | k + 1, e => do
      let w ← writeByte e.writer (← input[e.inputIndex]?)
      writeLiterals input k { e with writer := w, inputIndex := e.inputIndex + 1 }

/-- The byte with the lower part of an offset. -/
def offsetByte (offset : ℕ) (backwardsMode : Bool) : UInt8 :=
  if backwardsMode then UInt8.ofNat ((offset - 1) % 128 * 2)
  else UInt8.ofNat ((127 - (offset - 1) % 128) * 2)

/-- The body of the loop that generates the output, for a block and the one before it. -/
def writeBlock (input : Bytes) (backwardsMode invertMode : Bool) (prev optimal : Block)
    (e : Emitter) : Option Emitter :=
  let length := (optimal.index - prev.index).toNat
  if optimal.offset = 0 then do
    let w ← writeBit e.writer false
    let w ← writeInterlacedEliasGamma w length backwardsMode false
    writeLiterals input length { e with writer := w }
  else if optimal.offset = e.lastOffset then do
    let w ← writeBit e.writer false
    let w ← writeInterlacedEliasGamma w length backwardsMode false
    some { e with writer := w, inputIndex := e.inputIndex + length }
  else do
    let w ← writeBit e.writer true
    let w ← writeInterlacedEliasGamma w ((optimal.offset - 1) / 128 + 1) backwardsMode invertMode
    let w ← writeByte w (offsetByte optimal.offset backwardsMode)
    let w ← writeInterlacedEliasGamma { w with backtrack := true } (length - 1) backwardsMode
      false
    some ⟨w, e.inputIndex + length, optimal.offset⟩

/-! ### Chains -/

/-- The loop that turns a chain round. -/
def unReverse : ℕ → Pool → Option Addr → Option Addr → Option (Pool × Option Addr)
  | 0, _, _, _ => none
  | _ + 1, p, prev, none => some (p, prev)
  | fuel + 1, p, prev, some a =>
      unReverse fuel (p.modify a (fun c => { c with chain := prev })) (some a) (p.cells a).chain

/-- The loop that generates the output, from the block behind `prev` on. -/
def writeChain (input : Bytes) (backwardsMode invertMode : Bool) (p : Pool) :
    ℕ → Addr → Emitter → Option Emitter
  | 0, _, _ => none
  | fuel + 1, prev, e =>
      match (p.cells prev).chain with
      | none => some e
      | some a => do
          let e ← writeBlock input backwardsMode invertMode (p.cells prev).block
            (p.cells a).block e
          writeChain input backwardsMode invertMode p fuel a e

/-- The writer at the start. -/
def startEmitter (outputSize skip : ℕ) : Emitter :=
  ⟨⟨[], outputSize, 0, 0, true⟩, skip, initialOffset⟩

/-- `zx0_compress`: the output, the bytes not written being whatever new memory contains,
with its size and the pool. -/
def zx0Compress (fuel : ℕ) (newMemory : ℕ → UInt8) (p : Pool) (optimal : Addr) (input : Bytes)
    (skip : ℕ) (backwardsMode invertMode : Bool) : Option (Bytes × ℤ × Pool) := do
  let outputSize := Int.tdiv (int32 ((p.cells optimal).block.bits + 25)) 8
  let (p, prev) ← unReverse fuel p none (some optimal)
  let e ← writeChain input backwardsMode invertMode p fuel (← prev)
    (startEmitter outputSize.toNat skip)
  let w ← writeBit e.writer true
  let w ← writeInterlacedEliasGamma w 256 backwardsMode invertMode
  let written := w.outputData.length
  let rest := (List.range (outputSize.toNat - written)).map (fun i => newMemory (written + i))
  some (w.outputData ++ rest, outputSize, p)

/-- `MAX_OFFSET_ZX0`. -/
def maxOffsetZx0 : ℕ := 32640

/-- What new memory contains: `best_length`, and the output buffer. -/
structure NewMemory where
  bestLength : ℕ → ℕ
  output : ℕ → UInt8

/-- `zx0_compress_c`: the value returned, the output if that is zero, and the pool. -/
def zx0CompressC (fuel : ℕ) (new : NewMemory) (p : Pool) (input : Bytes) :
    Option (ℤ × Bytes × Pool) :=
  if input = [] then some (-1, [], p)
  else do
    let m ← zx0Optimize poolStore ⟨p, fun _ => none⟩ new.bestLength input 0 maxOffsetZx0
    let (compressed, outSize, p) ← zx0Compress fuel new.output m.pool
      (← m.slots (.optimal (input.length - 1))) input 0 false true
    if outSize ≤ 0 then some (-1, [], p) else some (0, compressed, p)

end LnxCad.Zx0
