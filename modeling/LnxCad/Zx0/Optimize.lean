import LnxCad.Lib.CString
import LnxCad.Lib.Int32
import LnxCad.Zx0.Memory

/-!
# The search for the best parse

`zx0_optimize` goes through the positions of the input and, at each of them, through the
offsets.  For every offset it keeps the best parse that ends with a match of the offset
and the best one that ends with literals behind such a match; for every position it keeps
the best parse that ends there.

The parses are reached through pointers in fixed places only, and the search is written
over the operations on those places.
-/

namespace LnxCad.Zx0

/-- The places that hold pointers to blocks: those of `offset_data` and `optimal`. -/
inductive Slot where
  | lastLiteral (offset : ℕ)
  | lastMatch (offset : ℕ)
  | optimal (index : ℕ)
deriving DecidableEq

/-- The operations on the places: reading the block a place points to, if it does,
`zx0_assign(&dst, zx0_allocate(block, src))`, where the place `src` may be missing, and
`zx0_assign(&dst, src)`. -/
structure BlockStore (σ : Type) where
  peek : σ → Slot → Option Block
  make : σ → Block → Option Slot → Slot → σ
  share : σ → Slot → Slot → σ

/-- The pool and the pointers into it. -/
structure PoolMemory where
  pool : Pool
  slots : Slot → Option Addr

/-- The operations on the pool. -/
def poolStore : BlockStore PoolMemory where
  peek m s := (m.slots s).map (fun a => (m.pool.cells a).block)
  make m b src dst :=
    let (p, a) := zx0Allocate m.pool b (src.bind m.slots)
    ⟨zx0Assign p (m.slots dst) a, Function.update m.slots dst (some a)⟩
  share m src dst :=
    match m.slots src with
    | some a => ⟨zx0Assign m.pool (m.slots dst) a, Function.update m.slots dst (some a)⟩
    | none => m

/-- `INITIAL_OFFSET`. -/
def initialOffset : ℕ := 1

/-- `offset_ceiling`. -/
def offsetCeiling (index offsetLimit : ℕ) : ℕ :=
  if index > offsetLimit then offsetLimit
  else if index < initialOffset then initialOffset
  else index

/-- `elias_gamma_bits`; the number of leading zeros is found by the compiler's builtin. -/
def eliasGammaBits (value : ℤ) : ℤ :=
  if value ≤ 0 then 1 else 2 * Nat.log2 value.toNat + 1

/-- The variables of the search besides the blocks: `match_length` by offset, and
`best_length` with `best_length_size`. -/
structure Search (σ : Type) where
  store : σ
  matchLength : ℕ → ℕ
  bestLength : List ℕ
  bestLengthSize : ℕ

section Operations

variable {σ : Type} (S : BlockStore σ)

/-- A place of `optimal` takes over the pointer in `src` if it has none or a more expensive
one. -/
def offer (m : σ) (bits : ℤ) (src dst : Slot) : σ :=
  match S.peek m dst with
  | some b => if b.bits > bits then S.share m src dst else m
  | none => S.share m src dst

/-- `optimal[index - length]->bits`. -/
def optimalBits (m : σ) (index length : ℕ) : Option ℤ :=
  if length ≤ index then (S.peek m (.optimal (index - length))).map Block.bits else none

/-- The cost of a match of a length that follows the best parse before it, without what
depends on the offset. -/
def lengthBits (m : σ) (index length : ℕ) : Option ℤ :=
  (optimalBits S m index length).map (fun bits => int32 (bits + eliasGammaBits (length - 1)))

/-- An assignment to an element of an array. -/
def store? (a : List ℕ) (i v : ℕ) : Option (List ℕ) :=
  if i < a.length then some (a.set i v) else none

/-- The loop that extends `best_length` by a number of entries. -/
def growBest (m : σ) (index : ℕ) : ℕ → ℤ → ℕ → List ℕ → Option (List ℕ)
  | 0, _, _, best => some best
  | k + 1, bits, size, best => do
      let size := size + 1
      let bits2 ← lengthBits S m index size
      if bits2 ≤ bits then
        growBest m index k bits2 size (← store? best size size)
      else
        growBest m index k bits size (← store? best size (← best[size - 1]?))

/-- `best_length` and its size once they cover a match length. -/
def coverLength (w : Search σ) (index matchLength : ℕ) : Option (Search σ) :=
  if w.bestLengthSize < matchLength then do
    let bits ← lengthBits S w.store index (← w.bestLength[w.bestLengthSize]?)
    let best ← growBest S w.store index (matchLength - w.bestLengthSize) bits w.bestLengthSize
      w.bestLength
    some { w with bestLength := best, bestLengthSize := matchLength }
  else some w

/-- Copy from the last offset. -/
def copyFromLastOffset (m : σ) (index offset : ℕ) : σ :=
  match S.peek m (.lastLiteral offset) with
  | none => m
  | some l =>
      let length := index - l.index
      let bits := int32 (l.bits + 1 + eliasGammaBits length)
      let m := S.make m ⟨bits, index, offset⟩ (some (.lastLiteral offset)) (.lastMatch offset)
      offer S m bits (.lastMatch offset) (.optimal index)

/-- Whether a match from a new offset is better than the last match of the offset. -/
def betterMatch (m : σ) (index offset : ℕ) (bits : ℤ) : Bool :=
  match S.peek m (.lastMatch offset) with
  | none => true
  | some b => b.index ≠ index || b.bits > bits

/-- Copy from a new offset, with the match length already raised. -/
def copyFromNewOffset (w : Search σ) (index offset : ℕ) : Option (Search σ) :=
  if w.matchLength offset > 1 then do
    let w ← coverLength S w index (w.matchLength offset)
    let length ← w.bestLength[w.matchLength offset]?
    let offsetMsb := (offset - 1) >>> 7
    let bits := int32 ((← optimalBits S w.store index length) + 8
      + eliasGammaBits (offsetMsb + 1) + eliasGammaBits (length - 1))
    if betterMatch S w.store index offset bits then
      let m := S.make w.store ⟨bits, index, offset⟩ (some (.optimal (index - length)))
        (.lastMatch offset)
      some { w with store := offer S m bits (.lastMatch offset) (.optimal index) }
    else some w
  else some w

/-- Copy literals. -/
def copyLiterals (m : σ) (index offset : ℕ) : σ :=
  match S.peek m (.lastMatch offset) with
  | none => m
  | some b =>
      let length := index - b.index
      let bits := int32 (b.bits + 1 + eliasGammaBits length + length * 8)
      let m := S.make m ⟨bits, index, 0⟩ (some (.lastMatch offset)) (.lastLiteral offset)
      offer S m bits (.lastLiteral offset) (.optimal index)

/-- Whether the byte at a position is the one at an offset before it; at the first
position there is none. -/
def byteMatches (input : Bytes) (skip index offset : ℕ) : Option Bool :=
  if index = skip then some false
  else if offset ≤ index then do
    let current ← input[index]?
    let before ← input[index - offset]?
    some (current = before)
  else none

/-- The body of the loop over the offsets. -/
def processOffset (input : Bytes) (skip index : ℕ) (w : Search σ) (offset : ℕ) :
    Option (Search σ) := do
  if ← byteMatches input skip index offset then
    let m := copyFromLastOffset S w.store index offset
    let lengths := Function.update w.matchLength offset (w.matchLength offset + 1)
    copyFromNewOffset S { w with store := m, matchLength := lengths } index offset
  else
    some { w with
      store := copyLiterals S w.store index offset
      matchLength := Function.update w.matchLength offset 0 }

/-- The body of the loop over the positions. -/
def processIndex (input : Bytes) (skip offsetLimit : ℕ) (w : Search σ) (index : ℕ) :
    Option (Search σ) :=
  (List.range' 1 (offsetCeiling index offsetLimit)).foldlM (processOffset S input skip index)
    { w with bestLengthSize := 2 }

/-- The search when its loop starts: with a fake block, and with whatever new memory
contains in `best_length`. -/
def startSearch (m : σ) (newMemory : ℕ → ℕ) (inputSize skip : ℕ) : Search σ :=
  let best := (List.range inputSize).map newMemory
  { store := S.make m ⟨-1, (skip : ℤ) - 1, initialOffset⟩ none (.lastMatch initialOffset)
    matchLength := fun _ => 0
    bestLength := if inputSize > 2 then best.set 2 2 else best
    bestLengthSize := 0 }

/-- `zx0_optimize`; the best parse is then in the place for the last position. -/
def zx0Optimize (m : σ) (newMemory : ℕ → ℕ) (input : Bytes) (skip offsetLimit : ℕ) :
    Option σ := do
  let w ← (List.range' skip (input.length - skip)).foldlM (processIndex S input skip offsetLimit)
    (startSearch S m newMemory input.length skip)
  some w.store

end Operations

end LnxCad.Zx0
