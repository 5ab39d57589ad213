import LnxCad.Lib.CString
import LnxCad.Lib.Int32
import LnxCad.Lib.Outcome

/-!
# The LZ4 decompressor of the watchdog

`lz4_decompress` reads a block from one array and writes what it stands for into another.
The memory records every access to the two arrays, also those outside of them; what is read
there is whatever the memory holds.
-/

namespace LnxCad.Lz4

/-! ### Memory -/

/-- The arrays the pointers point into. -/
inductive Region where
  | src
  | dst
deriving DecidableEq

/-- An access: a byte of `src` is read, or a byte is copied from an array into `dst`. -/
inductive Access where
  | read (i : ℤ)
  | copy (region : Region) (s d : ℤ)
deriving DecidableEq

/-- The two arrays, and the accesses made. -/
structure Memory where
  src : Bytes
  dst : Bytes
  accesses : List Access

/-- An array of the memory. -/
def Memory.array (m : Memory) : Region → Bytes
  | .src => m.src
  | .dst => m.dst

/-- The byte at an index; outside of an array it is whatever the memory holds there. -/
def Memory.load (outside : Region → ℤ → UInt8) (m : Memory) (r : Region) (i : ℤ) : UInt8 :=
  if 0 ≤ i then ((m.array r)[i.toNat]?).getD (outside r i) else outside r i

/-- The records of an access. -/
def Memory.note (m : Memory) (a : Access) : Memory := { m with accesses := m.accesses ++ [a] }

/-! ### The function -/

/-- `lz4_copy_bytes`, from an index of an array to one of `dst`. -/
def lz4CopyBytes (outside : Region → ℤ → UInt8) (r : Region) : ℕ → ℤ → ℤ → Memory → Memory
  | 0, _, _, m => m
  | n + 1, d, s, m =>
      lz4CopyBytes outside r n (d + 1) (s + 1)
        { m.note (.copy r s d) with dst := m.dst.set d.toNat (m.load outside r s) }

/-- `LZ4_read16`: the lower byte comes first. -/
def lz4Read16 (outside : Region → ℤ → UInt8) (memPtr : ℤ) (m : Memory) : ℕ × Memory :=
  ((m.load outside .src memPtr).toNat + 256 * (m.load outside .src (memPtr + 1)).toNat,
    (m.note (.read memPtr)).note (.read (memPtr + 1)))

/-- What a part of the function comes to; the function returns a value and leaves a memory. -/
abbrev Part := Outcome (ℤ × Memory)

/-- The loops that add up the bytes of a length: the length and the place behind it. -/
def addLength (outside : Region → ℤ → UInt8) (iend : ℤ) :
    ℕ → ℤ → ℤ → Memory → Part (ℤ × ℤ × Memory)
  | 0, _, _, _ => .stuck
  | fuel + 1, length, ip, m =>
      if ip ≥ iend then .ret (-1, m)
      else
        let len := m.load outside .src ip
        let m := m.note (.read ip)
        let length := int32 (length + len.toNat)
        if len = 255 then addLength outside iend fuel length (ip + 1) m
        else .next (length, ip + 1, m)

/-- A length that starts with a half byte. -/
def wholeLength (outside : Region → ℤ → UInt8) (iend : ℤ) (fuel half : ℕ) (ip : ℤ) (m : Memory) :
    Part (ℤ × ℤ × Memory) :=
  if half = 15 then addLength outside iend fuel 15 ip m else .next (half, ip, m)

/-- The first part of the loop, up to the end of the literals: the token, and where the
pointers are. -/
def copyLiterals (outside : Region → ℤ → UInt8) (iend oend : ℤ) (fuel : ℕ) (ip op : ℤ)
    (m : Memory) : Part (ℕ × ℤ × ℤ × Memory) :=
  if ip ≥ iend then .ret (int32 op, m)
  else do
    let token := (m.load outside .src ip).toNat
    let (literalLength, ip, m) ←
      wholeLength outside iend fuel (token / 16) (ip + 1) (m.note (.read ip))
    let litEnd := op + literalLength
    if litEnd > oend then .ret (-1, m)
    else
      .next (token, ip + literalLength, litEnd,
        lz4CopyBytes outside .src literalLength.toNat op ip m)

/-- The second part of the loop, with the token. -/
def copyMatch (outside : Region → ℤ → UInt8) (iend oend : ℤ) (fuel token : ℕ) (ip op : ℤ)
    (m : Memory) : Part (ℤ × ℤ × Memory) :=
  if ip ≥ iend then .ret (int32 op, m)
  else if ip + 2 > iend then .ret (-1, m)
  else
    let (offset, m) := lz4Read16 outside ip m
    if offset = 0 then .ret (-1, m)
    else if op - offset < 0 then .ret (-1, m)
    else do
      let (matchLength, ip, m) ← wholeLength outside iend fuel (token % 16) (ip + 2) m
      let matchLength := int32 (matchLength + 4)
      let matchEnd := op + matchLength
      if matchEnd > oend then .ret (-1, m)
      else .next (ip, matchEnd, lz4CopyBytes outside .dst matchLength.toNat op (op - offset) m)

/-- The loop. -/
def lz4Loop (outside : Region → ℤ → UInt8) (iend oend : ℤ) :
    ℕ → ℤ → ℤ → Memory → Part Unit
  | 0, _, _, _ => .stuck
  | fuel + 1, ip, op, m => do
      let (token, ip, op, m) ← copyLiterals outside iend oend fuel ip op m
      let (ip, op, m) ← copyMatch outside iend oend fuel token ip op m
      lz4Loop outside iend oend fuel ip op m

/-- `lz4_decompress`: the value returned and the memory; the sizes of the arrays are those
the function is given. -/
def lz4Decompress (fuel : ℕ) (outside : Region → ℤ → UInt8) (src dst : Bytes) :
    Option (ℤ × Memory) :=
  if src = [] ∨ dst = [] then some (-1, ⟨src, dst, []⟩)
  else (lz4Loop outside src.length dst.length fuel 0 0 ⟨src, dst, []⟩).result

end LnxCad.Lz4
