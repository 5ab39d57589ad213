import LnxCad.Lib.CString

/-!
# The LZ4 block format

A block is a list of sequences and the last literals.  A sequence consists of literals and
a match, which repeats what lies a given offset back in the output and may overlap what it
produces.  Its first byte, the token, has a half byte for each of the two lengths; a half
byte of 15 is continued by bytes that are added up, up to the first that is not 255.
-/

namespace Lz4Block

/-! ### Sequences -/

/-- A sequence: literals, and a match. -/
structure Sequence where
  literals : Bytes
  offset : ℕ
  matchLength : ℕ
  offset_pos : 1 ≤ offset
  offset_le : offset ≤ 65535
  four_le : 4 ≤ matchLength

/-- The number of bytes a sequence produces. -/
def Sequence.size (s : Sequence) : ℕ := s.literals.length + s.matchLength

/-- No match reaches back over the start of the output, of which `produced` bytes are
there. -/
def ReachBack : ℕ → List Sequence → Prop
  | _, [] => True
  | produced, s :: ss => s.offset ≤ produced + s.literals.length ∧ ReachBack (produced + s.size) ss

/-! ### Expansion -/

/-- An output continued by a number of bytes, each repeating the one an offset back. -/
def copyBack (offset : ℕ) : ℕ → Bytes → Bytes
  | 0, out => out
  | n + 1, out => copyBack offset n (out ++ [out.getD (out.length - offset) 0])

/-- An output continued by a sequence. -/
def Sequence.expand (s : Sequence) (out : Bytes) : Bytes :=
  copyBack s.offset s.matchLength (out ++ s.literals)

/-- An output continued by some sequences. -/
def expand (ss : List Sequence) (out : Bytes) : Bytes := ss.foldl (fun out s => s.expand out) out

/-! ### Encoding -/

/-- The bytes that continue the half byte of a length. -/
def lengthBytes (n : ℕ) : Bytes :=
  if n < 15 then [] else List.replicate ((n - 15) / 255) 255 ++ [UInt8.ofNat ((n - 15) % 255)]

/-- A token with a number of literals in its upper half, and the bytes that continue that
number. -/
def header (n low : ℕ) : Bytes := UInt8.ofNat (min n 15 * 16 + low) :: lengthBytes n

/-- The bytes of an offset, the lower one first. -/
def offsetBytes (offset : ℕ) : Bytes := [UInt8.ofNat (offset % 256), UInt8.ofNat (offset / 256)]

/-- The bytes of a sequence. -/
def Sequence.encode (s : Sequence) : Bytes :=
  header s.literals.length (min (s.matchLength - 4) 15) ++ s.literals ++ offsetBytes s.offset
    ++ lengthBytes (s.matchLength - 4)

/-- The bytes of some sequences. -/
def encodeSequences (ss : List Sequence) : Bytes := ss.flatMap Sequence.encode

/-- The bytes of a block. -/
def encode (ss : List Sequence) (last : Bytes) : Bytes :=
  encodeSequences ss ++ (header last.length 0 ++ last)

/-! ### Lengths -/

theorem length_copyBack (offset n : ℕ) (out : Bytes) :
  (copyBack offset n out).length = out.length + n
  := by
  induction n generalizing out with
  | zero => rfl
  | succ n ih =>
      rw [copyBack, ih, List.length_append, List.length_singleton]
      omega

theorem Sequence.length_expand (s : Sequence) (out : Bytes) :
  (s.expand out).length = out.length + s.size
  := by
  rw [expand, length_copyBack, List.length_append, size]
  omega

theorem expand_cons (s : Sequence) (ss : List Sequence) (out : Bytes) :
  expand (s :: ss) out = expand ss (s.expand out)
  := rfl

theorem expand_concat (ss : List Sequence) (s : Sequence) (out : Bytes) :
  expand (ss ++ [s]) out = s.expand (expand ss out)
  := by
  rw [expand, List.foldl_append]
  rfl

theorem length_le_expand (ss : List Sequence) (out : Bytes) :
  out.length ≤ (expand ss out).length
  := by
  induction ss generalizing out with
  | nil => exact le_refl _
  | cons s ss ih =>
      have hstep := ih (s.expand out)
      rw [s.length_expand] at hstep
      rw [expand_cons]
      omega

theorem encodeSequences_cons (s : Sequence) (ss : List Sequence) :
  encodeSequences (s :: ss) = s.encode ++ encodeSequences ss
  := rfl

theorem encodeSequences_concat (ss : List Sequence) (s : Sequence) :
  encodeSequences (ss ++ [s]) = encodeSequences ss ++ s.encode
  := by
  rw [encodeSequences, List.flatMap_append, List.flatMap_singleton]
  rfl

/-- No match of the sequences reaches back too far, nor does one of a sequence behind. -/
theorem ReachBack.concat
    {produced : ℕ} {ss : List Sequence} {s : Sequence} {out : Bytes} (hout : out.length = produced)
    (h : ReachBack produced ss) (hs : s.offset ≤ (expand ss out).length + s.literals.length) :
  ReachBack produced (ss ++ [s])
  := by
  induction ss generalizing produced out with
  | nil => exact ⟨hout ▸ hs, trivial⟩
  | cons t ss ih =>
      refine ⟨h.1, ih ?_ h.2 hs⟩
      rw [t.length_expand, hout]

/-! ### Tokens -/

theorem toNat_token {n low : ℕ} (hlow : low < 16) :
  (UInt8.ofNat (min n 15 * 16 + low)).toNat = min n 15 * 16 + low
  := by
  rw [UInt8.toNat_ofNat']
  omega

/-- The bytes of a long length are some bytes of 255 and one that is smaller. -/
theorem lengthBytes_run {k r : ℕ} (hr : r < 255) :
  lengthBytes (15 + (255 * k + r)) = List.replicate k 255 ++ [UInt8.ofNat r]
  := by
  have hk : (15 + (255 * k + r) - 15) / 255 = k := by omega
  have hmod : (15 + (255 * k + r) - 15) % 255 = r := by omega
  rw [lengthBytes, if_neg (by omega), hk, hmod]

theorem lengthBytes_short {n : ℕ} (h : n < 15) :
  lengthBytes n = []
  := if_pos h

/-- A length is bounded by its bytes. -/
theorem lt_length_lengthBytes (n : ℕ) :
  n < 15 + 255 * (lengthBytes n).length
  := by
  by_cases h : n < 15
  · omega
  · rw [lengthBytes, if_neg h, List.length_append, List.length_replicate, List.length_singleton]
    omega

theorem length_header (n low : ℕ) :
  (header n low).length = 1 + (lengthBytes n).length
  := by
  rw [header, List.length_cons, add_comm]

/-- The bytes of a sequence, in front of others, in the order in which they are read. -/
theorem Sequence.encode_append (s : Sequence) (rest : Bytes) :
  s.encode ++ rest = header s.literals.length (min (s.matchLength - 4) 15)
    ++ (s.literals ++ (offsetBytes s.offset ++ (lengthBytes (s.matchLength - 4) ++ rest)))
  := by
  simp only [Sequence.encode, List.append_assoc]

theorem Sequence.length_encode (s : Sequence) :
  s.encode.length = (header s.literals.length (min (s.matchLength - 4) 15)).length
    + s.literals.length + 2 + (lengthBytes (s.matchLength - 4)).length
  := by
  simp only [Sequence.encode, List.length_append, offsetBytes, List.length_cons, List.length_nil]

theorem Sequence.length_encode_pos (s : Sequence) :
  0 < s.encode.length
  := by
  rw [s.length_encode, length_header]
  omega

theorem toNat_offsetBytes {offset : ℕ} (h : offset ≤ 65535) :
  (UInt8.ofNat (offset % 256)).toNat + 256 * (UInt8.ofNat (offset / 256)).toNat = offset
  := by
  rw [UInt8.toNat_ofNat', UInt8.toNat_ofNat']
  omega

/-- Two bytes are the bytes of an offset. -/
theorem offsetBytes_toNat (a b : UInt8) :
  offsetBytes (a.toNat + 256 * b.toNat) = [a, b]
  := by
  have ha := a.toNat_lt
  have hb := b.toNat_lt
  rw [offsetBytes, show (a.toNat + 256 * b.toNat) % 256 = a.toNat by omega,
    show (a.toNat + 256 * b.toNat) / 256 = b.toNat by omega, UInt8.ofNat_toNat, UInt8.ofNat_toNat]

/-- Every byte is a token. -/
theorem token_toNat (t : UInt8) :
  UInt8.ofNat (t.toNat / 16 * 16 + t.toNat % 16) = t
  := by
  rw [Nat.div_add_mod', UInt8.ofNat_toNat]

/-- A list of bytes begins with bytes of 255 and a smaller one, or has no other bytes. -/
theorem run_cases (bytes : Bytes) :
  (∃ k r rest, r < 255 ∧ bytes = List.replicate k 255 ++ UInt8.ofNat r :: rest)
    ∨ bytes = List.replicate bytes.length 255
  := by
  induction bytes with
  | nil => exact Or.inr rfl
  | cons b bytes ih =>
      by_cases hb : b = 255
      · subst hb
        obtain ⟨k, r, rest, hr, rfl⟩ | hall := ih
        · exact Or.inl ⟨k + 1, r, rest, hr, rfl⟩
        · right
          rw [List.length_cons, List.replicate_succ, ← hall]
      · left
        have hlt : b.toNat < 255 := by
          have := b.toNat_lt
          have hne : b.toNat ≠ 255 := fun h => hb (UInt8.toNat_inj.mp h)
          omega
        exact ⟨0, b.toNat, bytes, hlt, by simp⟩

end Lz4Block
