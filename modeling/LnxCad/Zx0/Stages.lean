import LnxCad.Zx0.Decompress

/-!
# The stages of the decompressor

The decompressor stands at literals, behind literals, behind a match, or behind the
announcement of a new offset.  In between it copies bytes, if they are there and there is room
for them.
-/

namespace LnxCad.Zx0

variable (M : Mode)

/-- The decompressor behind the announcement of a new offset. -/
def fromNewOffsets (f₁ f₂ : ℕ) (d : Decoder) : Flow Unit :=
  copyFromNewOffsets M f₁ d >>= decompressLoop M f₂

/-- The decompressor behind a match. -/
def afterMatch (f₁ f₂ : ℕ) (d : Decoder) : Flow Unit :=
  let (isNew, br) := rdBit d.br
  if isNew then fromNewOffsets M f₁ f₂ { d with br := br }
  else decompressLoop M f₂ { d with br := br }

/-- A match of the last offset, and what follows. -/
def fromLastOffset (f₁ f₂ : ℕ) (br : BitReader) (d : Decoder) : Flow Unit := do
  let (length, br) ← rdEliasGamma M false f₂ 1 br
  let d ← copyMatchBytes M length.toNat { d with br := br }
  afterMatch M f₁ f₂ d

/-- A match of a new offset, and what follows; the reader stands behind the offset. -/
def fromNewOffset (f₁ f₂ : ℕ) (lastOffset : ℤ) (br : BitReader) (d : Decoder) : Flow Unit := do
  let (value, br) ← rdEliasGamma M false f₁ 1 { br with backtrack := true }
  let length ← M.arith (value + 1)
  let d ← copyMatchBytes M length.toNat { d with br := br, lastOffset := lastOffset }
  afterMatch M f₁ f₂ d

/-- The decompressor behind literals. -/
def afterLiterals (f₁ f₂ : ℕ) (d : Decoder) : Flow Unit :=
  let (isNew, br) := rdBit d.br
  if isNew then fromNewOffsets M f₁ f₂ { d with br := br } else fromLastOffset M f₁ f₂ br d

/-- The decompressor behind a block. -/
def afterBlock (isLiterals : Bool) (f₁ f₂ : ℕ) (d : Decoder) : Flow Unit :=
  if isLiterals then afterLiterals M f₁ f₂ d else afterMatch M f₁ f₂ d

theorem decompressLoop_succ (fuel : ℕ) (d : Decoder) :
  decompressLoop M (fuel + 1) d = (do
    let (length, br) ← rdEliasGamma M false fuel 1 d.br
    let d ← copyLiteralBytes M length.toNat { d with br := br }
    afterLiterals M fuel fuel d)
  := rfl

/-- Behind a new offset comes its match. -/
theorem fromNewOffsets_succ (f₁ f₂ : ℕ) (d : Decoder) :
  fromNewOffsets M (f₁ + 1) f₂ d = (do
    let (offset, br) ← rdEliasGamma M true f₁ 1 d.br
    if offset = 256 then Flow.ret d.outPos d.out
    else
      let (t, br) := rdByte br
      if t < 0 then Flow.ret (-1) d.out
      else
        let upper ← M.arith (offset * 128)
        let lastOffset ← M.arith (upper - t / 2)
        fromNewOffset M f₁ f₂ lastOffset br d)
  := by
  rw [fromNewOffsets, copyFromNewOffsets, Flow.bind_assoc]
  apply Flow.bind_congr
  rintro ⟨offset, br⟩
  dsimp only
  split
  · rfl
  cases rdByte br with
  | mk t br =>
      dsimp only
      split
      · rfl
      rw [Flow.bind_assoc]
      apply Flow.bind_congr
      intro upper
      rw [Flow.bind_assoc]
      apply Flow.bind_congr
      intro lastOffset
      rw [Flow.bind_assoc]
      apply Flow.bind_congr
      rintro ⟨value, br⟩
      dsimp only
      rw [Flow.bind_assoc]
      apply Flow.bind_congr
      intro length
      rw [Flow.bind_assoc]
      apply Flow.bind_congr
      intro d
      rw [afterMatch]
      cases rdBit d.br with
      | mk more br =>
          cases more with
          | false => rfl
          | true => rfl

/-- Behind an announcement of a new offset it does not matter which block comes before. -/
theorem afterBlock_new {isLiterals : Bool} {d : Decoder} {br : BitReader}
    (h : rdBit d.br = (true, br)) (f₁ f₂ : ℕ) :
  afterBlock M isLiterals f₁ f₂ d = fromNewOffsets M f₁ f₂ { d with br := br }
  := by
  cases isLiterals with
  | false => simp [afterBlock, afterMatch, h]
  | true => simp [afterBlock, afterLiterals, h]

/-! ### Copies -/

/-- The reader behind some bytes. -/
def skipBytes : ℕ → BitReader → BitReader
  | 0, br => br
  | k + 1, br => skipBytes k (rdByte br).2

/-- Literals are copied, or the function returns because the input or the output ends. -/
theorem copyLiteralBytes_cases (k : ℕ) {d : Decoder} (hpos : d.outPos ≤ d.out.length) :
  (k ≤ d.br.src.length ∧ d.outPos + k ≤ d.out.length ∧ ∃ out', out'.length = d.out.length
      ∧ copyLiteralBytes M k d
        = .next { d with br := skipBytes k d.br, out := out', outPos := d.outPos + k })
    ∨ (d.br.src.length < k ∨ d.out.length < d.outPos + k)
      ∧ ∃ out', copyLiteralBytes M k d = .ret (-1) out'
  := by
  induction k generalizing d with
  | zero => exact Or.inl ⟨Nat.zero_le _, hpos, d.out, rfl, rfl⟩
  | succ k ih =>
      obtain ⟨⟨src, bitMask, bitValue, backtrack, lastByte⟩, lastOffset, out, outPos⟩ := d
      dsimp only at hpos ⊢
      cases src with
      | nil =>
          right
          refine ⟨Or.inl (Nat.succ_pos k), out, ?_⟩
          simp [copyLiteralBytes, rdByte]
      | cons c src =>
          have hbyte : rdByte ⟨c :: src, bitMask, bitValue, backtrack, lastByte⟩
              = ((c.toNat : ℤ), ⟨src, bitMask, bitValue, backtrack, c.toNat⟩) := rfl
          by_cases hroom : outPos < out.length
          · have hstep : copyLiteralBytes M (k + 1)
                ⟨⟨c :: src, bitMask, bitValue, backtrack, lastByte⟩, lastOffset, out, outPos⟩
                = copyLiteralBytes M k ⟨⟨src, bitMask, bitValue, backtrack, c.toNat⟩, lastOffset,
                  out.set outPos c, outPos + 1⟩ := by
              simp only [copyLiteralBytes, hbyte]
              rw [if_neg (by omega), if_neg (by omega), M.store_eq hroom, Flow.next_bind,
                Int.toNat_natCast, UInt8.ofNat_toNat]
            rw [hstep, List.length_cons]
            obtain ⟨hsrc, hfits, out', hlength, hrun⟩ | ⟨hshort, out', hrun⟩ := ih
              (d := ⟨⟨src, bitMask, bitValue, backtrack, c.toNat⟩, lastOffset, out.set outPos c,
                outPos + 1⟩) (by simpa using hroom)
            · left
              dsimp only at hsrc hfits hlength hrun
              rw [List.length_set] at hfits hlength
              refine ⟨by omega, by omega, out', hlength, ?_⟩
              rw [hrun, show outPos + (k + 1) = outPos + 1 + k by omega]
              rfl
            · right
              dsimp only at hshort
              rw [List.length_set] at hshort
              exact ⟨by omega, out', hrun⟩
          · right
            refine ⟨Or.inr (by omega), out, ?_⟩
            simp only [copyLiteralBytes, hbyte]
            rw [if_neg (by omega), if_pos (by omega)]

/-- A match is copied, or the function returns because it reaches back too far or the output
ends. -/
theorem copyMatchBytes_cases
    (k : ℕ) {d : Decoder} (hone : 1 ≤ d.lastOffset) (hlast : d.lastOffset < 2 ^ 31)
    (hpos : d.outPos ≤ d.out.length) (hcap : d.out.length < 2 ^ 31) :
  ((k = 0 ∨ d.lastOffset ≤ d.outPos) ∧ d.outPos + k ≤ d.out.length
      ∧ ∃ out', out'.length = d.out.length
        ∧ copyMatchBytes M k d = .next { d with out := out', outPos := d.outPos + k })
    ∨ (d.outPos < d.lastOffset ∨ d.out.length < d.outPos + k)
      ∧ ∃ out', copyMatchBytes M k d = .ret (-1) out'
  := by
  induction k generalizing d with
  | zero => exact Or.inl ⟨Or.inl rfl, hpos, d.out, rfl, rfl⟩
  | succ k ih =>
      have hsrc : M.arith (d.outPos - d.lastOffset) = .next (d.outPos - d.lastOffset) :=
        M.arith_eq (by omega) (by omega)
      by_cases hcopy : d.lastOffset ≤ d.outPos ∧ d.outPos < d.out.length
      · obtain ⟨hback, hroom⟩ := hcopy
        have hlt : ((d.outPos : ℤ) - d.lastOffset).toNat < d.out.length := by omega
        have hload := M.load_eq (List.getElem?_eq_getElem hlt)
          (show ((d.outPos : ℤ) - d.lastOffset).toNat < d.outPos by omega)
        have hstep : copyMatchBytes M (k + 1) d = copyMatchBytes M k
            { d with out := d.out.set d.outPos d.out[((d.outPos : ℤ) - d.lastOffset).toNat],
                     outPos := d.outPos + 1 } := by
          rw [copyMatchBytes, hsrc, Flow.next_bind, if_neg (by omega), hload, Flow.next_bind,
            M.store_eq hroom, Flow.next_bind]
        rw [hstep]
        obtain ⟨-, hfits, out', hlength, hrun⟩ | ⟨hshort, out', hrun⟩ := ih
          (d := { d with out := d.out.set d.outPos d.out[((d.outPos : ℤ) - d.lastOffset).toNat],
                         outPos := d.outPos + 1 }) hone hlast (by simpa using hroom)
          (by simpa using hcap)
        · left
          dsimp only at hfits hlength hrun
          rw [List.length_set] at hfits hlength
          refine ⟨Or.inr hback, by omega, out', hlength, ?_⟩
          rw [hrun, show d.outPos + (k + 1) = d.outPos + 1 + k by omega]
        · right
          dsimp only at hshort
          rw [List.length_set] at hshort
          exact ⟨by omega, out', hrun⟩
      · right
        refine ⟨by omega, d.out, ?_⟩
        rw [copyMatchBytes, hsrc, Flow.next_bind, if_pos (by omega)]

end LnxCad.Zx0
