import LnxCad.Zx0.RoundTrip

/-!
# Truncated streams

Behind the end of the input the bit reader supplies ones.  A number that is cut off ends there,
so that it may come out as another one; but the next thing that has to be a byte ends the
function, and no number can come out as that of the end marker unless it is in the marker.
-/

namespace LnxCad.Zx0

open Interleave

/-! ### Readers of a truncated stream -/

/-- A stream lies ahead of which some bytes at the end are missing. -/
def BitReader.Cut (br : BitReader) (ts : List Tok) : Prop :=
  ∃ lost, lost ≠ [] ∧ BitReader.Reads { br with src := br.src ++ lost } ts []

/-- The end of the input has been passed. -/
structure BitReader.Dry (br : BitReader) : Prop where
  src : br.src = []
  bitValue : br.bitValue = -1
  backtrack : br.backtrack = false

variable {br : BitReader} {ts : List Tok}

theorem BitReader.Dry.bit (h : br.Dry) :
  ∃ br', rdBit br = (true, br') ∧ br'.Dry
  := by
  obtain ⟨src, bitMask, bitValue, backtrack, lastByte⟩ := br
  obtain ⟨hsrc, hvalue, hback⟩ := h
  obtain rfl : src = [] := hsrc
  obtain rfl : bitValue = -1 := hvalue
  obtain rfl : backtrack = false := hback
  by_cases hmask : bitMask / 2 = 0
  · have hone : Int.land (-1) 128 = 128 := land_neg_one 128
    refine ⟨⟨[], 128, -1, false, lastByte⟩, ?_, rfl, rfl, rfl⟩
    simp [rdBit, hmask, rdByte, hone]
  · refine ⟨⟨[], bitMask / 2, -1, false, lastByte⟩, ?_, rfl, rfl, rfl⟩
    have hland := land_neg_one (bitMask / 2)
    have hne : ((bitMask / 2 : ℕ) : ℤ) ≠ 0 := by exact_mod_cast hmask
    simp only [rdBit, Bool.false_eq_true, if_false, if_neg hmask, hland]
    rw [decide_eq_true hne]

theorem BitReader.Dry.byte (h : br.Dry) :
  rdByte br = (-1, br)
  := by
  rw [rdByte, h.src]

/-- A bit is read, or the end of the input is passed and a one is supplied. -/
theorem BitReader.Cut.bit {b : Bool} (h : br.Cut (.bit b :: ts)) :
  ∃ br', (rdBit br = (b, br') ∧ br'.Cut ts) ∨ (rdBit br = (true, br') ∧ br'.Dry)
  := by
  obtain ⟨src, bitMask, bitValue, backtrack, lastByte⟩ := br
  obtain ⟨lost, hlost, hreads⟩ := h
  obtain ⟨br₁, hbit, hreads'⟩ := hreads.bit
  obtain rfl : backtrack = false := hreads.backtrack
  rw [rdBit, if_neg Bool.false_ne_true] at hbit
  dsimp only at hbit
  by_cases hmask : bitMask / 2 = 0
  · rw [if_pos hmask] at hbit
    cases src with
    | nil =>
        have hone : Int.land (-1) 128 = 128 := land_neg_one 128
        refine ⟨⟨[], 128, -1, false, lastByte⟩, Or.inr ⟨?_, rfl, rfl, rfl⟩⟩
        simp [rdBit, hmask, rdByte, hone]
    | cons c src =>
        simp only [rdByte, List.cons_append, Prod.mk.injEq] at hbit
        obtain ⟨rfl, rfl⟩ := hbit
        refine ⟨⟨src, 128, c.toNat, false, c.toNat⟩, Or.inl ⟨?_, lost, hlost, hreads'⟩⟩
        simp only [rdBit, Bool.false_eq_true, if_false, hmask, if_true]
        rfl
  · rw [if_neg hmask, Prod.mk.injEq] at hbit
    obtain ⟨rfl, rfl⟩ := hbit
    refine ⟨⟨src, bitMask / 2, bitValue, false, lastByte⟩, Or.inl ⟨?_, lost, hlost, hreads'⟩⟩
    simp only [rdBit, Bool.false_eq_true, if_false, if_neg hmask]

/-- A byte is read, or there is none. -/
theorem BitReader.Cut.byte {v : UInt8} (h : br.Cut (.byte v :: ts)) :
  rdByte br = (-1, br)
    ∨ ∃ br', rdByte br = ((v.toNat : ℤ), br') ∧ br'.Cut ts ∧ br'.lastByte = v.toNat
      ∧ br'.backtrack = false
  := by
  obtain ⟨src, bitMask, bitValue, backtrack, lastByte⟩ := br
  obtain ⟨lost, hlost, hreads⟩ := h
  obtain ⟨br₁, hbyte, hreads', hlast⟩ := hreads.byte
  cases src with
  | nil => exact Or.inl rfl
  | cons c src =>
      simp only [rdByte, List.cons_append, Prod.mk.injEq] at hbyte
      obtain ⟨hvalue, rfl⟩ := hbyte
      refine Or.inr ⟨⟨src, bitMask, bitValue, backtrack, c.toNat⟩, ?_, ⟨lost, hlost, hreads'⟩, hlast,
        hreads'.backtrack⟩
      rw [← hvalue]
      rfl

/-! ### Numbers -/

/-- Some bits are read, or the end of the input is passed at one of them. -/
def BitReader.Delivers : BitReader → List Bool → (BitReader → Prop) → Prop
  | br, [], Q => Q br
  | br, b :: bs, Q =>
      ∃ br', (rdBit br = (b, br') ∧ br'.Delivers bs Q) ∨ (rdBit br = (true, br') ∧ br'.Dry)

theorem BitReader.Cut.delivers {bits : List Bool} (h : br.Cut (bits.map Tok.bit ++ ts)) :
  br.Delivers bits (fun br' => br'.Cut ts)
  := by
  induction bits generalizing br with
  | nil => exact h
  | cons b bits ih =>
      obtain ⟨br', ⟨hbit, hcut⟩ | hdry⟩ := BitReader.Cut.bit h
      · exact ⟨br', Or.inl ⟨hbit, ih hcut⟩⟩
      · exact ⟨br', Or.inr hdry⟩

variable (M : Mode)

theorem rdEliasGamma_dry (inverted : Bool) (value : ℤ) {fuel : ℕ} (hbr : br.Dry) (hfuel : 0 < fuel) :
  ∃ br', rdEliasGamma M inverted fuel value br = .next (value, br') ∧ br'.Dry
  := by
  obtain ⟨fuel, rfl⟩ := Nat.exists_eq_succ_of_ne_zero (Nat.ne_of_gt hfuel)
  obtain ⟨br', hbit, hdry⟩ := hbr.bit
  exact ⟨br', by simp [rdEliasGamma, hbit], hdry⟩

/-- The lowest digits of a number complete the higher part of it, or the end of the input is
passed at one of them and a number comes out that is not larger if the digits are inverted. -/
theorem rdEliasGamma_delivers
    {inverted : Bool} {v k : ℕ} {Q : BitReader → Prop}
    (h : br.Delivers (EliasGamma.digits inverted v k) Q) (hone : 1 ≤ v >>> k) (hv : v < 2 ^ 31)
    {fuel : ℕ} (hfuel : k + 1 < fuel) :
  (∃ br', rdEliasGamma M inverted fuel (v >>> k : ℕ) br = .next (v, br') ∧ Q br')
    ∨ ∃ (u : ℕ) (br' : BitReader), rdEliasGamma M inverted fuel (v >>> k : ℕ) br = .next (u, br')
      ∧ br'.Dry ∧ 1 ≤ u ∧ u ≤ v + 1 ∧ (inverted = true → u ≤ v)
  := by
  induction k generalizing br fuel with
  | zero =>
      obtain ⟨fuel, rfl⟩ := Nat.exists_eq_succ_of_ne_zero (Nat.ne_zero_of_lt hfuel)
      obtain ⟨br', ⟨hbit, hQ⟩ | ⟨hbit, hdry⟩⟩ := h
      · exact Or.inl ⟨br', by simp [rdEliasGamma, hbit], hQ⟩
      · exact Or.inr ⟨v, br', by simp [rdEliasGamma, hbit], hdry, hone, Nat.le_succ v, fun _ => le_refl _⟩
  | succ k ih =>
      obtain ⟨fuel, rfl⟩ := Nat.exists_eq_succ_of_ne_zero (Nat.ne_zero_of_lt hfuel)
      have hstep := EliasGamma.shiftRight_mul_two_add v k
      have hle : v >>> k ≤ v := Nat.shiftRight_le v k
      obtain ⟨br₁, ⟨hzero, hrest⟩ | ⟨hstop, hdry⟩⟩ := h
      · obtain ⟨br₂, ⟨hdigit, hrest'⟩ | ⟨hdigit, hdry⟩⟩ := hrest
        · have hvalue : M.arith ((v >>> (k + 1) : ℕ) * 2
              + ((v.testBit k ^^ inverted) ^^ inverted).toNat) = .next (v >>> k : ℕ) := by
            rw [Bool.xor_assoc, Bool.xor_self, Bool.xor_false, M.arith_eq (by omega) (by omega)]
            congr 1
            omega
          simp only [rdEliasGamma, hzero, hdigit, hvalue, Bool.false_eq_true, if_false, Flow.next_bind]
          exact ih hrest' (by omega) (by omega)
        · -- the digit is missing: its place is taken by a one, and the number ends behind it
          have hvalue : M.arith ((v >>> (k + 1) : ℕ) * 2 + (true ^^ inverted).toNat)
              = .next ((v >>> (k + 1) * 2 + (true ^^ inverted).toNat : ℕ) : ℤ) := by
            have hdigit := Bool.toNat_le (true ^^ inverted)
            rw [M.arith_eq (by omega) (by omega)]
            congr 1
          obtain ⟨br₃, hlast, hdry'⟩ := rdEliasGamma_dry M inverted
            ((v >>> (k + 1) * 2 + (true ^^ inverted).toNat : ℕ) : ℤ) hdry (show 0 < fuel by omega)
          have hdigit' := Bool.toNat_le (true ^^ inverted)
          refine Or.inr ⟨v >>> (k + 1) * 2 + (true ^^ inverted).toNat, br₃, ?_, hdry', by omega, by omega, ?_⟩
          · simp only [rdEliasGamma, hzero, hdigit, hvalue, Bool.false_eq_true, if_false,
              Flow.next_bind, hlast]
          · rintro rfl
            simp only [Bool.xor_self, Bool.toNat_false]
            omega
      · refine Or.inr ⟨v >>> (k + 1), br₁, by simp [rdEliasGamma, hstop], hdry, hone, ?_, fun _ => ?_⟩
        · omega
        · omega

/-- A number is read back, or the end of the input is passed. -/
theorem rdEliasGamma_code_delivers
    {inverted : Bool} {v : ℕ} {Q : BitReader → Prop}
    (h : br.Delivers (EliasGamma.code inverted v) Q) (hv : v ≠ 0) (hlt : v < 2 ^ 31) {fuel : ℕ}
    (hfuel : 32 < fuel) :
  (∃ br', rdEliasGamma M inverted fuel 1 br = .next (v, br') ∧ Q br')
    ∨ ∃ (u : ℕ) (br' : BitReader), rdEliasGamma M inverted fuel 1 br = .next (u, br')
      ∧ br'.Dry ∧ 1 ≤ u ∧ u ≤ v + 1 ∧ (inverted = true → u ≤ v)
  := by
  have hlog : Nat.log2 v ≤ 30 := EliasGamma.log2_le_of_lt hlt
  have hshift := EliasGamma.shiftRight_log2 hv
  have hgamma := rdEliasGamma_delivers M h (by omega) hlt (show Nat.log2 v + 1 < fuel by omega)
  rwa [hshift] at hgamma

/-! ### Behind the end of the input -/

/-- Where an offset has to follow, the function returns. -/
theorem fromNewOffsets_dry {d : Decoder} (hdry : d.br.Dry) {f₁ : ℕ} (hf₁ : 1 < f₁) (f₂ : ℕ) :
  fromNewOffsets M f₁ f₂ d = .ret (-1) d.out
  := by
  obtain ⟨f₁, rfl⟩ := Nat.exists_eq_succ_of_ne_zero (Nat.ne_zero_of_lt hf₁)
  obtain ⟨br', hgamma, hdry'⟩ := rdEliasGamma_dry M true 1 hdry (show 0 < f₁ by omega)
  rw [fromNewOffsets, copyFromNewOffsets, hgamma, Flow.next_bind]
  dsimp only
  rw [if_neg (by omega), hdry'.byte]
  dsimp only
  rw [if_pos (by omega), Flow.ret_bind]

/-- Behind a block, an offset has to follow. -/
theorem afterBlock_dry {d : Decoder} (isLiterals : Bool) (hdry : d.br.Dry) {f₁ : ℕ} (hf₁ : 1 < f₁)
    (f₂ : ℕ) :
  afterBlock M isLiterals f₁ f₂ d = .ret (-1) d.out
  := by
  obtain ⟨br', hbit, hdry'⟩ := hdry.bit
  rw [afterBlock_new M hbit]
  exact fromNewOffsets_dry M hdry' hf₁ f₂

/-- A match of whatever length is copied or refused, and nothing follows it. -/
theorem copyMatchBytes_dry
    {d : Decoder} (hdry : d.br.Dry) (hone : 1 ≤ d.lastOffset) (hlast : d.lastOffset < 2 ^ 31)
    (hpos : d.outPos ≤ d.out.length) (hcap : d.out.length < 2 ^ 31) (k : ℕ) {f₁ : ℕ} (hf₁ : 1 < f₁)
    (f₂ : ℕ) :
  ∃ out, (copyMatchBytes M k d >>= fun d => afterMatch M f₁ f₂ d) = .ret (-1) out
  := by
  obtain ⟨-, -, out', -, hcopy⟩ | ⟨-, out', hcopy⟩ := copyMatchBytes_cases M k hone hlast hpos hcap
  · refine ⟨out', ?_⟩
    rw [hcopy, Flow.next_bind]
    exact afterBlock_dry M (d := { d with out := out', outPos := d.outPos + k }) false hdry hf₁ f₂
  · exact ⟨out', by rw [hcopy, Flow.ret_bind]⟩

/-! ### Blocks -/

variable {x : Bytes} {last : ℕ} {index : ℤ} {d : Decoder}

/-- Literals are copied from a truncated stream, or they are not all there. -/
theorem copyLiteralBytes_cut
    {k : ℕ} (h : d.Holds x last index) (hi : index + k < x.length)
    (hcut : d.br.Cut (((x.drop (index + 1).toNat).take k).map Tok.byte ++ ts)) :
  (∃ d', copyLiteralBytes M k d = .next d' ∧ d'.Holds x last (index + k) ∧ d'.br.Cut ts
      ∧ d'.out.length = d.out.length)
    ∨ ∃ out, copyLiteralBytes M k d = .ret (-1) out
  := by
  induction k generalizing d index with
  | zero =>
      left
      refine ⟨d, rfl, ?_, hcut, rfl⟩
      rw [Nat.cast_zero, add_zero]
      exact h
  | succ k ih =>
      have hpos := h.outPos
      have hroom := h.room
      have hnat : (index + 1).toNat = d.outPos := by omega
      have hlt : d.outPos < x.length := by omega
      rw [hnat, List.drop_eq_getElem_cons hlt, List.take_succ_cons, List.map_cons,
        List.cons_append] at hcut
      obtain hbyte | ⟨br, hbyte, hrest, -⟩ := hcut.byte
      · right
        refine ⟨d.out, ?_⟩
        simp only [copyLiteralBytes, hbyte]
        rw [if_pos (by omega)]
      · have hstep : copyLiteralBytes M (k + 1) d = copyLiteralBytes M k
            { d with br := br, out := d.out.set d.outPos x[d.outPos], outPos := d.outPos + 1 } := by
          simp only [copyLiteralBytes, hbyte]
          rw [if_neg (by omega), if_neg (by omega), Int.toNat_natCast, UInt8.ofNat_toNat,
            M.store_eq (by omega), Flow.next_bind]
        have hnext := h.put (List.getElem?_eq_getElem hlt) br
        rw [hstep, show index + ((k + 1 : ℕ) : ℤ) = index + 1 + (k : ℤ) by omega]
        obtain ⟨d', hcopy, hd', hcut', hlength⟩ | hret := ih hnext (by omega) (by
          rw [show (index + 1 + 1).toNat = d.outPos + 1 by omega]
          exact hrest)
        · exact Or.inl ⟨d', hcopy, hd', hcut', hlength.trans List.length_set⟩
        · exact Or.inr hret

/-- At literals, the decompressor copies them and goes on behind them, or it refuses them. -/
theorem decompressLoop_literals_cut
    {b : Block} (hd : d.Holds x last index) (hlo : -1 ≤ index) (hlt : index < b.index)
    (hi : b.index < x.length) (hx : x.length < 2 ^ 31)
    (hcut : d.br.Cut (gammaToks false (b.index - index).toNat
      ++ (((x.drop (index + 1).toNat).take (b.index - index).toNat).map Tok.byte ++ ts)))
    {fuel : ℕ} (hfuel : 32 < fuel) :
  (∃ d', decompressLoop M (fuel + 1) d = afterLiterals M fuel fuel d' ∧ d'.Holds x last b.index
      ∧ d'.br.Cut ts ∧ d'.out.length = d.out.length)
    ∨ ∃ out, decompressLoop M (fuel + 1) d = .ret (-1) out
  := by
  obtain ⟨length, hlength⟩ : ∃ length : ℕ, b.index - index = length :=
    ⟨(b.index - index).toNat, by omega⟩
  rw [hlength, Int.toNat_natCast] at hcut
  rw [decompressLoop_succ]
  obtain ⟨br, hgamma, hrest⟩ | ⟨u, br, hgamma, hdry, hone, -⟩ :=
    rdEliasGamma_code_delivers M hcut.delivers (by omega) (by omega) hfuel
  · have hd₁ := hd.setReader br
    rw [hgamma, Flow.next_bind]
    dsimp only
    rw [Int.toNat_natCast]
    obtain ⟨d', hcopy, hd', hcut', hout⟩ | ⟨out, hcopy⟩ :=
      copyLiteralBytes_cut M (k := length) hd₁ (by omega) hrest
    · left
      refine ⟨d', ?_, ?_, hcut', hout⟩
      · rw [hcopy, Flow.next_bind]
      · rw [show b.index = index + length by omega]
        exact hd'
    · right
      exact ⟨out, by rw [hcopy, Flow.ret_bind]⟩
  · right
    obtain ⟨u, rfl⟩ := Nat.exists_eq_succ_of_ne_zero (Nat.one_le_iff_ne_zero.mp hone)
    refine ⟨d.out, ?_⟩
    have hbyte : rdByte br = (-1, br) := hdry.byte
    rw [hgamma, Flow.next_bind]
    simp only [Int.toNat_natCast, copyLiteralBytes, hbyte]
    rw [if_pos (by omega), Flow.ret_bind]

/-- At a match of the last offset, the decompressor copies it and goes on behind it, or it
returns. -/
theorem afterLiterals_again_cut
    {b : Block} (hd : d.Holds x last index) (hlo : -1 ≤ index) (hlt : index < b.index)
    (hi : b.index < x.length) (hx : x.length < 2 ^ 31) (hlast : last ≠ 0)
    (hmatch : Matches x last index b.index) (hcap : d.out.length < 2 ^ 31)
    (hcut : d.br.Cut (.bit false :: gammaToks false (b.index - index).toNat ++ ts))
    {f₁ f₂ : ℕ} (hf₁ : 1 < f₁) (hf₂ : 32 < f₂) :
  (∃ d', afterLiterals M f₁ f₂ d = afterMatch M f₁ f₂ d' ∧ d'.Holds x last b.index ∧ d'.br.Cut ts
      ∧ d'.out.length = d.out.length)
    ∨ ∃ out, afterLiterals M f₁ f₂ d = .ret (-1) out
  := by
  obtain ⟨length, hlength⟩ : ∃ length : ℕ, b.index - index = length :=
    ⟨(b.index - index).toNat, by omega⟩
  have hend : b.index = index + length := by omega
  have hreach := (hmatch (index + 1).toNat (by omega) (by omega)).1
  have hpos := hd.outPos
  have hroom := hd.room
  rw [hlength, Int.toNat_natCast] at hcut
  obtain ⟨br, ⟨hbit, hrest⟩ | ⟨hbit, hdry⟩⟩ := BitReader.Cut.bit hcut
  · have hstep : afterLiterals M f₁ f₂ d = fromLastOffset M f₁ f₂ br d := by
      rw [afterLiterals, hbit]
      rfl
    rw [hstep, fromLastOffset]
    obtain ⟨br', hgamma, hrest'⟩ | ⟨u, br', hgamma, hdry, -⟩ :=
      rdEliasGamma_code_delivers M (BitReader.Cut.delivers hrest) (by omega) (by omega) hf₂
    · left
      have hd₁ := hd.setReader br'
      rw [hend] at hmatch
      obtain ⟨d', hcopy, hd', hbr, hout⟩ := copyMatchBytes_eq M hd₁ hx hlo hlast hmatch
      refine ⟨d', ?_, hend ▸ hd', ?_, hout⟩
      · rw [hgamma, Flow.next_bind]
        dsimp only
        rw [Int.toNat_natCast, hcopy, Flow.next_bind]
      · rw [hbr]
        exact hrest'
    · right
      rw [hgamma, Flow.next_bind]
      dsimp only
      rw [Int.toNat_natCast]
      apply copyMatchBytes_dry M (d := { d with br := br' }) hdry _ _ _ hcap u hf₁ f₂
      · rw [hd.lastOffset]
        omega
      · rw [hd.lastOffset]
        omega
      · dsimp only
        omega
  · right
    exact ⟨d.out, by rw [afterLiterals, hbit]; exact fromNewOffsets_dry M hdry hf₁ f₂⟩

/-- A length whose first bit is in the byte of an offset is delivered. -/
theorem BitReader.Cut.offset
    {offset : ℕ} {bits : List Bool} (h : br.Cut (offsetToks offset bits ++ ts)) (hbits : bits ≠ [])
    (hone : 1 ≤ offset) :
  rdByte br = (-1, br)
    ∨ ∃ (t : ℕ) (br₁ : BitReader), rdByte br = ((t : ℤ), br₁)
      ∧ (((offset - 1) / 128 + 1 : ℕ) : ℤ) * 128 - (t : ℤ) / 2 = offset
      ∧ BitReader.Delivers { br₁ with backtrack := true } bits (fun br' => br'.Cut ts)
  := by
  obtain ⟨b, bs, rfl⟩ := List.exists_cons_of_ne_nil hbits
  rw [offsetToks, List.cons_append] at h
  obtain hbyte | ⟨br₁, hbyte, hrest, hlast, hback⟩ := h.byte
  · exact Or.inl hbyte
  · right
    refine ⟨_, br₁, hbyte, offset_upper_sub_lower hone b, br₁, Or.inl ⟨?_, hrest.delivers⟩⟩
    exact rdBit_offsetByte hback hlast

/-- Behind a new offset, the decompressor copies the match and goes on behind it, or it
returns. -/
theorem fromNewOffset_cut
    {offset length : ℕ} (hd : d.Holds x last index) (hindex : 0 ≤ index) (hlt : 1 < length)
    (hi : index + length < x.length) (hx : x.length < 2 ^ 31) (hone : 1 ≤ offset)
    (hmax : offset ≤ 32640) (hmatch : Matches x offset index (index + length))
    (hcap : d.out.length < 2 ^ 31) {br : BitReader}
    (hdelivers : BitReader.Delivers { br with backtrack := true } (EliasGamma.code false (length - 1))
      (fun br' => br'.Cut ts))
    {f₁ : ℕ} (hf₁ : 32 < f₁) (f₂ : ℕ) :
  (∃ d', fromNewOffset M f₁ f₂ offset br d = afterMatch M f₁ f₂ d'
      ∧ d'.Holds x offset (index + length) ∧ d'.br.Cut ts ∧ d'.out.length = d.out.length)
    ∨ ∃ out, fromNewOffset M f₁ f₂ offset br d = .ret (-1) out
  := by
  have hpos := hd.outPos
  have hroom := hd.room
  rw [fromNewOffset]
  obtain ⟨br', hgamma, hrest⟩ | ⟨u, br', hgamma, hdry, -, hu, -⟩ :=
    rdEliasGamma_code_delivers M hdelivers (by omega) (by omega) hf₁
  · left
    have hd₁ : Decoder.Holds x offset index { d with br := br', lastOffset := offset } :=
      ⟨hd.outPos, hd.out, hd.room, rfl⟩
    have hvalue : M.arith (((length - 1 : ℕ) : ℤ) + 1) = .next (length : ℤ) := by
      rw [M.arith_eq (by omega) (by omega)]
      congr 1
      omega
    obtain ⟨d', hcopy, hd', hbr, hout⟩ :=
      copyMatchBytes_eq M hd₁ hx (by omega) (Nat.one_le_iff_ne_zero.mp hone) hmatch
    refine ⟨d', ?_, hd', ?_, hout⟩
    · rw [hgamma, Flow.next_bind]
      dsimp only
      rw [hvalue, Flow.next_bind, Int.toNat_natCast, hcopy, Flow.next_bind]
    · rw [hbr]
      exact hrest
  · right
    rw [hgamma, Flow.next_bind]
    dsimp only
    rw [M.arith_eq (by omega) (by omega), Flow.next_bind]
    apply copyMatchBytes_dry M (d := { d with br := br', lastOffset := offset }) hdry _ _ _ hcap
      ((u : ℤ) + 1).toNat (by omega) f₂
    · dsimp only
      omega
    · dsimp only
      omega
    · dsimp only
      omega

/-- At a match of a new offset, the decompressor copies it and goes on behind it, or it
returns. -/
theorem fromNewOffsets_fresh_cut
    {b : Block} (hd : d.Holds x last index) (hindex : 0 ≤ index) (hlt : index + 1 < b.index)
    (hi : b.index < x.length) (hx : x.length < 2 ^ 31) (hone : 1 ≤ b.offset)
    (hmax : b.offset ≤ 32640) (hmatch : Matches x b.offset index b.index)
    (hcap : d.out.length < 2 ^ 31)
    (hcut : d.br.Cut (gammaToks true ((b.offset - 1) / 128 + 1)
      ++ (offsetToks b.offset (EliasGamma.code false ((b.index - index).toNat - 1)) ++ ts)))
    {f₁ : ℕ} (hf₁ : 32 < f₁) (f₂ : ℕ) :
  (∃ d', fromNewOffsets M (f₁ + 1) f₂ d = afterMatch M f₁ f₂ d' ∧ d'.Holds x b.offset b.index
      ∧ d'.br.Cut ts ∧ d'.out.length = d.out.length)
    ∨ ∃ out, fromNewOffsets M (f₁ + 1) f₂ d = .ret (-1) out
  := by
  obtain ⟨length, hlength⟩ : ∃ length : ℕ, b.index - index = length :=
    ⟨(b.index - index).toNat, by omega⟩
  have hend : b.index = index + length := by omega
  rw [hlength, Int.toNat_natCast] at hcut
  rw [hend] at hi hmatch ⊢
  have hcode : EliasGamma.code false (length - 1) ≠ [] := by
    intro hnil
    have hlen := EliasGamma.length_code false (length - 1)
    have hgt := EliasGamma.length_pos (length - 1)
    rw [hnil, List.length_nil] at hlen
    omega
  obtain ⟨br, hmsb, hrest⟩ | ⟨u, br, hmsb, hdry, -, -, hle⟩ :=
    rdEliasGamma_code_delivers M hcut.delivers (by omega) (by omega) hf₁
  · obtain hbyte | ⟨t, br₁, hbyte, hoffset, hdelivers⟩ := BitReader.Cut.offset hrest hcode hone
    · right
      refine ⟨d.out, ?_⟩
      rw [fromNewOffsets, copyFromNewOffsets, hmsb, Flow.next_bind]
      dsimp only
      rw [if_neg (by omega), hbyte]
      dsimp only
      rw [if_pos (by omega), Flow.ret_bind]
    · have hstep : fromNewOffsets M (f₁ + 1) f₂ d = fromNewOffset M f₁ f₂ b.offset br₁ d := by
        rw [fromNewOffsets_succ, hmsb, Flow.next_bind]
        dsimp only
        rw [if_neg (by omega), hbyte]
        dsimp only
        rw [if_neg (by omega), M.arith_eq (by omega) (by omega), Flow.next_bind, hoffset,
          M.arith_eq (by omega) (by omega), Flow.next_bind]
      rw [hstep]
      exact fromNewOffset_cut M hd hindex (by omega) hi hx hone hmax hmatch hcap hdelivers hf₁ f₂
  · right
    refine ⟨d.out, ?_⟩
    have hne : (u : ℤ) ≠ 256 := by
      have := hle rfl
      omega
    rw [fromNewOffsets, copyFromNewOffsets, hmsb, Flow.next_bind]
    dsimp only
    rw [if_neg hne, hdry.byte]
    dsimp only
    rw [if_pos (by omega), Flow.ret_bind]

/-! ### Strings -/

/-- The function returns `-1`, or the string. -/
def Refused (x : Bytes) (r : Flow Unit) : Prop :=
  ∃ value out, r = .ret value out ∧ (value = -1 ∨ value = x.length ∧ out.take x.length = x)

/-- At the end marker, the whole string has been put out. -/
theorem fromNewOffsets_end_cut
    (hd : d.Holds x last index) (hend : index + 1 = x.length)
    (hcut : d.br.Cut (gammaToks true 256 ++ ts)) {f₁ : ℕ} (hf₁ : 32 < f₁) (f₂ : ℕ) :
  Refused x (fromNewOffsets M (f₁ + 1) f₂ d)
  := by
  have hpos : d.outPos = x.length := by
    have := hd.outPos
    omega
  have hout : d.out.take x.length = x := by
    have hout := hd.out
    rwa [hpos, List.take_length] at hout
  have hreturns : ∀ (u : ℕ) (br : BitReader), rdEliasGamma M true f₁ 1 d.br = .next (u, br) →
      (br.Dry ∨ u = 256) → Refused x (fromNewOffsets M (f₁ + 1) f₂ d) := by
    intro u br hgamma hdry
    by_cases hu : u = 256
    · subst hu
      refine ⟨d.outPos, d.out, ?_, Or.inr ⟨congrArg _ hpos, hout⟩⟩
      rw [fromNewOffsets_succ, hgamma, Flow.next_bind]
      rfl
    · refine ⟨-1, d.out, ?_, Or.inl rfl⟩
      rw [fromNewOffsets_succ, hgamma, Flow.next_bind]
      dsimp only
      rw [if_neg (by omega), (hdry.resolve_right hu).byte]
      rfl
  obtain ⟨br, hgamma, -⟩ | ⟨u, br, hgamma, hdry, -⟩ :=
    rdEliasGamma_code_delivers M hcut.delivers (by omega) (by omega) hf₁
  · exact hreturns 256 br hgamma (Or.inr rfl)
  · exact hreturns u br hgamma (Or.inl hdry)

/-- From every block on, the decompressor returns. -/
theorem afterBlock_steps_cut
    {isLiterals : Bool} {bs : List Block} (h : Steps x isLiterals last index bs)
    (hx : x.length < 2 ^ 31) (hlo : -1 ≤ index) (hd : d.Holds x last index)
    (hcap : d.out.length < 2 ^ 31) (hcut : d.br.Cut (blocksToks x last index bs ++ endToks))
    {f₁ f₂ : ℕ} (hf₁ : bs.length + 33 < f₁) (hf₂ : bs.length + 33 < f₂) :
  Refused x (afterBlock M isLiterals f₁ f₂ d)
  := by
  have hdry : ∀ {isLiterals : Bool} {d : Decoder} {f₁ f₂ : ℕ} {br : BitReader}, 1 < f₁ →
      rdBit d.br = (true, br) → br.Dry → Refused x (afterBlock M isLiterals f₁ f₂ d) := by
    intro isLiterals d f₁ f₂ br hf₁ hbit hdry
    rw [afterBlock_new M hbit]
    exact ⟨-1, d.out, fromNewOffsets_dry M hdry hf₁ f₂, Or.inl rfl⟩
  induction h generalizing d f₁ f₂ with
  | finish hend =>
      obtain ⟨f₁, rfl⟩ := Nat.exists_eq_succ_of_ne_zero (Nat.ne_zero_of_lt hf₁)
      obtain ⟨br, ⟨hbit, hrest⟩ | ⟨hbit, hbr⟩⟩ := BitReader.Cut.bit hcut
      · have hd₁ := hd.setReader br
        rw [afterBlock_new M hbit]
        rw [← List.append_nil (gammaToks true 256)] at hrest
        exact fromNewOffsets_end_cut M hd₁ hend hrest (by omega) f₂
      · exact hdry (by omega) hbit hbr
  | literals hb hlt hi hsteps ih =>
      rw [blocksToks_literals _ _ _ hb] at hcut
      rw [List.length_cons] at hf₁ hf₂
      obtain ⟨br, ⟨hbit, hrest⟩ | ⟨hbit, hbr⟩⟩ := hcut.bit
      · obtain ⟨f₂, rfl⟩ := Nat.exists_eq_succ_of_ne_zero (Nat.ne_zero_of_lt hf₂)
        have hd₁ := hd.setReader br
        have hbehind : afterBlock M false f₁ (f₂ + 1) d = decompressLoop M (f₂ + 1) { d with br := br } := by
          rw [afterBlock, if_neg Bool.false_ne_true, afterMatch, hbit]
          rfl
        obtain ⟨d', hloop, hd', hcut', hout⟩ | ⟨out, hloop⟩ :=
          decompressLoop_literals_cut M hd₁ hlo hlt hi hx hrest (show 32 < f₂ by omega)
        · have hnext := ih (by omega) hd' (hout ▸ hcap) hcut' (show _ < f₂ by omega) (show _ < f₂ by omega)
          rw [hbehind, hloop]
          exact hnext
        · exact ⟨-1, out, hbehind.trans hloop, Or.inl rfl⟩
      · exact hdry (by omega) hbit hbr
  | again hb hlast hlt hi hmatch hsteps ih =>
      rw [blocksToks_again _ _ hb hlast] at hcut
      rw [List.length_cons] at hf₁ hf₂
      obtain ⟨d', hagain, hd', hcut', hout⟩ | ⟨out, hagain⟩ := afterLiterals_again_cut M hd hlo hlt hi hx
        hlast hmatch hcap hcut (show 1 < f₁ by omega) (show 32 < f₂ by omega)
      · have hnext := ih (by omega) hd' (hout ▸ hcap) hcut' (show _ < f₁ by omega) (show _ < f₂ by omega)
        rw [show afterBlock M true f₁ f₂ d = afterMatch M f₁ f₂ d' from hagain]
        exact hnext
      · exact ⟨-1, out, hagain, Or.inl rfl⟩
  | fresh hb hone hmax hindex hlt hi hmatch hsteps ih =>
      rw [blocksToks_fresh _ _ (Nat.one_le_iff_ne_zero.mp hone) hb] at hcut
      rw [List.length_cons] at hf₁ hf₂
      obtain ⟨br, ⟨hbit, hrest⟩ | ⟨hbit, hbr⟩⟩ := hcut.bit
      · obtain ⟨f₁, rfl⟩ := Nat.exists_eq_succ_of_ne_zero (Nat.ne_zero_of_lt hf₁)
        have hd₁ := hd.setReader br
        rw [afterBlock_new M hbit]
        obtain ⟨d', hfresh, hd', hcut', hout⟩ | ⟨out, hfresh⟩ := fromNewOffsets_fresh_cut M hd₁ hindex hlt
          hi hx hone hmax hmatch hcap hrest (show 32 < f₁ by omega) f₂
        · have hnext := ih (by omega) hd' (hout ▸ hcap) hcut' (show _ < f₁ by omega) (show _ < f₂ by omega)
          rw [hfresh]
          exact hnext
        · exact ⟨-1, out, hfresh, Or.inl rfl⟩
      · exact hdry (by omega) hbit hbr

/-- A part of the stream of the blocks of a string is unpacked to the string, or refused. -/
theorem zx0DecompressTo_layout_cut
    {bs : List Block} (h : Steps x false 1 (-1) bs) (hpos : x ≠ []) (hx : x.length < 2 ^ 31)
    {cut lost : Bytes} (hcut : (layout 0 (streamToks x bs)).2 = cut ++ lost) (hlost : lost ≠ [])
    {out : Bytes} (hout : x.length ≤ out.length) (hcap : out.length < 2 ^ 31) {fuel : ℕ}
    (hfuel : x.length + 34 < fuel) :
  ∃ value out', zx0DecompressTo M fuel cut out = some (value, out')
    ∧ (value = -1 ∨ value = x.length ∧ out'.take x.length = x)
  := by
  by_cases hempty : cut = [] ∨ out = []
  · exact ⟨-1, out, if_pos hempty, Or.inl rfl⟩
  have hlen := List.length_pos_iff.mpr hpos
  have hblocks := h.length_le
  have hstream := h.eq_cons_streamToks hpos
  obtain ⟨fuel, rfl⟩ := Nat.exists_eq_succ_of_ne_zero (Nat.ne_zero_of_lt hfuel)
  have hahead : BitReader.Cut ⟨cut, 0, 0, false, 0⟩ (streamToks x bs) := by
    refine ⟨lost, hlost, rfl, 0, 0, by omega, by norm_num, fun h => absurd h (lt_irrefl 0), by omega, ?_⟩
    rw [List.append_nil]
    exact hcut.symm
  have hrefused : Refused x (decompressLoop M (fuel + 1) ⟨⟨cut, 0, 0, false, 0⟩, 1, out, 0⟩) := by
    cases h with
    | finish hend => omega
    | fresh hb hone hmax hindex => omega
    | @literals _ _ b bs hb hlt hi hsteps =>
        rw [blocksToks_literals _ _ _ hb, List.cons.injEq] at hstream
        obtain ⟨-, hstream⟩ := hstream
        rw [List.length_cons] at hblocks
        rw [← hstream] at hahead
        obtain ⟨d', hloop, hd', hcut', hlength⟩ | ⟨out', hloop⟩ := decompressLoop_literals_cut M
          (show Decoder.Holds x 1 (-1) ⟨⟨cut, 0, 0, false, 0⟩, 1, out, 0⟩ from ⟨rfl, rfl, hout, rfl⟩)
          (le_refl _) hlt hi hx hahead (show 32 < fuel by omega)
        · have hbehind := afterBlock_steps_cut M hsteps hx (by omega) hd' (hlength.trans_lt hcap) hcut'
            (show _ < fuel by omega) (show _ < fuel by omega)
          rw [hloop]
          exact hbehind
        · exact ⟨-1, out', hloop, Or.inl rfl⟩
  obtain ⟨value, out', hrun, hvalue⟩ := hrefused
  refine ⟨value, out', ?_, hvalue⟩
  rw [zx0DecompressTo, if_neg hempty, hrun]

/-- What is left of a packed string once some of it is missing is refused, unless it still says
everything about the string. -/
theorem zx0DecompressTo_cut
    {p : Pool} (hp : CalledPool p) {x : Bytes} (hpos : x ≠ []) (hx : x.length < 2 ^ 27)
    (new : NewMemory) {fuel : ℕ} (hfuel : x.length + 1 < fuel) :
  ∃ c p', zx0CompressC fuel new p x = some (0, c, p')
    ∧ ∀ (M : Mode) (cut lost out : Bytes) (fuel' : ℕ), c = cut ++ lost → lost ≠ [] →
      x.length ≤ out.length → out.length < 2 ^ 31 → x.length + 34 < fuel' →
      ∃ value out', zx0DecompressTo M fuel' cut out = some (value, out')
        ∧ (value = -1 ∨ value = x.length ∧ out'.take x.length = x)
  := by
  obtain ⟨bs, p', hsteps, hcall, -⟩ := zx0CompressC_eq hp.reusable hpos hx new hfuel
  refine ⟨_, p', hcall, ?_⟩
  intro M cut lost out fuel' hcut hlost hout hcap hfuel'
  exact zx0DecompressTo_layout_cut M hsteps hpos (by omega) hcut hlost hout hcap hfuel'

theorem zx0DecompressTo_cut_abab :
  ∃ c p', zx0CompressC 6 ⟨fun _ => 0, fun _ => 0⟩ Pool.init [97, 98, 97, 98] = some (0, c, p')
    ∧ ∀ (M : Mode) (cut lost out : Bytes) (fuel' : ℕ), c = cut ++ lost → lost ≠ [] →
      4 ≤ out.length → out.length < 2 ^ 31 → 38 < fuel' →
      ∃ value out', zx0DecompressTo M fuel' cut out = some (value, out')
        ∧ (value = -1 ∨ value = 4 ∧ out'.take 4 = [97, 98, 97, 98])
  := zx0DecompressTo_cut CalledPool.start (by simp) (by decide) _ (by decide)

end LnxCad.Zx0
