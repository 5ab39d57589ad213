import LnxCad.Zx0.Calls
import LnxCad.Zx0.Reading
import LnxCad.Zx0.Stages

/-!
# What is packed is unpacked

The decompressor follows the blocks of a string: it reads the announcement of each block,
which together with the kind of the block before says what follows, and copies the bytes
of the block.  So it gives back what the compressor was given.
-/

namespace LnxCad.Zx0

open Interleave

/-! ### The output so far -/

/-- The output agrees with a string up to a position, and has room for all of it. -/
structure Decoder.Holds (x : Bytes) (last : ℕ) (index : ℤ) (d : Decoder) : Prop where
  outPos : (d.outPos : ℤ) = index + 1
  out : d.out.take d.outPos = x.take d.outPos
  room : x.length ≤ d.out.length
  lastOffset : d.lastOffset = last

theorem Decoder.Holds.setReader {x : Bytes} {last : ℕ} {index : ℤ} {d : Decoder}
    (h : d.Holds x last index) (br : BitReader) :
  Decoder.Holds x last index { d with br := br }
  := ⟨h.outPos, h.out, h.room, h.lastOffset⟩

variable (M : Mode) {x : Bytes} {last : ℕ} {index : ℤ} {d : Decoder} {ts : List Tok} {rest : Bytes}

theorem take_set_succ {out : Bytes} {pos : ℕ} (h : pos < out.length) (v : UInt8) :
  (out.set pos v).take (pos + 1) = out.take pos ++ [v]
  := by
  rw [List.take_add_one, List.take_set_of_le (le_refl pos), List.getElem?_set_self h]
  rfl

/-- The next byte is put into the output. -/
theorem Decoder.Holds.put
    (h : d.Holds x last index) {v : UInt8} (hv : x[d.outPos]? = some v) (br : BitReader) :
  Decoder.Holds x last (index + 1)
    { d with br := br, out := d.out.set d.outPos v, outPos := d.outPos + 1 }
  := by
  have hlt := (List.getElem?_eq_some_iff.mp hv).1
  have hroom := h.room
  refine ⟨?_, ?_, ?_, h.lastOffset⟩
  · have := h.outPos
    dsimp only
    omega
  · dsimp only
    rw [take_set_succ (by omega), h.out, List.take_add_one, hv]
    rfl
  · dsimp only
    rw [List.length_set]
    exact hroom

/-! ### Copying -/

/-- Literals are copied from the stream. -/
theorem copyLiteralBytes_eq
    {k : ℕ} (h : d.Holds x last index) (hi : index + k < x.length)
    (hreads : d.br.Reads (((x.drop (index + 1).toNat).take k).map Tok.byte ++ ts) rest) :
  ∃ d', copyLiteralBytes M k d = .next d' ∧ d'.Holds x last (index + k) ∧ d'.br.Reads ts rest
  := by
  induction k generalizing d index with
  | zero =>
      refine ⟨d, rfl, ?_, hreads⟩
      rw [Nat.cast_zero, add_zero]
      exact h
  | succ k ih =>
      have hpos := h.outPos
      have hroom := h.room
      have hnat : (index + 1).toNat = d.outPos := by omega
      have hlt : d.outPos < x.length := by omega
      rw [hnat, List.drop_eq_getElem_cons hlt, List.take_succ_cons, List.map_cons,
        List.cons_append] at hreads
      obtain ⟨br, hbyte, hrest, -⟩ := hreads.byte
      have hnext := h.put (List.getElem?_eq_getElem hlt) br
      obtain ⟨d', hcopy, hd', hreads'⟩ := ih hnext (by omega) (by
        rw [show (index + 1 + 1).toNat = d.outPos + 1 by omega]
        exact hrest)
      refine ⟨d', ?_, ?_, hreads'⟩
      · simp only [copyLiteralBytes, hbyte]
        rw [if_neg (by omega), if_neg (by omega), Int.toNat_natCast, UInt8.ofNat_toNat,
          M.store_eq (by omega), Flow.next_bind]
        exact hcopy
      · rw [show index + ((k + 1 : ℕ) : ℤ) = index + 1 + (k : ℤ) by omega]
        exact hd'

/-- A match is copied from the output. -/
theorem copyMatchBytes_eq
    {k : ℕ} (h : d.Holds x last index) (hx : x.length < 2 ^ 31) (hlo : -1 ≤ index)
    (hlast : last ≠ 0) (hmatch : Matches x last index (index + k)) :
  ∃ d', copyMatchBytes M k d = .next d' ∧ d'.Holds x last (index + k) ∧ d'.br = d.br
    ∧ d'.out.length = d.out.length
  := by
  induction k generalizing d index with
  | zero =>
      refine ⟨d, rfl, ?_, rfl, rfl⟩
      rw [Nat.cast_zero, add_zero]
      exact h
  | succ k ih =>
      have hpos := h.outPos
      have hroom := h.room
      obtain ⟨hle, hlt, heq⟩ := hmatch d.outPos (by omega) (by omega)
      have hsource : d.out[d.outPos - last]? = x[d.outPos]? := by
        have hbefore : d.outPos - last < d.outPos := by omega
        rw [heq, ← List.getElem?_take_of_lt hbefore, h.out, List.getElem?_take_of_lt hbefore]
      have hnext := h.put (List.getElem?_eq_getElem hlt) d.br
      obtain ⟨d', hcopy, hd', hbr, hlength⟩ := ih hnext (by omega) (by
        intro j hj hj'
        apply hmatch j
        · omega
        · push_cast
          omega)
      refine ⟨d', ?_, ?_, hbr, hlength.trans List.length_set⟩
      · have hsrc : M.arith (d.outPos - d.lastOffset) = .next ((d.outPos - last : ℕ) : ℤ) := by
          rw [h.lastOffset, M.arith_eq (by omega) (by omega), Nat.cast_sub hle]
        rw [copyMatchBytes, hsrc, Flow.next_bind, if_neg (by omega), Int.toNat_natCast,
          M.load_eq (hsource.trans (List.getElem?_eq_getElem hlt)) (by omega), Flow.next_bind,
          M.store_eq (by omega), Flow.next_bind]
        exact hcopy
      · rw [show index + ((k + 1 : ℕ) : ℤ) = index + 1 + (k : ℤ) by omega]
        exact hd'

/-! ### Blocks -/

/-- At literals, the decompressor copies them and goes on behind them. -/
theorem decompressLoop_literals
    {b : Block} (hd : d.Holds x last index) (hlo : -1 ≤ index) (hlt : index < b.index)
    (hi : b.index < x.length) (hx : x.length < 2 ^ 31)
    (hreads : d.br.Reads (gammaToks false (b.index - index).toNat
      ++ (((x.drop (index + 1).toNat).take (b.index - index).toNat).map Tok.byte ++ ts)) rest)
    {fuel : ℕ} (hfuel : 31 < fuel) :
  ∃ d', decompressLoop M (fuel + 1) d = afterLiterals M fuel fuel d' ∧ d'.Holds x last b.index
    ∧ d'.br.Reads ts rest
  := by
  obtain ⟨length, hlength⟩ : ∃ length : ℕ, b.index - index = length :=
    ⟨(b.index - index).toNat, by omega⟩
  rw [hlength, Int.toNat_natCast] at hreads
  obtain ⟨br, hgamma, hrest⟩ := hreads.gamma M (by omega) (by omega) hfuel
  have hd₁ := hd.setReader br
  obtain ⟨d', hcopy, hd', hreads'⟩ := copyLiteralBytes_eq M (k := length) hd₁ (by omega) hrest
  refine ⟨d', ?_, ?_, hreads'⟩
  · rw [decompressLoop_succ, hgamma]
    simp only [Flow.next_bind, Int.toNat_natCast, hcopy]
  · rw [show b.index = index + length by omega]
    exact hd'

/-- At a match of the last offset, the decompressor copies it and goes on behind it. -/
theorem afterLiterals_again
    {b : Block} (hd : d.Holds x last index) (hlo : -1 ≤ index) (hlt : index < b.index)
    (hi : b.index < x.length) (hx : x.length < 2 ^ 31) (hlast : last ≠ 0)
    (hmatch : Matches x last index b.index)
    (hreads : d.br.Reads (.bit false :: gammaToks false (b.index - index).toNat ++ ts) rest)
    (f₁ : ℕ) {f₂ : ℕ} (hf₂ : 31 < f₂) :
  ∃ d', afterLiterals M f₁ f₂ d = afterMatch M f₁ f₂ d' ∧ d'.Holds x last b.index
    ∧ d'.br.Reads ts rest
  := by
  obtain ⟨length, hlength⟩ : ∃ length : ℕ, b.index - index = length :=
    ⟨(b.index - index).toNat, by omega⟩
  have hend : b.index = index + length := by omega
  rw [hlength, Int.toNat_natCast] at hreads
  obtain ⟨br, hbit, hrest⟩ := BitReader.Reads.bit hreads
  obtain ⟨br', hgamma, hrest'⟩ := BitReader.Reads.gamma M hrest (by omega) (by omega) hf₂
  have hd₁ := hd.setReader br'
  rw [hend] at hmatch
  obtain ⟨d', hcopy, hd', hbr, -⟩ := copyMatchBytes_eq M hd₁ hx hlo hlast hmatch
  refine ⟨d', ?_, hend ▸ hd', ?_⟩
  · simp only [afterLiterals, fromLastOffset, hbit, Bool.false_eq_true, if_false, hgamma,
      Flow.next_bind, Int.toNat_natCast, hcopy]
  · rw [hbr]
    exact hrest'

/-- At a match of a new offset, the decompressor copies it and goes on behind it. -/
theorem fromNewOffsets_fresh
    {b : Block} (hd : d.Holds x last index) (hlo : -1 ≤ index) (hlt : index + 1 < b.index)
    (hi : b.index < x.length) (hx : x.length < 2 ^ 31) (hone : 1 ≤ b.offset)
    (hmax : b.offset ≤ 32640) (hmatch : Matches x b.offset index b.index)
    (hreads : d.br.Reads (gammaToks true ((b.offset - 1) / 128 + 1)
      ++ (offsetToks b.offset (EliasGamma.code false ((b.index - index).toNat - 1)) ++ ts)) rest)
    {f₁ : ℕ} (hf₁ : 31 < f₁) (f₂ : ℕ) :
  ∃ d', fromNewOffsets M (f₁ + 1) f₂ d = afterMatch M f₁ f₂ d' ∧ d'.Holds x b.offset b.index
    ∧ d'.br.Reads ts rest
  := by
  obtain ⟨length, hlength⟩ : ∃ length : ℕ, b.index - index = length :=
    ⟨(b.index - index).toNat, by omega⟩
  have hend : b.index = index + length := by omega
  rw [hlength, Int.toNat_natCast] at hreads
  obtain ⟨br, hmsb, hrest⟩ := BitReader.Reads.gamma M hreads (by omega) (by omega) hf₁
  obtain ⟨t, br₁, br', hbyte, hoffset, hgamma, hrest'⟩ :=
    BitReader.Reads.offset M hrest hone (by omega) (by omega) hf₁
  have hd₁ : Decoder.Holds x b.offset index { d with br := br', lastOffset := b.offset } :=
    ⟨hd.outPos, hd.out, hd.room, rfl⟩
  have hvalue : M.arith (((length - 1 : ℕ) : ℤ) + 1) = .next (length : ℤ) := by
    rw [M.arith_eq (by omega) (by omega)]
    congr 1
    omega
  rw [hend] at hmatch
  obtain ⟨d', hcopy, hd', hbr, -⟩ := copyMatchBytes_eq M hd₁ hx hlo (Nat.one_le_iff_ne_zero.mp hone) hmatch
  refine ⟨d', ?_, hend ▸ hd', ?_⟩
  · have hne : (((b.offset - 1) / 128 + 1 : ℕ) : ℤ) ≠ 256 := by omega
    have hnonneg : ¬ (t : ℤ) < 0 := by omega
    rw [fromNewOffsets_succ, hmsb, Flow.next_bind]
    dsimp only
    rw [if_neg hne, hbyte]
    dsimp only
    rw [if_neg hnonneg, M.arith_eq (by omega) (by omega), Flow.next_bind, hoffset,
      M.arith_eq (by omega) (by omega), Flow.next_bind, fromNewOffset, hgamma, Flow.next_bind]
    dsimp only
    rw [hvalue, Flow.next_bind, Int.toNat_natCast, hcopy, Flow.next_bind]
  · rw [hbr]
    exact hrest'

/-- At the end marker, the decompressor returns the number of bytes. -/
theorem fromNewOffsets_end
    (hreads : d.br.Reads (gammaToks true 256 ++ ts) rest) {f₁ : ℕ} (hf₁ : 31 < f₁) (f₂ : ℕ) :
  fromNewOffsets M (f₁ + 1) f₂ d = .ret d.outPos d.out
  := by
  obtain ⟨br, hgamma, -⟩ := hreads.gamma M (by omega) (by omega) hf₁
  simp [fromNewOffsets, copyFromNewOffsets, hgamma]

/-! ### Strings -/

/-- From every block on, the decompressor comes to the end of the string. -/
theorem afterBlock_steps
    {isLiterals : Bool} {bs : List Block} (h : Steps x isLiterals last index bs)
    (hx : x.length < 2 ^ 31) (hlo : -1 ≤ index) (hd : d.Holds x last index)
    (hreads : d.br.Reads (blocksToks x last index bs ++ endToks) rest) {f₁ f₂ : ℕ}
    (hf₁ : bs.length + 32 < f₁) (hf₂ : bs.length + 32 < f₂) :
  ∃ out, afterBlock M isLiterals f₁ f₂ d = .ret x.length out ∧ out.take x.length = x
  := by
  induction h generalizing d f₁ f₂ with
  | finish hend =>
      obtain ⟨br, hbit, hrest⟩ := BitReader.Reads.bit hreads
      obtain ⟨f₁, rfl⟩ := Nat.exists_eq_succ_of_ne_zero (Nat.ne_zero_of_lt hf₁)
      have hpos : d.outPos = x.length := by
        have := hd.outPos
        omega
      refine ⟨d.out, ?_, ?_⟩
      · rw [← List.append_nil (gammaToks true 256)] at hrest
        rw [afterBlock_new M hbit, fromNewOffsets_end M hrest (by omega)]
        dsimp only
        rw [hpos]
      · have hout := hd.out
        rwa [hpos, List.take_length] at hout
  | literals hb hlt hi hsteps ih =>
      rw [blocksToks_literals _ _ _ hb] at hreads
      obtain ⟨br, hbit, hrest⟩ := hreads.bit
      obtain ⟨f₂, rfl⟩ := Nat.exists_eq_succ_of_ne_zero (Nat.ne_zero_of_lt hf₂)
      rw [List.length_cons] at hf₁ hf₂
      have hd₁ := hd.setReader br
      obtain ⟨d', hloop, hd', hreads'⟩ :=
        decompressLoop_literals M hd₁ hlo hlt hi hx hrest (show 31 < f₂ by omega)
      obtain ⟨out, hrun, hout⟩ := ih (by omega) hd' hreads' (show _ < f₂ by omega) (show _ < f₂ by omega)
      refine ⟨out, ?_, hout⟩
      rw [← hrun, afterBlock, if_neg Bool.false_ne_true, afterMatch, hbit]
      exact hloop
  | again hb hlast hlt hi hmatch hsteps ih =>
      rw [blocksToks_again _ _ hb hlast] at hreads
      rw [List.length_cons] at hf₁ hf₂
      obtain ⟨d', hagain, hd', hreads'⟩ :=
        afterLiterals_again M hd hlo hlt hi hx hlast hmatch hreads f₁ (show 31 < f₂ by omega)
      obtain ⟨out, hrun, hout⟩ := ih (by omega) hd' hreads' (show _ < f₁ by omega) (show _ < f₂ by omega)
      refine ⟨out, ?_, hout⟩
      rw [← hrun]
      exact hagain
  | fresh hb hone hmax hindex hlt hi hmatch hsteps ih =>
      rw [blocksToks_fresh _ _ (Nat.one_le_iff_ne_zero.mp hone) hb] at hreads
      obtain ⟨br, hbit, hrest⟩ := hreads.bit
      obtain ⟨f₁, rfl⟩ := Nat.exists_eq_succ_of_ne_zero (Nat.ne_zero_of_lt hf₁)
      rw [List.length_cons] at hf₁ hf₂
      have hd₁ := hd.setReader br
      obtain ⟨d', hfresh, hd', hreads'⟩ :=
        fromNewOffsets_fresh M hd₁ hlo hlt hi hx hone hmax hmatch hrest (show 31 < f₁ by omega) f₂
      obtain ⟨out, hrun, hout⟩ := ih (by omega) hd' hreads' (show _ < f₁ by omega) (show _ < f₂ by omega)
      refine ⟨out, ?_, hout⟩
      rw [← hrun, afterBlock_new M hbit]
      exact hfresh

/-- The stream of the blocks of a string is unpacked to the string, whatever follows it. -/
theorem zx0DecompressTo_layout
    {bs : List Block} (h : Steps x false 1 (-1) bs) (hpos : x ≠ []) (hx : x.length < 2 ^ 31)
    (rest : Bytes) {out : Bytes} (hout : x.length ≤ out.length) {fuel : ℕ}
    (hfuel : x.length + 33 < fuel) :
  ∃ out', zx0DecompressTo M fuel ((layout 0 (streamToks x bs)).2 ++ rest) out
      = some ((x.length : ℤ), out')
    ∧ out'.take x.length = x
  := by
  have hlen := List.length_pos_iff.mpr hpos
  have hblocks := h.length_le
  have hstream := h.eq_cons_streamToks hpos
  obtain ⟨fuel, rfl⟩ := Nat.exists_eq_succ_of_ne_zero (Nat.ne_zero_of_lt hfuel)
  have hne : ¬ ((layout 0 (streamToks x bs)).2 ++ rest = [] ∨ out = []) := by
    have hsize := congrArg size hstream
    rw [size_append, size_cons, size_endToks, Tok.size] at hsize
    have hlayout := Interleave.length_layout (r := 0) (by omega) (streamToks x bs)
    rw [← List.length_eq_zero_iff, ← List.length_eq_zero_iff, List.length_append]
    omega
  have hreads : BitReader.Reads ⟨(layout 0 (streamToks x bs)).2 ++ rest, 0, 0, false, 0⟩
      (streamToks x bs) rest :=
    ⟨rfl, 0, 0, by omega, by norm_num, fun h => absurd h (lt_irrefl 0), by omega, rfl⟩
  cases h with
  | finish hend => omega
  | fresh hb hone hmax hindex => omega
  | @literals _ _ b bs hb hlt hi hsteps =>
      rw [blocksToks_literals _ _ _ hb, List.cons.injEq] at hstream
      obtain ⟨-, hstream⟩ := hstream
      rw [List.length_cons] at hblocks
      generalize streamToks x (b :: bs) = stream at hstream hne hreads ⊢
      subst hstream
      obtain ⟨d', hloop, hd', hreads'⟩ := decompressLoop_literals M
        (show Decoder.Holds x 1 (-1) ⟨⟨_, 0, 0, false, 0⟩, 1, out, 0⟩ from ⟨rfl, rfl, hout, rfl⟩)
        (le_refl _) hlt hi hx hreads (show 31 < fuel by omega)
      obtain ⟨out', hrun, hout'⟩ := afterBlock_steps M hsteps hx (by omega) hd' hreads'
        (show _ < fuel by omega) (show _ < fuel by omega)
      have hret : afterLiterals M fuel fuel d' = .ret x.length out' := hrun
      refine ⟨out', ?_, hout'⟩
      rw [zx0DecompressTo, if_neg hne, hloop, hret]

/-! ### The round trip -/

/-- What the compressor packs is unpacked by the decompressor of the watchdog, into any
buffer that is large enough. -/
theorem zx0DecompressTo_zx0CompressC
    {p : Pool} (hp : CalledPool p) {x : Bytes} (hpos : x ≠ []) (hx : x.length < 2 ^ 27)
    (new : NewMemory) {fuel : ℕ} (hfuel : x.length + 1 < fuel) :
  ∃ c p', zx0CompressC fuel new p x = some (0, c, p')
    ∧ ∀ (M : Mode) (out : Bytes) (fuel' : ℕ), x.length ≤ out.length → x.length + 33 < fuel' →
      ∃ out', zx0DecompressTo M fuel' c out = some ((x.length : ℤ), out') ∧ out'.take x.length = x
  := by
  obtain ⟨bs, p', hsteps, hcall, -⟩ := zx0CompressC_eq hp.reusable hpos hx new hfuel
  refine ⟨_, p', hcall, ?_⟩
  intro M out fuel' hout hfuel'
  have hunpacked := zx0DecompressTo_layout M hsteps hpos (by omega) [] hout hfuel'
  rwa [List.append_nil] at hunpacked

theorem zx0DecompressTo_zx0CompressC_abab :
  ∃ c p', zx0CompressC 8 ⟨fun _ => 0, fun _ => 0⟩ Pool.init [97, 98, 97, 98, 97, 98]
      = some (0, c, p')
    ∧ ∀ (M : Mode) (out : Bytes) (fuel' : ℕ), 6 ≤ out.length → 39 < fuel' →
      ∃ out', zx0DecompressTo M fuel' c out = some (6, out')
        ∧ out'.take 6 = [97, 98, 97, 98, 97, 98]
  := zx0DecompressTo_zx0CompressC CalledPool.start (by simp) (by decide) _ (by decide)

end LnxCad.Zx0
