import LnxCad.Lib.Interleave
import LnxCad.Zx0.Compress
import LnxCad.Zx0.Parse

/-!
# The stream of a parse

The blocks of a parse, in order, stand for a stream of bits and bytes.  The writer stores
that stream, and the buffer it has reserved is exactly as long as the stream needs.
-/

namespace LnxCad.Zx0

open Interleave

/-! ### Parses in order -/

/-- The blocks behind a position, in order, up to the end of a string.  Behind literals
there are no literals, and only there the last offset may be used again. -/
inductive Steps (x : Bytes) : Bool → ℕ → ℤ → List Block → Prop where
  | finish {afterLiterals : Bool} {last : ℕ} {index : ℤ} :
      index + 1 = x.length → Steps x afterLiterals last index []
  | literals {last : ℕ} {index : ℤ} {b : Block} {bs : List Block} :
      b.offset = 0 → index < b.index → b.index < x.length →
      Steps x true last b.index bs → Steps x false last index (b :: bs)
  | again {last : ℕ} {index : ℤ} {b : Block} {bs : List Block} :
      b.offset = last → last ≠ 0 → index < b.index → b.index < x.length →
      Matches x last index b.index →
      Steps x false last b.index bs → Steps x true last index (b :: bs)
  | fresh {afterLiterals : Bool} {last : ℕ} {index : ℤ} {b : Block} {bs : List Block} :
      b.offset ≠ last → 1 ≤ b.offset → b.offset ≤ 32640 → 0 ≤ index → index + 1 < b.index →
      b.index < x.length → Matches x b.offset index b.index →
      Steps x false b.offset b.index bs → Steps x afterLiterals last index (b :: bs)

/-- The blocks of a chain in order, without the fake one. -/
def inOrder (c : List Block) : List Block := c.reverse.tail

theorem inOrder_cons (b d : Block) (c : List Block) :
  inOrder (b :: d :: c) = inOrder (d :: c) ++ [b]
  := by
  have hne : (d :: c).reverse ≠ [] := by simp
  rw [inOrder, inOrder, List.reverse_cons, List.tail_append_of_ne_nil hne]

variable {x : Bytes}

/-- What may follow the last block of a parse may follow its blocks. -/
theorem Parse.steps {b : Block} {c : List Block} (h : Parse x (b :: c)) {bs : List Block}
    (hsteps : Steps x (b.offset = 0) (lastOffset (b :: c)) b.index bs) :
  Steps x false 1 (-1) (inOrder (b :: c) ++ bs)
  := by
  generalize hchain : b :: c = chain at h
  induction h generalizing b c bs with
  | start =>
      obtain ⟨rfl, rfl⟩ := List.cons.inj hchain
      exact hsteps
  | @literals d c' i h hoff hlt hi ih =>
      obtain ⟨rfl, rfl⟩ := List.cons.inj hchain
      rw [inOrder_cons, List.append_assoc]
      apply ih _ rfl
      rw [lastOffset_cons_literal rfl] at hsteps
      rw [decide_eq_false hoff]
      apply Steps.literals rfl hlt hi
      simpa using hsteps
  | @again d c' i h hoff hlt hi hmatch ih =>
      obtain ⟨rfl, rfl⟩ := List.cons.inj hchain
      have hone : lastOffset (d :: c') ≠ 0 := Nat.one_le_iff_ne_zero.mp h.lastOffset_bounds.1
      rw [inOrder_cons, List.append_assoc]
      apply ih _ rfl
      have hlast : lastOffset (⟨d.bits + againCost (i - d.index), i, lastOffset (d :: c')⟩ :: d :: c')
          = lastOffset (d :: c') := lastOffset_cons_match hone _
      rw [hlast] at hsteps
      rw [decide_eq_true hoff]
      refine Steps.again rfl hone hlt hi hmatch ?_
      simpa [hone] using hsteps
  | @fresh d c' i offset h hindex hlt hi hone hmax hne hmatch ih =>
      obtain ⟨rfl, rfl⟩ := List.cons.inj hchain
      have hzero : offset ≠ 0 := Nat.one_le_iff_ne_zero.mp hone
      rw [inOrder_cons, List.append_assoc]
      apply ih _ rfl
      rw [lastOffset_cons_match hzero] at hsteps
      apply Steps.fresh hne.symm hone hmax hindex hlt hi hmatch
      simpa [hzero] using hsteps

/-- Every block of a string takes at least a byte of it. -/
theorem Steps.length_le
    {isLiterals : Bool} {last : ℕ} {index : ℤ} {bs : List Block} (h : Steps x isLiterals last index bs) :
  (bs.length : ℤ) ≤ x.length - 1 - index
  := by
  induction h with
  | finish hend =>
      rw [List.length_nil]
      push_cast
      omega
  | literals hb hlt hi hsteps ih =>
      rw [List.length_cons]
      push_cast
      omega
  | again hb hlast hlt hi hmatch hsteps ih =>
      rw [List.length_cons]
      push_cast
      omega
  | fresh hb hone hmax hindex hlt hi hmatch hsteps ih =>
      rw [List.length_cons]
      push_cast
      omega

/-- The blocks behind a position end at different positions. -/
theorem Steps.pairwise
    {isLiterals : Bool} {last : ℕ} {index : ℤ} {bs : List Block} (h : Steps x isLiterals last index bs) :
  (∀ b ∈ bs, index < b.index) ∧ bs.Pairwise (fun b d => b.index < d.index)
  := by
  have hcons : ∀ {index : ℤ} {b : Block} {bs : List Block}, index < b.index →
      (∀ d ∈ bs, b.index < d.index) ∧ bs.Pairwise (fun b d => b.index < d.index) →
      (∀ d ∈ b :: bs, index < d.index) ∧ (b :: bs).Pairwise (fun b d => b.index < d.index) := by
    intro index b bs hlt h
    refine ⟨?_, List.pairwise_cons.mpr h⟩
    intro d hd
    obtain rfl | hd := List.mem_cons.mp hd
    · exact hlt
    · exact hlt.trans (h.1 d hd)
  induction h with
  | finish hend => simp
  | literals hb hlt hi hsteps ih => exact hcons hlt ih
  | again hb hlast hlt hi hmatch hsteps ih => exact hcons hlt ih
  | fresh hb hone hmax hindex hlt hi hmatch hsteps ih => exact hcons (by omega) ih

/-! ### The stream -/

/-- A number in the interlaced Elias gamma code. -/
def gammaToks (inverted : Bool) (v : ℕ) : List Tok := (EliasGamma.code inverted v).map Tok.bit

/-- The byte of an offset with the first bit of a length, and the bits that follow. -/
def offsetToks (offset : ℕ) : List Bool → List Tok
  | [] => [.byte (offsetByte offset false)]
  | b :: bs => .byte (offsetByte offset false ||| maskOf 0 b) :: bs.map Tok.bit

/-- The stream of one block. -/
def blockToks (x : Bytes) (last : ℕ) (index : ℤ) (b : Block) : List Tok :=
  let length := (b.index - index).toNat
  if b.offset = 0 then
    .bit false :: gammaToks false length
      ++ ((x.drop (index + 1).toNat).take length).map Tok.byte
  else if b.offset = last then .bit false :: gammaToks false length
  else
    .bit true :: gammaToks true ((b.offset - 1) / 128 + 1)
      ++ offsetToks b.offset (EliasGamma.code false (length - 1))

/-- The last offset behind a block. -/
def nextOffset (last : ℕ) (b : Block) : ℕ := if b.offset = 0 then last else b.offset

/-- The stream of blocks in order. -/
def blocksToks (x : Bytes) : ℕ → ℤ → List Block → List Tok
  | _, _, [] => []
  | last, index, b :: bs =>
      blockToks x last index b ++ blocksToks x (nextOffset last b) b.index bs

/-- The end marker. -/
def endToks : List Tok := .bit true :: gammaToks true 256

/-- The stream of a parse; the first bit, which would announce literals, is left out. -/
def streamToks (x : Bytes) (bs : List Block) : List Tok :=
  (blocksToks x 1 (-1) bs ++ endToks).tail

theorem blocksToks_literals
    (x : Bytes) (last : ℕ) (index : ℤ) {b : Block} (hb : b.offset = 0) (bs : List Block)
    (ts : List Tok) :
  blocksToks x last index (b :: bs) ++ ts = .bit false :: (gammaToks false (b.index - index).toNat
    ++ (((x.drop (index + 1).toNat).take (b.index - index).toNat).map Tok.byte
      ++ (blocksToks x last b.index bs ++ ts)))
  := by
  rw [blocksToks, blockToks, if_pos hb, nextOffset, if_pos hb]
  simp only [List.cons_append, List.append_assoc]

theorem blocksToks_again
    (x : Bytes) {last : ℕ} (index : ℤ) {b : Block} (hb : b.offset = last) (hlast : last ≠ 0)
    (bs : List Block) (ts : List Tok) :
  blocksToks x last index (b :: bs) ++ ts = .bit false :: gammaToks false (b.index - index).toNat
    ++ (blocksToks x last b.index bs ++ ts)
  := by
  rw [blocksToks, blockToks, if_neg (hb.trans_ne hlast), if_pos hb, nextOffset,
    if_neg (hb.trans_ne hlast), hb, List.append_assoc]

theorem blocksToks_fresh
    (x : Bytes) {last : ℕ} (index : ℤ) {b : Block} (hzero : b.offset ≠ 0) (hb : b.offset ≠ last)
    (bs : List Block) (ts : List Tok) :
  blocksToks x last index (b :: bs) ++ ts = .bit true :: (gammaToks true ((b.offset - 1) / 128 + 1)
    ++ (offsetToks b.offset (EliasGamma.code false ((b.index - index).toNat - 1))
      ++ (blocksToks x b.offset b.index bs ++ ts)))
  := by
  rw [blocksToks, blockToks, if_neg hzero, if_neg hb, nextOffset, if_neg hzero]
  simp only [List.cons_append, List.append_assoc]

/-! ### The room of the stream -/

theorem size_map_bit (bits : List Bool) :
  size (bits.map Tok.bit) = bits.length
  := by
  induction bits with
  | nil => rfl
  | cons b bits ih =>
      rw [List.map_cons, size_cons, ih, List.length_cons, Tok.size]
      omega

theorem size_map_byte (bytes : Bytes) :
  size (bytes.map Tok.byte) = 8 * bytes.length
  := by
  induction bytes with
  | nil => rfl
  | cons b bytes ih =>
      rw [List.map_cons, size_cons, ih, List.length_cons, Tok.size]
      omega

theorem size_gammaToks (inverted : Bool) {v : ℕ} (h : v ≠ 0) :
  (size (gammaToks inverted v) : ℤ) = eliasGammaBits v
  := by
  rw [gammaToks, size_map_bit, EliasGamma.length_code, eliasGammaBits_eq h]

/-- The first bit of a length costs no room of its own. -/
theorem size_offsetToks (offset : ℕ) {v : ℕ} (h : v ≠ 0) :
  (size (offsetToks offset (EliasGamma.code false v)) : ℤ) = 7 + eliasGammaBits v
  := by
  rw [eliasGammaBits_eq h, ← EliasGamma.length_code false]
  cases hcode : EliasGamma.code false v with
  | nil =>
      have hlen := EliasGamma.length_code false v
      have hpos := EliasGamma.length_pos v
      rw [hcode] at hlen
      simp at hlen
      omega
  | cons b bs =>
      rw [offsetToks, size_cons, size_map_bit, List.length_cons, Tok.size]
      omega

/-- A literal block takes the room it adds to the cost. -/
theorem size_blockToks_literals
    (last : ℕ) {index : ℤ} {b : Block} (hb : b.offset = 0) (hlo : -1 ≤ index)
    (hlt : index < b.index) (hi : b.index < x.length) :
  (size (blockToks x last index b) : ℤ) = literalCost (b.index - index)
  := by
  obtain ⟨length, hlength⟩ : ∃ length : ℕ, b.index - index = length :=
    ⟨(b.index - index).toNat, by omega⟩
  have htake : ((x.drop (index + 1).toNat).take length).length = length := by
    rw [List.length_take, List.length_drop]
    omega
  rw [blockToks, if_pos hb, hlength, Int.toNat_natCast, size_append, size_cons, size_map_byte, htake,
    Tok.size, literalCost]
  push_cast
  rw [size_gammaToks false (by omega)]
  ring

theorem size_blockToks_again
    {last : ℕ} {index : ℤ} {b : Block} (hb : b.offset = last) (hlast : last ≠ 0)
    (hlt : index < b.index) :
  (size (blockToks x last index b) : ℤ) = againCost (b.index - index)
  := by
  obtain ⟨length, hlength⟩ : ∃ length : ℕ, b.index - index = length :=
    ⟨(b.index - index).toNat, by omega⟩
  rw [blockToks, if_neg (by omega), if_pos hb, hlength, Int.toNat_natCast, size_cons, Tok.size,
    againCost]
  push_cast
  rw [size_gammaToks false (by omega)]

theorem size_blockToks_fresh
    {last : ℕ} {index : ℤ} {b : Block} (hb : b.offset ≠ last) (hone : 1 ≤ b.offset)
    (hlt : index + 1 < b.index) :
  (size (blockToks x last index b) : ℤ) = freshCost b.offset (b.index - index)
  := by
  obtain ⟨length, hlength⟩ : ∃ length : ℕ, b.index - index = length :=
    ⟨(b.index - index).toNat, by omega⟩
  have hmsb : (b.offset - 1) >>> 7 = (b.offset - 1) / 128 := Nat.shiftRight_eq_div_pow _ _
  have hpred : (length : ℤ) - 1 = (length - 1 : ℕ) := by omega
  rw [blockToks, if_neg (by omega), if_neg hb, hlength, Int.toNat_natCast, size_append, size_cons,
    Tok.size, freshCost, hmsb, hpred, ← Nat.cast_succ, Nat.cast_add, Nat.cast_add,
    size_gammaToks true (by omega), size_offsetToks _ (by omega), Nat.succ_eq_add_one]
  push_cast
  ring

/-- The cost of a block. -/
def blockCost (last : ℕ) (index : ℤ) (b : Block) : ℤ :=
  if b.offset = 0 then literalCost (b.index - index)
  else if b.offset = last then againCost (b.index - index)
  else freshCost b.offset (b.index - index)

/-- The cost of blocks in order. -/
def blocksCost : ℕ → ℤ → List Block → ℤ
  | _, _, [] => 0
  | last, index, b :: bs => blockCost last index b + blocksCost (nextOffset last b) b.index bs

/-- Blocks take the room of their cost. -/
theorem Steps.size_blocksToks
    {isLiterals : Bool} {last : ℕ} {index : ℤ} {bs : List Block} (h : Steps x isLiterals last index bs)
    (hlo : -1 ≤ index) :
  (size (blocksToks x last index bs) : ℤ) = blocksCost last index bs
  := by
  induction h with
  | finish hend => rfl
  | literals hb hlt hi hsteps ih =>
      rw [blocksToks, blocksCost, blockCost, if_pos hb, nextOffset, if_pos hb, size_append, Nat.cast_add,
        size_blockToks_literals _ hb hlo hlt hi, ih (by omega)]
  | again hb hlast hlt hi hmatch hsteps ih =>
      have hzero := hb.trans_ne hlast
      rw [blocksToks, blocksCost, blockCost, if_neg hzero, if_pos hb, nextOffset, if_neg hzero, size_append,
        Nat.cast_add, size_blockToks_again hb hlast hlt, hb, ih (by omega)]
  | fresh hb hone hmax hindex hlt hi hmatch hsteps ih =>
      have hzero := Nat.one_le_iff_ne_zero.mp hone
      rw [blocksToks, blocksCost, blockCost, if_neg hzero, if_neg hb, nextOffset, if_neg hzero, size_append,
        Nat.cast_add, size_blockToks_fresh hb hone hlt, ih (by omega)]

/-- The blocks of a parse take the room of its cost, and one bit for the one left out. -/
theorem Parse.size_blocksToks {b : Block} {c : List Block} (h : Parse x (b :: c)) (bs : List Block) :
  (size (blocksToks x 1 (-1) (inOrder (b :: c) ++ bs)) : ℤ)
    = b.bits + 1 + size (blocksToks x (lastOffset (b :: c)) b.index bs)
  := by
  generalize hchain : b :: c = chain at h ⊢
  induction h generalizing b c bs with
  | start =>
      obtain ⟨rfl, rfl⟩ := List.cons.inj hchain
      simp [fakeBlock, inOrder, lastOffset]
  | @literals d c' i h hoff hlt hi ih =>
      obtain ⟨rfl, rfl⟩ := List.cons.inj hchain
      have hbounds := h.index_bounds
      rw [inOrder_cons, List.append_assoc, ih _ rfl, List.singleton_append, blocksToks, size_append]
      push_cast
      rw [size_blockToks_literals _ rfl hbounds.1 hlt hi]
      have hlast : lastOffset (⟨d.bits + literalCost (i - d.index), i, 0⟩ :: d :: c')
          = lastOffset (d :: c') := rfl
      rw [hlast, nextOffset, if_pos rfl]
      ring
  | @again d c' i h hoff hlt hi hmatch ih =>
      obtain ⟨rfl, rfl⟩ := List.cons.inj hchain
      have hone : lastOffset (d :: c') ≠ 0 := Nat.one_le_iff_ne_zero.mp h.lastOffset_bounds.1
      have hlast : lastOffset (⟨d.bits + againCost (i - d.index), i, lastOffset (d :: c')⟩ :: d :: c')
          = lastOffset (d :: c') := lastOffset_cons_match hone _
      rw [inOrder_cons, List.append_assoc, ih _ rfl, List.singleton_append, blocksToks, size_append,
        hlast]
      have hsize := size_blockToks_again (x := x)
        (b := ⟨d.bits + againCost (i - d.index), i, lastOffset (d :: c')⟩) rfl hone hlt
      push_cast
      rw [hsize, nextOffset, if_neg hone]
      ring
  | @fresh d c' i offset h hindex hlt hi hone hmax hne hmatch ih =>
      obtain ⟨rfl, rfl⟩ := List.cons.inj hchain
      have hzero : offset ≠ 0 := Nat.one_le_iff_ne_zero.mp hone
      rw [inOrder_cons, List.append_assoc, ih _ rfl, List.singleton_append, blocksToks, size_append]
      push_cast
      have hlast : lastOffset (⟨d.bits + freshCost offset (i - d.index), i, offset⟩ :: d :: c')
          = offset := lastOffset_cons_match hzero _
      rw [size_blockToks_fresh hne.symm hone hlt, hlast, nextOffset, if_neg hzero]
      ring

end LnxCad.Zx0
