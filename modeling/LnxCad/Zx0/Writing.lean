import LnxCad.Zx0.Encoding

/-!
# The writer stores the stream

Each function of the writer writes the elements of a stream one after the other, and a
stream written from the start is stored as its layout.
-/

namespace LnxCad.Zx0

open Interleave

/-! ### Elements -/

/-- One element is written. -/
def writeTok (w : Writer) : Tok → Option Writer
  | .bit b => writeBit w b
  | .byte v => writeByte w v

/-- A stream is written. -/
def writeToks (w : Writer) (ts : List Tok) : Option Writer := ts.foldlM writeTok w

theorem writeToks_cons (w : Writer) (t : Tok) (ts : List Tok) :
  writeToks w (t :: ts) = (writeTok w t).bind (fun w => writeToks w ts)
  := rfl

theorem writeToks_append (w : Writer) (ts us : List Tok) :
  writeToks w (ts ++ us) = (writeToks w ts).bind (fun w => writeToks w us)
  := List.foldlM_append

theorem writeGammaDigits_eq (value : ℕ) (inverted : Bool) (k : ℕ) (w : Writer) :
  writeGammaDigits value false inverted k w
    = writeToks w ((EliasGamma.digits inverted value k).map Tok.bit)
  := by
  induction k generalizing w with
  | zero =>
      simp only [writeGammaDigits, EliasGamma.digits, List.map_cons, List.map_nil, writeToks_cons,
        writeTok, Bool.not_false]
      exact (Option.bind_fun_some _).symm
  | succ k ih =>
      have hbit : (if inverted then !(decide (value &&& 2 ^ k ≠ 0)) else decide (value &&& 2 ^ k ≠ 0))
          = (value.testBit k ^^ inverted) := by
        have hset : decide (value &&& 2 ^ k ≠ 0) = value.testBit k := by
          rw [Nat.and_two_pow]
          cases value.testBit k with
          | false => simp
          | true => simp
        rw [hset]
        cases inverted with
        | false => simp
        | true => simp
      simp only [writeGammaDigits, EliasGamma.digits, List.map_cons, writeToks_cons, writeTok, ← ih,
        hbit]
      rfl

theorem two_pow_succ_le_iff (k value : ℕ) :
  2 ^ (k + 1) ≤ value ↔ k + 1 ≤ Nat.log2 value
  := by
  by_cases hzero : value = 0
  · subst hzero
    simp
  · exact (Nat.le_log2 hzero).symm

/-- The first loop finds the power of two behind the value if that is an `int`. -/
theorem gammaPower_eq {value k : ℕ} (h : k ≤ Nat.log2 value) (room : ℕ) :
  gammaPower value room (k + 1)
    = if Nat.log2 value ≤ k + room then some (Nat.log2 value + 1) else none
  := by
  induction room generalizing k with
  | zero =>
      rw [gammaPower]
      simp only [two_pow_succ_le_iff]
      by_cases hlog : k + 1 ≤ Nat.log2 value
      · rw [if_pos hlog, if_neg (by omega)]
      · rw [if_neg hlog, if_pos (by omega), show k = Nat.log2 value by omega]
  | succ room ih =>
      rw [gammaPower]
      simp only [two_pow_succ_le_iff]
      by_cases hlog : k + 1 ≤ Nat.log2 value
      · rw [if_pos hlog, ih hlog, show k + 1 + room = k + (room + 1) by omega]
      · rw [if_neg hlog, if_pos (by omega), show k = Nat.log2 value by omega]

/-- The gamma code of a number below the largest power of two of an `int` is written bit by
bit. -/
theorem writeInterlacedEliasGamma_eq
    (w : Writer) {value : ℕ} (h : value < 2 ^ 30) (inverted : Bool) :
  writeInterlacedEliasGamma w value false inverted = writeToks w (gammaToks inverted value)
  := by
  have hlog : ¬ 29 + 1 ≤ Nat.log2 value := by
    rw [← two_pow_succ_le_iff]
    omega
  rw [writeInterlacedEliasGamma, gammaPower_eq (Nat.zero_le _), if_pos (by omega)]
  exact writeGammaDigits_eq value inverted (Nat.log2 value) w

theorem writeLiterals_eq (k : ℕ) {e : Emitter} {x : Bytes} (h : e.inputIndex + k ≤ x.length) :
  writeLiterals x k e
    = (writeToks e.writer (((x.drop e.inputIndex).take k).map Tok.byte)).map
      (fun w => { e with writer := w, inputIndex := e.inputIndex + k })
  := by
  induction k generalizing e with
  | zero => rfl
  | succ k ih =>
      have hlt : e.inputIndex < x.length := by omega
      rw [writeLiterals, List.getElem?_eq_getElem hlt, List.drop_eq_getElem_cons hlt,
        List.take_succ_cons, List.map_cons, writeToks_cons]
      simp only [Option.bind_eq_bind, Option.bind_some, writeTok]
      cases hw : writeByte e.writer x[e.inputIndex] with
      | none => rfl
      | some w =>
          simp only [Option.bind_some]
          rw [ih (e := { e with writer := w, inputIndex := e.inputIndex + 1 }) (by
            dsimp only
            omega)]
          dsimp only
          rw [show e.inputIndex + 1 + k = e.inputIndex + (k + 1) by omega]

/-! ### Changes of the output -/

/-- A byte that was just put at the end is changed. -/
theorem modify_length (bytes : Bytes) (v : UInt8) (f : UInt8 → UInt8) :
  (bytes ++ [v]).modify bytes.length f = bytes ++ [f v]
  := by
  induction bytes with
  | nil => rfl
  | cons b bytes ih =>
      rw [List.cons_append, List.length_cons, List.modify_succ_cons, ih]
      rfl

/-- A byte before the end is changed. -/
theorem modify_append {bytes : Bytes} {i : ℕ} (h : i < bytes.length) (more : Bytes)
    (f : UInt8 → UInt8) :
  (bytes ++ more).modify i f = bytes.modify i f ++ more
  := by
  induction bytes generalizing i with
  | nil => simp at h
  | cons b bytes ih =>
      cases i with
      | zero => rfl
      | succ i =>
          rw [List.cons_append, List.modify_succ_cons, List.modify_succ_cons,
            ih (by simpa using h), List.cons_append]

theorem modify_or_zero (bytes : Bytes) (i : ℕ) :
  bytes.modify i (fun v => v ||| 0) = bytes
  := by
  have hid : (fun v : UInt8 => v ||| 0) = id := by
    funext v
    simp
  rw [hid, List.modify_id]

theorem modify_or_or (bytes : Bytes) (i : ℕ) (u v : UInt8) :
  (bytes.modify i (fun w => w ||| u)).modify i (fun w => w ||| v)
    = bytes.modify i (fun w => w ||| (u ||| v))
  := by
  rw [List.modify_modify_eq]
  congr 1
  funext w
  apply UInt8.or_assoc

/-! ### Backtracking -/

/-- The first bit behind the byte of an offset is written into that byte. -/
theorem writeByte_backtrack {w : Writer} (h : w.backtrack = false) (v : UInt8) (b : Bool) :
  (writeByte w v).bind (fun w => writeBit { w with backtrack := true } b)
    = writeByte w (v ||| maskOf 0 b)
  := by
  obtain ⟨outputData, outputSize, bitIndex, bitMask, backtrack⟩ := w
  obtain rfl : backtrack = false := h
  unfold writeByte
  split
  · cases b with
    | false => simp [writeBit, maskOf]
    | true => simp [writeBit, maskOf, modify_length]
  · rfl

/-- After an element, the writer is about to backtrack only if it was before and the
element was a byte. -/
theorem backtrack_of_writeTok {w w' : Writer} {t : Tok} (h : writeTok w t = some w')
    (hw : w.backtrack = false ∨ ∃ b, t = .bit b) :
  w'.backtrack = false
  := by
  cases t with
  | byte v =>
      obtain hw | ⟨b, hb⟩ := hw
      · simp only [writeTok, writeByte] at h
        split at h
        · cases h
          exact hw
        · cases h
      · cases hb
  | bit b =>
      simp only [writeTok, writeBit, openBitByte, writeByte] at h
      split at h
      · split at h
        · split at h
          · cases h
          · cases h
            rfl
        · cases h
          rfl
      case isFalse hfalse =>
        have hw : w.backtrack = false := by simpa using hfalse
        simp only [Option.bind_eq_bind, Option.bind_eq_some_iff, Option.some.injEq] at h
        obtain ⟨w₁, hopen, rfl⟩ := h
        split at hopen
        · split at hopen
          · cases hopen
            exact hw
          · cases hopen
        · cases hopen
          exact hw

theorem backtrack_of_writeToks {w w' : Writer} {ts : List Tok} (h : writeToks w ts = some w')
    (hw : w.backtrack = false ∨ ∃ b us, ts = .bit b :: us) :
  w'.backtrack = false
  := by
  induction ts generalizing w with
  | nil =>
      cases h
      obtain hw | ⟨b, us, hb⟩ := hw
      · exact hw
      · cases hb
  | cons t ts ih =>
      rw [writeToks_cons] at h
      obtain ⟨w₁, ht, hrest⟩ := Option.bind_eq_some_iff.mp h
      apply ih hrest
      left
      apply backtrack_of_writeTok ht
      obtain hw | ⟨b, us, hb⟩ := hw
      · exact Or.inl hw
      · cases hb
        exact Or.inr ⟨b, rfl⟩

/-! ### Blocks -/

/-- The writer of blocks in order, behind the block `prev`. -/
def writeBlocks (x : Bytes) : Block → List Block → Emitter → Option Emitter
  | _, [], e => some e
  | prev, b :: bs, e => (writeBlock x false true prev b e).bind (writeBlocks x b bs)

/-- The writer agrees with a position and a last offset. -/
structure Emitter.At (e : Emitter) (last : ℕ) (index : ℤ) : Prop where
  inputIndex : e.inputIndex = (index + 1).toNat
  lastOffset : e.lastOffset = last

/-- The byte of an offset and the length behind it are written as their stream. -/
theorem writeOffset_eq {w : Writer} (h : w.backtrack = false) (offset length : ℕ) :
  (writeByte w (offsetByte offset false)).bind
      (fun w => writeToks { w with backtrack := true } (gammaToks false length))
    = writeToks w (offsetToks offset (EliasGamma.code false length))
  := by
  unfold gammaToks
  cases hcode : EliasGamma.code false length with
  | nil =>
      have hlen := EliasGamma.length_code false length
      have hpos := EliasGamma.length_pos length
      rw [hcode, List.length_nil] at hlen
      omega
  | cons b bs =>
      simp only [List.map_cons, writeToks_cons, offsetToks, writeTok, ← writeByte_backtrack h,
        Option.bind_assoc]

/-- The number that is written for the length of a block. -/
def writtenLength (last : ℕ) (index : ℤ) (b : Block) : ℕ :=
  if b.offset = 0 ∨ b.offset = last then (b.index - index).toNat else (b.index - index).toNat - 1

/-- A block is written as its stream. -/
theorem writeBlock_eq
    {x : Bytes} {e : Emitter} {last : ℕ} {prev b : Block} (he : e.At last prev.index)
    (hlo : -1 ≤ prev.index) (hlt : prev.index < b.index) (hi : b.index < x.length)
    (hoffset : b.offset ≤ 32640) (hwritten : writtenLength last prev.index b < 2 ^ 30) :
  writeBlock x false true prev b e
    = (writeToks e.writer (blockToks x last prev.index b)).map
      (fun w => ⟨w, (b.index + 1).toNat, nextOffset last b⟩)
  := by
  obtain ⟨length, hlength⟩ : ∃ length : ℕ, b.index - prev.index = length :=
    ⟨(b.index - prev.index).toNat, by omega⟩
  have hnext : e.inputIndex + length = (b.index + 1).toNat := by
    rw [he.inputIndex]
    omega
  unfold writtenLength at hwritten
  unfold writeBlock blockToks nextOffset
  simp only [hlength, Int.toNat_natCast, he.lastOffset, Option.bind_eq_bind] at hwritten ⊢
  split
  case isTrue hzero =>
    rw [if_pos (Or.inl hzero)] at hwritten
    simp only [writeInterlacedEliasGamma_eq _ hwritten]
    rw [writeToks_append, writeToks_cons, writeTok, Option.map_bind, Option.bind_assoc]
    congr 1
    funext w
    congr 1
    funext w'
    rw [writeLiterals_eq length (by dsimp only; omega)]
    dsimp only
    rw [hnext, he.inputIndex]
    rfl
  case isFalse hzero =>
    split
    case isTrue hlast =>
      rw [if_pos (Or.inr hlast)] at hwritten
      simp only [writeInterlacedEliasGamma_eq _ hwritten]
      rw [writeToks_cons, writeTok, Option.map_bind]
      congr 1
      funext w
      rw [hnext, hlast]
      exact Option.map_eq_bind.symm
    case isFalse hlast =>
      rw [if_neg (not_or.mpr ⟨hzero, hlast⟩)] at hwritten
      have hmsb : (b.offset - 1) / 128 + 1 < 2 ^ 30 := by omega
      simp only [writeInterlacedEliasGamma_eq _ hwritten, writeInterlacedEliasGamma_eq _ hmsb]
      rw [writeToks_append, hnext, ← Option.bind_assoc]
      change (writeToks e.writer (.bit true :: gammaToks true ((b.offset - 1) / 128 + 1))).bind _ = _
      cases hw : writeToks e.writer (.bit true :: gammaToks true ((b.offset - 1) / 128 + 1)) with
      | none => rfl
      | some w =>
          have hback := backtrack_of_writeToks hw (Or.inr ⟨true, _, rfl⟩)
          simp only [Option.bind_some, ← writeOffset_eq hback, Option.map_bind]
          congr 1
          funext w'
          exact Option.map_eq_bind.symm

/-- The numbers for the lengths of blocks can be written. -/
def Writable : ℕ → ℤ → List Block → Prop
  | _, _, [] => True
  | last, index, b :: bs =>
      writtenLength last index b < 2 ^ 30 ∧ Writable (nextOffset last b) b.index bs

theorem writtenLength_le (last : ℕ) (index : ℤ) (b : Block) :
  writtenLength last index b ≤ (b.index - index).toNat
  := by
  unfold writtenLength
  split
  · exact le_refl _
  · apply Nat.sub_le

/-- The first block behind a position, and the position behind it. -/
theorem Steps.cons_inv
    {x : Bytes} {afterLiterals : Bool} {last : ℕ} {index : ℤ} {b : Block} {bs : List Block}
    (h : Steps x afterLiterals last index (b :: bs)) (hmax : last ≤ 32640) :
  index < b.index ∧ b.index < x.length ∧ b.offset ≤ 32640 ∧ nextOffset last b ≤ 32640
    ∧ ∃ afterLiterals', Steps x afterLiterals' (nextOffset last b) b.index bs
  := by
  cases h with
  | literals hb hlt hi hrest =>
      rw [nextOffset, if_pos hb]
      exact ⟨hlt, hi, by omega, hmax, _, hrest⟩
  | again hb hlast hlt hi hmatch hrest =>
      rw [nextOffset, if_neg (hb.trans_ne hlast), hb]
      exact ⟨hlt, hi, hmax, hmax, _, hrest⟩
  | fresh hb hone hoffset hindex hlt hi hmatch hrest =>
      rw [nextOffset, if_neg (Nat.one_le_iff_ne_zero.mp hone)]
      exact ⟨by omega, hi, hoffset, hoffset, _, hrest⟩

/-- In a string that is not too long every length can be written. -/
theorem Steps.writable
    {x : Bytes} (hx : x.length < 2 ^ 30) {afterLiterals : Bool} {last : ℕ} {index : ℤ}
    {bs : List Block} (h : Steps x afterLiterals last index bs) (hlo : -1 ≤ index)
    (hmax : last ≤ 32640) :
  Writable last index bs
  := by
  induction bs generalizing afterLiterals last index with
  | nil => trivial
  | cons b bs ih =>
      obtain ⟨hlt, hi, -, hnext, afterLiterals', hrest⟩ := h.cons_inv hmax
      have hle := writtenLength_le last index b
      exact ⟨by omega, ih hrest (by omega) hnext⟩

/-- Blocks are written as their stream. -/
theorem writeBlocks_eq
    {x : Bytes} {afterLiterals : Bool} {last : ℕ} {p : Block} {bs : List Block}
    (hsteps : Steps x afterLiterals last p.index bs) (hlo : -1 ≤ p.index) (hmax : last ≤ 32640)
    (hwritable : Writable last p.index bs) {e : Emitter} (he : e.At last p.index) :
  (writeBlocks x p bs e).map Emitter.writer
    = writeToks e.writer (blocksToks x last p.index bs)
  := by
  induction bs generalizing afterLiterals last p e with
  | nil => rfl
  | cons b bs ih =>
      obtain ⟨hlt, hi, hoffset, hnext, afterLiterals', hrest⟩ := hsteps.cons_inv hmax
      obtain ⟨hwritten, hwritable⟩ := hwritable
      rw [writeBlocks, writeBlock_eq he hlo hlt hi hoffset hwritten, blocksToks, writeToks_append]
      cases writeToks e.writer (blockToks x last p.index b) with
      | none => rfl
      | some w => exact ih hrest (by omega) hnext hwritable ⟨rfl, rfl⟩

/-- The open bit byte of a writer has room for `r` bits. -/
structure Writer.Room (w : Writer) (r : ℕ) : Prop where
  mask : w.bitMask = 2 ^ r / 2
  index : 0 < r → w.bitIndex < w.outputData.length
  backtrack : w.backtrack = false

theorem layout_zero (ts : List Tok) :
  (layout 0 ts).1 = 0
  := by
  induction ts with
  | nil => rfl
  | cons t ts ih =>
      cases t with
      | bit b => rfl
      | byte v =>
          rw [layout_byte]
          exact ih

/-- A bit goes into the open byte. -/
theorem writeBit_succ {w : Writer} {r : ℕ} (h : w.Room (r + 1)) (b : Bool) :
  ∃ w', writeBit w b = some w' ∧ w'.Room r ∧ w'.outputSize = w.outputSize
    ∧ w'.bitIndex = w.bitIndex
    ∧ w'.outputData = w.outputData.modify w.bitIndex (fun v => v ||| maskOf r b)
  := by
  have hmask : w.bitMask = 2 ^ r := by
    rw [h.mask, pow_succ]
    omega
  have hpos : w.bitMask ≠ 0 := by
    rw [hmask]
    positivity
  have hindex := h.index (Nat.succ_pos r)
  refine ⟨{ w with
    outputData := w.outputData.modify w.bitIndex (fun v => v ||| maskOf r b)
    bitMask := w.bitMask / 2 }, ?_, ⟨?_, ?_, h.backtrack⟩, rfl, rfl, rfl⟩
  · rw [writeBit, if_neg (by simp [h.backtrack]), openBitByte, if_neg hpos]
    cases b with
    | false =>
        rw [maskOf, if_neg Bool.false_ne_true, modify_or_zero]
        simp
    | true => simp [maskOf, hmask]
  · dsimp only
    rw [hmask]
  · intro _
    rw [List.length_modify]
    exact hindex

/-- A bit opens a byte. -/
theorem writeBit_zero {w : Writer} (h : w.Room 0) (hsize : w.outputData.length < w.outputSize)
    (b : Bool) :
  ∃ w', writeBit w b = some w' ∧ w'.Room 7 ∧ w'.outputSize = w.outputSize
    ∧ w'.bitIndex = w.outputData.length ∧ w'.outputData = w.outputData ++ [maskOf 7 b]
  := by
  have hmask : w.bitMask = 0 := h.mask
  refine ⟨{ w with
    outputData := w.outputData ++ [maskOf 7 b]
    bitIndex := w.outputData.length
    bitMask := 64 }, ?_, ⟨rfl, ?_, h.backtrack⟩, rfl, rfl, rfl⟩
  · rw [writeBit, if_neg (by simp [h.backtrack]), openBitByte, if_pos hmask, writeByte,
      if_pos hsize]
    cases b with
    | false => simp [maskOf]
    | true => simp [maskOf, modify_length]
  · intro _
    simp

/-- What is written is stored as its layout, if there is room. -/
theorem writeToks_layout
    {w : Writer} {r : ℕ} (h : w.Room r) (hr : r < 8) (ts : List Tok)
    (hsize : w.outputData.length + (layout r ts).2.length ≤ w.outputSize) :
  ∃ w', writeToks w ts = some w' ∧ w'.outputData
    = w.outputData.modify w.bitIndex (fun v => v ||| (layout r ts).1) ++ (layout r ts).2
  := by
  induction ts generalizing w r with
  | nil =>
      refine ⟨w, rfl, ?_⟩
      rw [layout, modify_or_zero, List.append_nil]
  | cons t ts ih =>
      rw [writeToks_cons]
      cases t with
      | byte v =>
          rw [layout_byte] at hsize ⊢
          rw [List.length_cons] at hsize
          rw [writeTok, writeByte, if_pos (by omega), Option.bind_some]
          have hroom : Writer.Room { w with outputData := w.outputData ++ [v] } r := by
            refine ⟨h.mask, ?_, h.backtrack⟩
            intro hpos
            have := h.index hpos
            rw [List.length_append]
            dsimp only
            omega
          obtain ⟨w', hrun, hout⟩ := ih hroom hr (by
            rw [List.length_append, List.length_singleton]
            dsimp only
            omega)
          refine ⟨w', hrun, ?_⟩
          rw [hout]
          dsimp only
          by_cases hpos : 0 < r
          · rw [modify_append (h.index hpos), List.append_assoc]
            rfl
          · obtain rfl : r = 0 := by omega
            rw [layout_zero, modify_or_zero, modify_or_zero, List.append_assoc]
            rfl
      | bit b =>
          cases r with
          | zero =>
              simp only [layout, List.length_cons] at hsize ⊢
              obtain ⟨w₁, hbit, hroom, houtputSize, hbitIndex, hout₁⟩ :=
                writeBit_zero h (by omega) b
              rw [writeTok, hbit, Option.bind_some]
              obtain ⟨w', hrun, hout⟩ := ih hroom (by omega) (by
                rw [hout₁, houtputSize, List.length_append, List.length_singleton]
                omega)
              refine ⟨w', hrun, ?_⟩
              rw [hout, hbitIndex, hout₁, modify_length, modify_or_zero, List.append_assoc]
              rfl
          | succ r =>
              simp only [layout] at hsize ⊢
              obtain ⟨w₁, hbit, hroom, houtputSize, hbitIndex, hout₁⟩ := writeBit_succ h b
              rw [writeTok, hbit, Option.bind_some]
              obtain ⟨w', hrun, hout⟩ := ih hroom (by omega) (by
                rw [hout₁, houtputSize, List.length_modify]
                exact hsize)
              refine ⟨w', hrun, ?_⟩
              rw [hout, hbitIndex, hout₁, modify_or_or]

end LnxCad.Zx0
