import LnxCad.Zx0.Refinement
import LnxCad.Zx0.SearchRun
import LnxCad.Zx0.Writing

/-!
# The compressor emits the stream of a parse

The chain of the best parse is turned round in the pool and written block by block.  The
output is the stream of the parse, in a buffer of exactly its length.
-/

namespace LnxCad.Zx0

open Interleave Linked

/-! ### Turning a chain round -/

/-- The link of a block to the one it follows. -/
def Pool.link (p : Pool) (a : Addr) : Option Addr := (p.cells a).chain

/-- One pool differs from another in the links of some blocks only. -/
structure Relinked (p p' : Pool) (as : List Addr) : Prop where
  cells : ∀ e, p'.cells e = { p.cells e with chain := p'.link e }
  kept : ∀ e ∉ as, p'.link e = p.link e
  ghostRoot : p'.ghostRoot = p.ghostRoot
  unused : p'.unused = p.unused

theorem Relinked.block {p p' : Pool} {as : List Addr} (h : Relinked p p' as) (e : Addr) :
  (p'.cells e).block = (p.cells e).block
  := by
  rw [h.cells]

theorem link_modify (p : Pool) (a : Addr) (q : Option Addr) :
  (p.modify a (fun c => { c with chain := q })).link = Function.update p.link a q
  := by
  funext e
  by_cases h : e = a
  · subst h
    simp [Pool.link, Pool.modify]
  · simp [Pool.link, Pool.modify, h]

/-- A chain is turned round, and put before what the previous block was. -/
theorem unReverse_segment
    {p : Pool} {q : Option Addr} {as : List Addr} (h : Segment p.link q as none)
    (hnodup : as.Nodup) (prev : Option Addr) {fuel : ℕ} (hfuel : as.length < fuel) :
  ∃ p' r, unReverse fuel p prev q = some (p', r) ∧ Segment p'.link r as.reverse prev
    ∧ Relinked p p' as
  := by
  induction as generalizing p q prev fuel with
  | nil =>
      obtain rfl : q = none := h
      obtain ⟨fuel, rfl⟩ := Nat.exists_eq_succ_of_ne_zero (Nat.ne_of_gt hfuel)
      exact ⟨p, prev, rfl, rfl, fun _ => rfl, fun _ _ => rfl, rfl, rfl⟩
  | cons a as ih =>
      obtain ⟨rfl, hrest⟩ := h
      obtain ⟨ha, hnodup⟩ := List.nodup_cons.mp hnodup
      obtain ⟨fuel, rfl⟩ := Nat.exists_eq_succ_of_ne_zero (Nat.ne_zero_of_lt hfuel)
      have hrest' : Segment (p.modify a (fun c => { c with chain := prev })).link (p.link a) as
          none := by
        rw [link_modify]
        apply hrest.update ha
      obtain ⟨p', r, hrun, hsegment, hrelinked⟩ := ih hrest' hnodup (some a) (show as.length < fuel by
        simpa using hfuel)
      have hlink : p'.link a = prev := by
        rw [hrelinked.kept a ha, link_modify, Function.update_self]
      refine ⟨p', r, hrun, ?_, ?_, ?_, hrelinked.ghostRoot, hrelinked.unused⟩
      · rw [List.reverse_cons]
        apply hsegment.snoc hlink
      · intro e
        rw [hrelinked.cells]
        by_cases he : e = a
        · subst he
          simp [Pool.modify]
        · simp [Pool.modify, he]
      · intro e he
        rw [List.mem_cons, not_or] at he
        rw [hrelinked.kept e he.2, link_modify, Function.update_of_ne he.1]

/-- Blocks linked in order are written in order. -/
theorem writeChain_eq
    (x : Bytes) {p : Pool} {prev : Addr} {as : List Addr}
    (h : Segment p.link (p.link prev) as none) (e : Emitter) {fuel : ℕ} (hfuel : as.length < fuel) :
  writeChain x false true p fuel prev e
    = writeBlocks x (p.cells prev).block (as.map (fun a => (p.cells a).block)) e
  := by
  induction as generalizing prev e fuel with
  | nil =>
      obtain ⟨fuel, rfl⟩ := Nat.exists_eq_succ_of_ne_zero (Nat.ne_of_gt hfuel)
      have hlink : (p.cells prev).chain = none := h
      rw [writeChain, hlink]
      rfl
  | cons a as ih =>
      obtain ⟨hlink, hrest⟩ := h
      obtain ⟨fuel, rfl⟩ := Nat.exists_eq_succ_of_ne_zero (Nat.ne_zero_of_lt hfuel)
      have hchain : (p.cells prev).chain = some a := hlink
      rw [writeChain, hchain, List.map_cons, writeBlocks]
      dsimp only [Option.bind_eq_bind]
      congr 1
      funext e'
      apply ih hrest e' (by simpa using hfuel)

/-! ### The chain of a parse -/

theorem Pool.Denotes.exists_segment
    {p : Pool} {pinned : Finset Addr} {q : Option Addr} {c : List Block}
    (h : p.Denotes pinned q c) :
  ∃ as, Segment p.link q as none ∧ as.map (fun a => (p.cells a).block) = c
    ∧ ∀ a ∈ as, a ∉ pinned
  := by
  induction c generalizing q with
  | nil =>
      cases q with
      | none => exact ⟨[], rfl, rfl, by simp⟩
      | some a => exact h.elim
  | cons b c ih =>
      cases q with
      | none => exact h.elim
      | some a =>
          obtain ⟨hpinned, rfl, hrest⟩ := h
          obtain ⟨as, hsegment, rfl, hnot⟩ := ih hrest
          refine ⟨a :: as, ⟨rfl, hsegment⟩, rfl, ?_⟩
          intro e he
          obtain rfl | he := List.mem_cons.mp he
          · exact hpinned
          · apply hnot e he

variable {x : Bytes} {b : Block} {c : List Block}

/-- A parse in order starts with the fake block. -/
theorem Parse.reverse_eq (h : Parse x c) :
  c.reverse = fakeBlock :: inOrder c
  := by
  have hcons : ∀ {b d : Block} {c : List Block}, (d :: c).reverse = fakeBlock :: inOrder (d :: c) →
      (b :: d :: c).reverse = fakeBlock :: inOrder (b :: d :: c) := by
    intro b d c hc
    rw [List.reverse_cons, hc, inOrder_cons, List.cons_append]
  induction h with
  | start => rfl
  | literals h hoff hlt hi ih => exact hcons ih
  | again h hoff hlt hi hmatch ih => exact hcons ih
  | fresh h hindex hlt hi hone hmax hne hmatch ih => exact hcons ih

/-! ### The stream of a parse -/

/-- The blocks of a whole string start with literals, whose announcement is left out. -/
theorem Steps.eq_cons_streamToks {bs : List Block} (h : Steps x false 1 (-1) bs) (hx : x ≠ []) :
  blocksToks x 1 (-1) bs ++ endToks = .bit false :: streamToks x bs
  := by
  cases h with
  | finish hend =>
      have hlen := List.length_pos_iff.mpr hx
      omega
  | literals hb hlt hi hrest =>
      rw [streamToks, blocksToks, blockToks, if_pos hb]
      rfl
  | fresh hb hone hmax hindex => omega

theorem size_endToks :
  size endToks = 18
  := by
  rw [endToks, size_cons, gammaToks, size_map_bit, EliasGamma.length_code, Tok.size]
  decide

/-- The stream of the blocks of a string has the length that is computed from their cost. -/
theorem Steps.length_layout {bs : List Block} (h : Steps x false 1 (-1) bs) (hx : x ≠ []) :
  ((layout 0 (streamToks x bs)).2.length : ℤ) = (blocksCost 1 (-1) bs + 24) / 8
  := by
  have hblocks := h.size_blocksToks (le_refl _)
  have hstream := congrArg size (h.eq_cons_streamToks hx)
  rw [size_append, size_cons, size_endToks, Tok.size] at hstream
  have hlength := Interleave.length_layout (r := 0) (by omega) (streamToks x bs)
  omega

/-- The cost of a parse leaves out one bit of that of its blocks. -/
theorem Parse.blocksCost_eq (h : Parse x (b :: c)) (hindex : b.index + 1 = x.length) :
  Steps x false 1 (-1) (inOrder (b :: c)) ∧ blocksCost 1 (-1) (inOrder (b :: c)) = b.bits + 1
  := by
  have hsteps : Steps x false 1 (-1) (inOrder (b :: c)) := by
    have := h.steps (Steps.finish hindex)
    rwa [List.append_nil] at this
  have hblocks := h.size_blocksToks []
  rw [List.append_nil, hsteps.size_blocksToks (le_refl _), blocksToks] at hblocks
  have hnil : size [] = 0 := rfl
  exact ⟨hsteps, by omega⟩

/-- Blocks written from the start are stored as the layout of their stream, if there is room
for it. -/
theorem writeBlocks_layout
    {root : Block} (hroot : root.index = -1) {bs : List Block} (hsteps : Steps x false 1 (-1) bs)
    (hwritable : Writable 1 (-1) bs) (hx : x ≠ []) {outputSize : ℕ}
    (hsize : (layout 0 (streamToks x bs)).2.length ≤ outputSize) :
  ∃ e w w', writeBlocks x root bs (startEmitter outputSize 0) = some e
    ∧ writeBit e.writer true = some w
    ∧ writeInterlacedEliasGamma w 256 false true = some w'
    ∧ w'.outputData = (layout 0 (streamToks x bs)).2
  := by
  have hstart : Writer.Room ⟨[], outputSize, 0, 0, false⟩ 0 :=
    ⟨rfl, fun h => absurd h (lt_irrefl 0), rfl⟩
  obtain ⟨w', hrun, hout⟩ := writeToks_layout hstart (by omega) (streamToks x bs) (by simpa using hsize)
  have hwriter := writeBlocks_eq (p := root) (hroot ▸ hsteps) (by omega)
    (show 1 ≤ 32640 by decide) (hroot ▸ hwritable) (e := startEmitter outputSize 0)
    ⟨by rw [hroot]; rfl, rfl⟩
  -- the announcement of the first literals is taken by the writer's first backtrack
  have hall : writeToks (startEmitter outputSize 0).writer
      (blocksToks x 1 (-1) bs ++ endToks) = some w' := by
    rw [hsteps.eq_cons_streamToks hx, writeToks_cons]
    exact hrun
  rw [writeToks_append, Option.bind_eq_some_iff] at hall
  obtain ⟨w₁, hblocks, hend⟩ := hall
  rw [hroot] at hwriter
  obtain ⟨e, hwrite, rfl⟩ := Option.map_eq_some_iff.mp (hwriter.trans hblocks)
  rw [endToks, writeToks_cons, Option.bind_eq_some_iff] at hend
  obtain ⟨w, hbit, hgamma⟩ := hend
  refine ⟨e, w, w', hwrite, hbit, ?_, ?_⟩
  · rw [writeInterlacedEliasGamma_eq w (by omega)]
    exact hgamma
  · rw [hout]
    rfl

/-- The buffer of the compressor: what is written, and what new memory contains behind it. -/
def filledUp (newMemory : ℕ → UInt8) (size : ℕ) (written : Bytes) : Bytes :=
  written ++ (List.range (size - written.length)).map (fun i => newMemory (written.length + i))

/-- The chain of the blocks of a string is turned round, and its blocks are written in order. -/
theorem unReverse_steps
    {p : Pool} {a : Addr} {as : List Addr} (hsegment : Segment p.link (some a) as none)
    {root : Block} {bs : List Block}
    (hblocks : (as.map (fun e => (p.cells e).block)).reverse = root :: bs)
    (hroot : root.index = -1) (hsteps : Steps x false 1 (-1) bs) {fuel : ℕ}
    (hfuel : x.length + 1 < fuel) :
  ∃ p' first, Relinked p p' as ∧ as.Nodup
    ∧ unReverse fuel p none (some a) = some (p', some first)
    ∧ ∀ e, writeChain x false true p' fuel first e = writeBlocks x root bs e
  := by
  have hnodup : as.Nodup := by
    have hpairwise : (root :: bs).Pairwise (fun b d => b.index < d.index) :=
      List.pairwise_cons.mpr (hroot.symm ▸ hsteps.pairwise)
    rw [← hblocks, List.pairwise_reverse, List.pairwise_map] at hpairwise
    apply hpairwise.imp
    rintro e _ hlt rfl
    exact lt_irrefl _ hlt
  have hlength : as.length ≤ x.length + 1 := by
    have hle := hsteps.length_le
    have hmap := congrArg List.length hblocks
    rw [List.length_reverse, List.length_map, List.length_cons] at hmap
    omega
  obtain ⟨p', r, hreverse, hsegment', hrelinked⟩ :=
    unReverse_segment hsegment hnodup none (show as.length < fuel by omega)
  have hchain : as.reverse.map (fun e => (p'.cells e).block) = root :: bs := by
    rw [← hblocks, ← List.map_reverse]
    apply List.map_congr_left
    intro e _
    apply hrelinked.block
  obtain ⟨first, rest, hfirst⟩ : ∃ first rest, as.reverse = first :: rest := by
    cases hrev : as.reverse with
    | nil =>
        rw [hrev, List.map_nil] at hchain
        cases hchain
    | cons first rest => exact ⟨first, rest, rfl⟩
  rw [hfirst, List.map_cons, List.cons.injEq] at hchain
  rw [hfirst] at hsegment'
  obtain ⟨rfl, hrest⟩ := hsegment'
  have hrestLength := congrArg List.length hfirst
  rw [List.length_reverse, List.length_cons] at hrestLength
  refine ⟨p', first, hrelinked, hnodup, hreverse, fun e => ?_⟩
  rw [writeChain_eq x hrest e (by omega), hchain.1, hchain.2]

/-- `zx0_compress` returns the stream of the chain it is given, and relinks its blocks; the
cost in the last block has to leave room for the stream, and every length has to be one that
can be written. -/
theorem zx0Compress_steps
    {p : Pool} {a : Addr} {as : List Addr} (hsegment : Segment p.link (some a) as none)
    {root : Block} {bs : List Block}
    (hblocks : (as.map (fun e => (p.cells e).block)).reverse = root :: bs)
    (hroot : root.index = -1) (hsteps : Steps x false 1 (-1) bs)
    (hwritable : Writable 1 (-1) bs) (hpos : x ≠ [])
    (hcost : blocksCost 1 (-1) bs ≤ (p.cells a).block.bits + 1)
    (hbits : (p.cells a).block.bits + 25 < 2 ^ 31) {fuel : ℕ} (hfuel : x.length + 1 < fuel) :
  ∃ p', Relinked p p' as ∧ as.Nodup
    ∧ ∀ newMemory, zx0Compress fuel newMemory p a x 0 false true
      = some (filledUp newMemory (((p.cells a).block.bits + 25) / 8).toNat
          (layout 0 (streamToks x bs)).2, ((p.cells a).block.bits + 25) / 8, p')
  := by
  obtain ⟨p', first, hrelinked, hnodup, hreverse, hchain⟩ :=
    unReverse_steps hsegment hblocks hroot hsteps hfuel
  have hlayout := hsteps.length_layout hpos
  have hsize : Int.tdiv (int32 ((p.cells a).block.bits + 25)) 8 = ((p.cells a).block.bits + 25) / 8 := by
    rw [int32_eq (by omega) hbits, Int.tdiv_eq_ediv_of_nonneg (by omega)]
  have hroom : (layout 0 (streamToks x bs)).2.length ≤ (((p.cells a).block.bits + 25) / 8).toNat := by
    omega
  obtain ⟨e, w, w', hwrite, hbit, hgamma, hout⟩ :=
    writeBlocks_layout hroot hsteps hwritable hpos hroom
  refine ⟨p', hrelinked, hnodup, fun newMemory => ?_⟩
  simp only [zx0Compress, hsize, hreverse, Option.bind_eq_bind, Option.bind_some, hchain, hwrite,
    hbit, hgamma, hout, filledUp]

/-- The stream of a parse fills the buffer that is computed from its cost. -/
theorem zx0Compress_eq
    {p : Pool} {pinned : Finset Addr} {a : Addr} (hdenotes : p.Denotes pinned (some a) (b :: c))
    (h : Parse x (b :: c)) (hindex : b.index + 1 = x.length) (hpos : x ≠ [])
    (hx : x.length < 2 ^ 27) {fuel : ℕ} (hfuel : x.length + 1 < fuel) :
  ∃ p' as, (∀ newMemory, zx0Compress fuel newMemory p a x 0 false true
      = some ((layout 0 (streamToks x (inOrder (b :: c)))).2,
          ((p.cells a).block.bits + 25) / 8, p'))
    ∧ ((layout 0 (streamToks x (inOrder (b :: c)))).2.length : ℤ) = ((p.cells a).block.bits + 25) / 8
    ∧ Segment p.link (some a) as none ∧ (∀ e ∈ as, e ∉ pinned) ∧ as.Nodup ∧ Relinked p p' as
  := by
  obtain ⟨as, hsegment, hblocks, hnot⟩ := hdenotes.exists_segment
  obtain ⟨hsteps, hcost⟩ := h.blocksCost_eq hindex
  have hbounds := h.bits_bounds
  have hlayout := hsteps.length_layout hpos
  have hlast : (p.cells a).block.bits = b.bits := by rw [hdenotes.2.1]
  rw [← hlast] at hcost hbounds
  have hwritable := hsteps.writable (by omega) (le_refl _) (by omega)
  obtain ⟨p', hrelinked, hnodup, hcompress⟩ := zx0Compress_steps hsegment
    (by rw [hblocks, h.reverse_eq]) rfl hsteps hwritable hpos (by omega) (by omega) hfuel
  have hsize : ((layout 0 (streamToks x (inOrder (b :: c)))).2.length : ℤ)
      = ((p.cells a).block.bits + 25) / 8 := by omega
  refine ⟨p', as, fun newMemory => ?_, hsize, hsegment, hnot, hnodup, hrelinked⟩
  rw [hcompress newMemory, ← hsize, filledUp, Int.toNat_natCast, Nat.sub_self, List.range_zero,
    List.map_nil, List.append_nil]

end LnxCad.Zx0
