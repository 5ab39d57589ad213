import LnxCad.Zx0.Calls

/-!
# The size of the output buffer

`zx0_compress` reserves its buffer from the cost the search has summed up, and fills it.
-/

namespace LnxCad.Zx0

/-- The chain the search returns is written without leaving the buffer, whose size is computed
from the cost of the chain, and no byte of the buffer is left as new memory contains it. -/
theorem zx0Compress_fills
    {p : Pool} (hp : CalledPool p) {x : Bytes} (hpos : x ≠ []) (hx : x.length < 2 ^ 27)
    (bestLength : ℕ → ℕ) {fuel : ℕ} (hfuel : x.length + 1 < fuel) :
  ∃ mem a c p', zx0Optimize poolStore ⟨p, fun _ => none⟩ bestLength x 0 maxOffsetZx0 = some mem
    ∧ mem.slots (.optimal (x.length - 1)) = some a
    ∧ (c.length : ℤ) = ((mem.pool.cells a).block.bits + 25) / 8
    ∧ ∀ newMemory, zx0Compress fuel newMemory mem.pool a x 0 false true
      = some (c, ((mem.pool.cells a).block.bits + 25) / 8, p')
  := by
  obtain ⟨mem, a, b, c, pinned, gs, hrun, hslot, -, hdenotes, hparse, hend⟩ :=
    zx0Optimize_denotes hp.reusable hpos hx bestLength
  obtain ⟨p', as, hcompress, hsize, -⟩ := zx0Compress_eq hdenotes hparse hend hpos hx hfuel
  exact ⟨mem, a, _, p', hrun, hslot, hsize, hcompress⟩

theorem zx0Compress_fills_abab :
  ∃ mem a c p', zx0Optimize poolStore ⟨Pool.init, fun _ => none⟩ (fun _ => 0) [97, 98, 97, 98] 0
      maxOffsetZx0 = some mem
    ∧ mem.slots (.optimal 3) = some a
    ∧ (c.length : ℤ) = ((mem.pool.cells a).block.bits + 25) / 8
    ∧ ∀ newMemory, zx0Compress 6 newMemory mem.pool a [97, 98, 97, 98] 0 false true
      = some (c, ((mem.pool.cells a).block.bits + 25) / 8, p')
  := zx0Compress_fills CalledPool.start (by simp) (by decide) _ (by decide)

end LnxCad.Zx0
