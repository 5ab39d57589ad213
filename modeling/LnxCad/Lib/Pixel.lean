import Mathlib.Tactic

/-!
# Packed pixels

A word of 32 bits holds four channels of eight.  Channels are taken out with shifts and masks and
put together with shifts and disjunctions; a weighted mean of two of them is computed in the
arithmetic of words, where it does not overflow.
-/

namespace Pixel

/-- The channel of a pixel that begins at bit `k`. -/
def channel (p : UInt32) (k : ℕ) : ℕ := p.toNat / 2 ^ k % 256

theorem channel_lt (p : UInt32) (k : ℕ) :
  channel p k < 256
  := Nat.mod_lt _ (by decide)

/-- What holds of each of the three colours. -/
theorem forall_colours {P : ℕ → Prop} (hr : P 16) (hg : P 8) (hb : P 0) :
  ∀ k ∈ [16, 8, 0], P k
  := by
  intro k hk
  simp only [List.mem_cons, List.not_mem_nil, or_false] at hk
  obtain rfl | rfl | rfl := hk
  · exact hr
  · exact hg
  · exact hb

theorem toNat_and_mask (p : UInt32) :
  (p &&& 255).toNat = p.toNat % 256
  := by
  rw [UInt32.toNat_and]
  exact Nat.and_two_pow_sub_one_eq_mod p.toNat 8

/-- A shift and a mask take out a channel. -/
theorem toNat_shiftRight_and (p : UInt32) {k : ℕ} (hk : k < 32) :
  ((p >>> UInt32.ofNat k) &&& 255).toNat = channel p k
  := by
  have hshift : (UInt32.ofNat k).toNat % 32 = k := by
    rw [UInt32.toNat_ofNat']
    omega
  rw [toNat_and_mask, UInt32.toNat_shiftRight, hshift, Nat.shiftRight_eq_div_pow]
  rfl

/-- Three channels in one word. -/
def pack (r g b : UInt32) : UInt32 := (r <<< 16) ||| (g <<< 8) ||| b

theorem toNat_pack {r g b : UInt32} (hr : r.toNat < 256) (hg : g.toNat < 256) (hb : b.toNat < 256) :
  (pack r g b).toNat = r.toNat * 65536 + g.toNat * 256 + b.toNat
  := by
  have hr' : (r <<< 16).toNat = (r.toNat * 256) <<< 8 := by
    rw [UInt32.toNat_shiftLeft, Nat.shiftLeft_eq, Nat.shiftLeft_eq]
    have h16 : (16 : UInt32).toNat % 32 = 16 := by decide
    rw [h16]
    omega
  have hg' : (g <<< 8).toNat = g.toNat <<< 8 := by
    rw [UInt32.toNat_shiftLeft, Nat.shiftLeft_eq, Nat.shiftLeft_eq]
    have h8 : (8 : UInt32).toNat % 32 = 8 := by decide
    rw [h8]
    omega
  have hfront : r.toNat * 256 ||| g.toNat = r.toNat * 256 + g.toNat := by
    rw [← Nat.shiftLeft_eq r.toNat 8, Nat.shiftLeft_add_eq_or_of_lt hg]
  rw [pack, UInt32.toNat_or, UInt32.toNat_or, hr', hg', ← Nat.shiftLeft_or_distrib, hfront,
    ← Nat.shiftLeft_add_eq_or_of_lt hb, Nat.shiftLeft_eq]
  omega

/-- A packed pixel has the channels that were put into it, and a clear fourth one. -/
theorem channel_pack {r g b : UInt32} (hr : r.toNat < 256) (hg : g.toNat < 256)
    (hb : b.toNat < 256) :
  channel (pack r g b) 16 = r.toNat ∧ channel (pack r g b) 8 = g.toNat
    ∧ channel (pack r g b) 0 = b.toNat ∧ channel (pack r g b) 24 = 0
  := by
  unfold channel
  rw [toNat_pack hr hg hb]
  omega

/-- A mask that clears the fourth channel leaves the other three. -/
theorem channel_and_mask (p : UInt32) :
  (∀ k ∈ [16, 8, 0], channel (p &&& 0xFFFFFF) k = channel p k) ∧ channel (p &&& 0xFFFFFF) 24 = 0
  := by
  have hmask : (p &&& 0xFFFFFF).toNat = p.toNat % 2 ^ 24 := by
    rw [UInt32.toNat_and]
    exact Nat.and_two_pow_sub_one_eq_mod p.toNat 24
  unfold channel
  rw [hmask]
  constructor
  · apply forall_colours
    · omega
    · omega
    · omega
  · omega

/-- A weighted sum of two channels does not overflow. -/
theorem toNat_weighted {s t v w : UInt32} {a b c d : ℕ} (hs : s.toNat = a) (ht : t.toNat = b)
    (hv : v.toNat = c) (hw : w.toNat = d) (ha : a < 256) (hb : b < 256) (hc : c < 256)
    (hd : d < 256) :
  ((s * v + t * w) / 255).toNat = (a * c + b * d) / 255
  := by
  have hsv : a * c ≤ 255 * 255 := Nat.mul_le_mul (by omega) (by omega)
  have htw : b * d ≤ 255 * 255 := Nat.mul_le_mul (by omega) (by omega)
  rw [UInt32.toNat_div, UInt32.toNat_add, UInt32.toNat_mul, UInt32.toNat_mul, hs, ht, hv, hw,
    Nat.mod_eq_of_lt (a := a * c) (by omega), Nat.mod_eq_of_lt (a := b * d) (by omega),
    Nat.mod_eq_of_lt (by omega)]
  rfl

end Pixel
