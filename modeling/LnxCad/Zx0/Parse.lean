import LnxCad.Lib.EliasGamma
import LnxCad.Zx0.Optimize

/-!
# Parses

A parse of a byte string is a chain of blocks, the last one first, that starts with a fake
block before the string.  Literals follow a match or the fake block; a match of the last
offset follows literals; a match of another offset follows any block of the string.  The
cost of each block is that of the block before it and what it adds.

Two adjacent matches never have the same offset in a parse.
-/

namespace LnxCad.Zx0

/-! ### Costs -/

theorem eliasGammaBits_eq {v : ℕ} (h : v ≠ 0) :
  eliasGammaBits v = EliasGamma.length v
  := by
  rw [eliasGammaBits, if_neg (by omega), EliasGamma.length, Int.toNat_natCast]
  push_cast
  rfl

theorem one_le_eliasGammaBits (v : ℤ) :
  1 ≤ eliasGammaBits v
  := by
  unfold eliasGammaBits
  split
  · omega
  · omega

theorem eliasGammaBits_add_le {a b : ℤ} (ha : 0 < a) (hb : 0 < b) :
  eliasGammaBits (a + b) ≤ eliasGammaBits a + eliasGammaBits b + 1
  := by
  lift a to ℕ using ha.le
  lift b to ℕ using hb.le
  have := EliasGamma.length_add_le a b
  rw [← Nat.cast_add, eliasGammaBits_eq (by omega), eliasGammaBits_eq (by omega),
    eliasGammaBits_eq (by omega)]
  omega

theorem eliasGammaBits_le_sub_one {v : ℤ} (h : 1 < v) :
  eliasGammaBits v ≤ eliasGammaBits (v - 1) + 2
  := by
  have hone : eliasGammaBits 1 = 1 := rfl
  have := eliasGammaBits_add_le (a := v - 1) (b := 1) (by omega) (by omega)
  rw [sub_add_cancel] at this
  omega

theorem eliasGammaBits_lt {v : ℤ} (h : 0 < v) :
  eliasGammaBits v < 2 * v
  := by
  lift v to ℕ using h.le
  have := EliasGamma.length_lt (v := v) (by omega)
  rw [eliasGammaBits_eq (by omega)]
  omega

/-- What literals add to the cost. -/
def literalCost (length : ℤ) : ℤ := 1 + eliasGammaBits length + length * 8

/-- What a match of the last offset adds to the cost. -/
def againCost (length : ℤ) : ℤ := 1 + eliasGammaBits length

/-- What a match of a new offset adds to the cost. -/
def freshCost (offset : ℕ) (length : ℤ) : ℤ :=
  (8 : ℤ) + eliasGammaBits (((offset - 1) >>> 7 : ℕ) + 1) + eliasGammaBits (length - 1)

/-- The code of the upper part of an offset has at most 15 bits. -/
theorem eliasGammaBits_offset_le {offset : ℕ} (h : offset ≤ 32640) :
  eliasGammaBits (((offset - 1) >>> 7 : ℕ) + 1) ≤ 15
  := by
  have hmsb : (offset - 1) >>> 7 + 1 < 2 ^ (7 + 1) := by
    rw [Nat.shiftRight_eq_div_pow]
    omega
  have hlog := EliasGamma.log2_le_of_lt hmsb
  generalize (offset - 1) >>> 7 = msb at hlog ⊢
  rw [← Nat.cast_succ, eliasGammaBits_eq (Nat.succ_ne_zero msb), EliasGamma.length, Nat.succ_eq_add_one]
  omega

/-- A match of a new offset is dearer than one of the last offset. -/
theorem againCost_lt_freshCost (offset : ℕ) {n : ℤ} (h : 1 < n) :
  againCost n < freshCost offset n
  := by
  have hlen := eliasGammaBits_le_sub_one h
  have hmsb := one_le_eliasGammaBits (((offset - 1) >>> 7 : ℕ) + 1)
  unfold againCost freshCost
  omega

/-- A match of the last offset and one of the same offset behind it are dearer than one
match. -/
theorem againCost_add_lt (offset : ℕ) {a n : ℤ} (ha : 0 < a) (h : 1 < n) :
  againCost (a + n) < againCost a + freshCost offset n
  := by
  have hadd := eliasGammaBits_add_le ha (b := n) (by omega)
  have hlen := eliasGammaBits_le_sub_one h
  have hmsb := one_le_eliasGammaBits (((offset - 1) >>> 7 : ℕ) + 1)
  unfold againCost freshCost
  omega

/-- Two adjacent matches of a new offset are dearer than one, even without what depends on
the offset of the second. -/
theorem eliasGammaBits_add_lt (offset : ℕ) {a n : ℤ} (ha : 1 < a) (h : 1 < n) :
  eliasGammaBits (a + n - 1) < freshCost offset a + eliasGammaBits (n - 1)
  := by
  have hadd := eliasGammaBits_add_le (a := a - 1) (b := n) (by omega) (by omega)
  have hlen := eliasGammaBits_le_sub_one h
  have hmsb := one_le_eliasGammaBits (((offset - 1) >>> 7 : ℕ) + 1)
  rw [show a - 1 + n = a + n - 1 by ring] at hadd
  unfold freshCost
  omega

/-! ### Chains -/

/-- The offset of the last match of a chain. -/
def lastOffset : List Block → ℕ
  | [] => 0
  | b :: c => if b.offset = 0 then lastOffset c else b.offset

theorem lastOffset_cons_literal {b : Block} (h : b.offset = 0) (c : List Block) :
  lastOffset (b :: c) = lastOffset c
  := if_pos h

theorem lastOffset_cons_match {b : Block} (h : b.offset ≠ 0) (c : List Block) :
  lastOffset (b :: c) = b.offset
  := if_neg h

/-- The byte at a position is the one at an offset before it. -/
def MatchesAt (x : Bytes) (offset j : ℕ) : Prop :=
  offset ≤ j ∧ j < x.length ∧ x[j]? = x[j - offset]?

/-- The bytes behind one position, up to another, are those at an offset before them. -/
def Matches (x : Bytes) (offset : ℕ) (lo hi : ℤ) : Prop :=
  ∀ j : ℕ, lo < j → j ≤ hi → MatchesAt x offset j

/-- The fake block before the string. -/
def fakeBlock : Block := ⟨-1, -1, 1⟩

/-- The parses of a string, or of a part of it from the start. -/
inductive Parse (x : Bytes) : List Block → Prop where
  | start :
      Parse x [fakeBlock]
  | literals {b : Block} {c : List Block} {i : ℤ} :
      Parse x (b :: c) → b.offset ≠ 0 → b.index < i → i < x.length →
      Parse x (⟨b.bits + literalCost (i - b.index), i, 0⟩ :: b :: c)
  | again {b : Block} {c : List Block} {i : ℤ} :
      Parse x (b :: c) → b.offset = 0 → b.index < i → i < x.length →
      Matches x (lastOffset (b :: c)) b.index i →
      Parse x (⟨b.bits + againCost (i - b.index), i, lastOffset (b :: c)⟩ :: b :: c)
  | fresh {b : Block} {c : List Block} {i : ℤ} {offset : ℕ} :
      Parse x (b :: c) → 0 ≤ b.index → b.index + 1 < i → i < x.length →
      1 ≤ offset → offset ≤ 32640 → lastOffset (b :: c) ≠ offset →
      Matches x offset b.index i →
      Parse x (⟨b.bits + freshCost offset (i - b.index), i, offset⟩ :: b :: c)

variable {x : Bytes} {b d : Block} {c : List Block}

/-- What precedes the last block of a parse is a parse, and ends before it. -/
theorem Parse.tail (h : Parse x (b :: d :: c)) :
  Parse x (d :: c) ∧ d.index < b.index
  := by
  cases h with
  | literals h _ hlt _ => exact ⟨h, hlt⟩
  | again h _ hlt _ _ => exact ⟨h, hlt⟩
  | fresh h _ hlt _ _ _ _ _ =>
      refine ⟨h, ?_⟩
      dsimp only
      omega

/-- A parse that ends in the string does not consist of the fake block alone. -/
theorem Parse.exists_tail (h : Parse x (b :: c)) (hindex : 0 ≤ b.index) :
  ∃ d c', c = d :: c'
  := by
  cases h with
  | start => simp [fakeBlock] at hindex
  | literals => exact ⟨_, _, rfl⟩
  | again => exact ⟨_, _, rfl⟩
  | fresh => exact ⟨_, _, rfl⟩

/-- The last offset of a parse is that of the fake block or of a match. -/
theorem Parse.lastOffset_bounds (h : Parse x (b :: c)) :
  1 ≤ lastOffset (b :: c) ∧ lastOffset (b :: c) ≤ 32640
    ∧ (lastOffset (b :: c) = 1 ∨ (lastOffset (b :: c) : ℤ) ≤ b.index)
  := by
  generalize hchain : b :: c = chain at h ⊢
  induction h generalizing b c with
  | start =>
      simp [lastOffset, fakeBlock]
  | @literals d c' i h hoff hlt hi ih =>
      obtain ⟨rfl, rfl⟩ := List.cons.inj hchain
      have := ih rfl
      rw [lastOffset_cons_literal rfl]
      dsimp only
      omega
  | @again d c' i h hoff hlt hi hmatch ih =>
      obtain ⟨rfl, rfl⟩ := List.cons.inj hchain
      have := ih rfl
      rw [lastOffset_cons_match (Nat.one_le_iff_ne_zero.mp this.1)]
      dsimp only
      omega
  | @fresh d c' i offset h hindex hlt hi hone hmax hne hmatch ih =>
      obtain ⟨rfl, rfl⟩ := List.cons.inj hchain
      rw [lastOffset_cons_match (Nat.one_le_iff_ne_zero.mp hone)]
      have hpos := (hmatch i.toNat (by omega) (by omega)).1
      dsimp only
      omega

theorem Parse.index_bounds (h : Parse x (b :: c)) :
  -1 ≤ b.index ∧ b.index < x.length
  := by
  generalize hchain : b :: c = chain at h
  induction h generalizing b c with
  | start =>
      obtain ⟨rfl, rfl⟩ := List.cons.inj hchain
      simp only [fakeBlock]
      omega
  | literals h hoff hlt hi ih =>
      obtain ⟨rfl, rfl⟩ := List.cons.inj hchain
      have := ih rfl
      dsimp only
      omega
  | again h hoff hlt hi hmatch ih =>
      obtain ⟨rfl, rfl⟩ := List.cons.inj hchain
      have := ih rfl
      dsimp only
      omega
  | fresh h hindex hlt hi hone hmax hne hmatch ih =>
      obtain ⟨rfl, rfl⟩ := List.cons.inj hchain
      dsimp only
      omega

/-- The cost of a parse is at most twelve bits for each byte. -/
theorem Parse.bits_bounds (h : Parse x (b :: c)) :
  -1 ≤ b.bits ∧ b.bits < 12 * (b.index + 1)
  := by
  generalize hchain : b :: c = chain at h
  induction h generalizing b c with
  | start =>
      obtain ⟨rfl, rfl⟩ := List.cons.inj hchain
      simp [fakeBlock]
  | @literals d c' i h hoff hlt hi ih =>
      obtain ⟨rfl, rfl⟩ := List.cons.inj hchain
      have := ih rfl
      have hone := one_le_eliasGammaBits (i - d.index)
      have hlen := eliasGammaBits_lt (v := i - d.index) (by omega)
      simp only [literalCost]
      omega
  | @again d c' i h hoff hlt hi hmatch ih =>
      obtain ⟨rfl, rfl⟩ := List.cons.inj hchain
      have := ih rfl
      have hone := one_le_eliasGammaBits (i - d.index)
      have hlen := eliasGammaBits_lt (v := i - d.index) (by omega)
      simp only [againCost]
      omega
  | @fresh d c' i offset h hindex hlt hi hone hmax hne hmatch ih =>
      obtain ⟨rfl, rfl⟩ := List.cons.inj hchain
      have := ih rfl
      have hmsb := one_le_eliasGammaBits (((offset - 1) >>> 7 : ℕ) + 1)
      have hmsb' := eliasGammaBits_offset_le hmax
      have hlen := one_le_eliasGammaBits (i - d.index - 1)
      have hlen' := eliasGammaBits_lt (v := i - d.index - 1) (by omega)
      simp only [freshCost]
      omega

/-- A match follows literals behind a match of its offset, or a parse with another last
offset. -/
theorem Parse.match_cases (h : Parse x (b :: d :: c)) (hoff : b.offset ≠ 0) :
  (d.offset = 0 ∧ lastOffset (d :: c) = b.offset ∧ b.bits = d.bits + againCost (b.index - d.index))
    ∨ (lastOffset (d :: c) ≠ b.offset ∧ b.bits = d.bits + freshCost b.offset (b.index - d.index)
      ∧ 0 ≤ d.index ∧ d.index + 1 < b.index ∧ Matches x b.offset d.index b.index)
  := by
  cases h with
  | literals => simp at hoff
  | again h hd hlt hi hmatch => exact Or.inl ⟨hd, rfl, rfl⟩
  | fresh h hindex hlt hi hone hmax hne hmatch =>
      exact Or.inr ⟨hne, rfl, hindex, hlt, hmatch⟩

end LnxCad.Zx0
