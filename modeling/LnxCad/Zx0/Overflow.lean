import Mathlib.Logic.Relation
import LnxCad.Zx0.Reading
import LnxCad.Zx0.Termination

/-!
# What the decompressor has to be spared

The decompressor does not limit the numbers it reads.  It is read off the stream which numbers
it comes to, as numbers without a bound.  As long as those fit, nothing overflows and all
accesses stay in their arrays; and the first that does not fit overflows.
-/

namespace LnxCad.Zx0

/-! ### Numbers -/

/-- A number is ahead of the reader, and another reader is behind it. -/
def BitReader.Number (br : BitReader) (inverted : Bool) (v : ℕ) (br' : BitReader) : Prop :=
  v ≠ 0 ∧ Supplies br (EliasGamma.code inverted v) br'

variable {br br' : BitReader} {inverted : Bool}

theorem Supplies.opened {bits : List Bool} (h : Supplies br bits br') (hbr : br.Opened) :
  br'.Opened
  := by
  induction bits generalizing br with
  | nil =>
      obtain rfl : br = br' := h
      exact hbr
  | cons b bits ih =>
      obtain ⟨br₁, hbit, hrest⟩ := h
      exact ih hrest (rdBit_unread hbr hbit).1

theorem eq_of_toNat_eq {a b : Bool} (h : a.toNat = b.toNat) :
  a = b
  := by
  revert a b
  decide

/-- Whatever is read completes a number. -/
theorem exists_digits (inverted : Bool) {br : BitReader} (hbr : br.Opened) (w : ℕ) :
  ∃ v k br', v >>> k = w ∧ Supplies br (EliasGamma.digits inverted v k) br'
  := by
  induction hunread : br.unread using Nat.strongRecOn generalizing br w with
  | ind n ih =>
      subst hunread
      cases hstop : rdBit br with
      | mk stop br₁ =>
          obtain ⟨hopened₁, -, hlt₁⟩ := rdBit_unread hbr hstop
          cases stop with
          | true => exact ⟨w, 0, br₁, rfl, br₁, hstop, rfl⟩
          | false =>
              cases hdigit : rdBit br₁ with
              | mk b br₂ =>
                  obtain ⟨hopened₂, hle₂, -⟩ := rdBit_unread hopened₁ hdigit
                  obtain ⟨v, k, br', hshift, hrest⟩ := ih br₂.unread (hle₂.trans_lt (hlt₁ rfl)) hopened₂
                    (2 * w + (b ^^ inverted).toNat) rfl
                  have hstep := EliasGamma.shiftRight_mul_two_add v k
                  have hb := Bool.toNat_le (b ^^ inverted)
                  have hbit := Bool.toNat_le (v.testBit k)
                  have htest : v.testBit k = (b ^^ inverted) := eq_of_toNat_eq (by omega)
                  refine ⟨v, k + 1, br', by omega, br₁, hstop, br₂, ?_, hrest⟩
                  rw [htest, Bool.xor_assoc, Bool.xor_self, Bool.xor_false]
                  exact hdigit

theorem exists_number (inverted : Bool) (hbr : br.Opened) :
  ∃ v br', br.Number inverted v br'
  := by
  obtain ⟨v, k, br', hshift, hdigits⟩ := exists_digits inverted hbr 1
  have hv : v ≠ 0 := by
    rintro rfl
    simp at hshift
  have hk : Nat.log2 v = k := by
    rw [Nat.shiftRight_eq_div_pow] at hshift
    rw [Nat.log2_eq_iff hv]
    have hpos : 0 < 2 ^ k := Nat.two_pow_pos k
    obtain ⟨hlo, hhi⟩ := (Nat.div_eq_iff hpos).mp hshift
    rw [pow_succ]
    omega
  refine ⟨v, br', hv, ?_⟩
  rw [EliasGamma.code, hk]
  exact hdigits

/-- Only one number is ahead. -/
theorem digits_unique
    {v w k l : ℕ} {br₁ br₂ : BitReader} (hv : Supplies br (EliasGamma.digits inverted v k) br₁)
    (hw : Supplies br (EliasGamma.digits inverted w l) br₂) (h : v >>> k = w >>> l) :
  v = w ∧ br₁ = br₂
  := by
  induction k generalizing br l with
  | zero =>
      cases l with
      | zero =>
          obtain ⟨b₁, hbit₁, rfl⟩ := hv
          obtain ⟨b₂, hbit₂, rfl⟩ := hw
          rw [hbit₁] at hbit₂
          exact ⟨h, (Prod.ext_iff.mp hbit₂).2⟩
      | succ l =>
          obtain ⟨b₁, hbit₁, -⟩ := hv
          obtain ⟨b₂, hbit₂, -⟩ := hw
          rw [hbit₁] at hbit₂
          cases hbit₂
  | succ k ih =>
      cases l with
      | zero =>
          obtain ⟨b₁, hbit₁, -⟩ := hv
          obtain ⟨b₂, hbit₂, -⟩ := hw
          rw [hbit₁] at hbit₂
          cases hbit₂
      | succ l =>
          obtain ⟨b₁, hbit₁, c₁, hdigit₁, hrest₁⟩ := hv
          obtain ⟨b₂, hbit₂, c₂, hdigit₂, hrest₂⟩ := hw
          rw [hbit₁] at hbit₂
          obtain rfl : b₁ = b₂ := (Prod.ext_iff.mp hbit₂).2
          rw [hdigit₁] at hdigit₂
          obtain ⟨hdigit, rfl⟩ : _ ∧ c₁ = c₂ := Prod.ext_iff.mp hdigit₂
          have htest : v.testBit k = w.testBit l := by
            simpa using hdigit
          have hstep₁ := EliasGamma.shiftRight_mul_two_add v k
          have hstep₂ := EliasGamma.shiftRight_mul_two_add w l
          rw [htest] at hstep₁
          exact ih hrest₁ hrest₂ (by omega)

theorem BitReader.Number.unique
    {v w : ℕ} {br₁ br₂ : BitReader} (hv : br.Number inverted v br₁) (hw : br.Number inverted w br₂) :
  v = w ∧ br₁ = br₂
  := by
  apply digits_unique hv.2 hw.2
  rw [EliasGamma.shiftRight_log2 hv.1, EliasGamma.shiftRight_log2 hw.1]

/-! ### Reading the stream -/

/-- What comes next in a stream. -/
inductive Place where
  | literals
  | afterLiterals
  | afterMatch
  | offset

/-- What comes next, the reader, the last offset, and the number of bytes produced. -/
structure Standing where
  place : Place
  br : BitReader
  last : ℕ
  produced : ℕ

/-- One part of the stream after the other, in an output of a given length.  Literals have to be
there, matches may not reach back too far, and there has to be room. -/
inductive Standing.Step (cap : ℕ) : Standing → Standing → Prop where
  | literals {br br' : BitReader} {last n v : ℕ} :
      br.Number false v br' → v ≤ br'.src.length → n + v ≤ cap →
      Step cap ⟨.literals, br, last, n⟩ ⟨.afterLiterals, skipBytes v br', last, n + v⟩
  | again {br br₁ br' : BitReader} {last n v : ℕ} :
      rdBit br = (false, br₁) → br₁.Number false v br' → last ≤ n → n + v ≤ cap →
      Step cap ⟨.afterLiterals, br, last, n⟩ ⟨.afterMatch, br', last, n + v⟩
  | announceFirst {br br' : BitReader} {last n : ℕ} :
      rdBit br = (true, br') →
      Step cap ⟨.afterLiterals, br, last, n⟩ ⟨.offset, br', last, n⟩
  | announce {br br' : BitReader} {last n : ℕ} :
      rdBit br = (true, br') →
      Step cap ⟨.afterMatch, br, last, n⟩ ⟨.offset, br', last, n⟩
  | fresh {br br₁ br₂ br' : BitReader} {last n u t w : ℕ} :
      br.Number true u br₁ → u ≠ 256 → rdByte br₁ = ((t : ℤ), br₂) →
      BitReader.Number { br₂ with backtrack := true } false w br' → u * 128 - t / 2 ≤ n →
      n + (w + 1) ≤ cap →
      Step cap ⟨.offset, br, last, n⟩ ⟨.afterMatch, br', u * 128 - t / 2, n + (w + 1)⟩
  | back {br br' : BitReader} {last n : ℕ} :
      rdBit br = (false, br') →
      Step cap ⟨.afterMatch, br, last, n⟩ ⟨.literals, br', last, n⟩

/-- The numbers that come next are numbers of type `int`, and so are the offset and the length
that are computed from them. -/
def Standing.Fits (s : Standing) : Prop :=
  match s.place with
  | .literals => ∀ v br', s.br.Number false v br' → v < 2 ^ 31
  | .afterLiterals =>
      ∀ br₁ v br', rdBit s.br = (false, br₁) → br₁.Number false v br' → v < 2 ^ 31
  | .afterMatch => True
  | .offset =>
      ∀ u br₁, s.br.Number true u br₁ → u < 2 ^ 31
        ∧ (u ≠ 256 → ∀ (t : ℕ) br₂, rdByte br₁ = ((t : ℤ), br₂) → u * 128 < 2 ^ 31
          ∧ ∀ w br', BitReader.Number { br₂ with backtrack := true } false w br' → w + 1 < 2 ^ 31)

/-- The numbers fit, wherever the stream is read to. -/
def Standing.Clear (cap : ℕ) (s : Standing) : Prop :=
  ∀ s', Relation.ReflTransGen (Standing.Step cap) s s' → s'.Fits

theorem Standing.clear_iff {cap : ℕ} {s : Standing} :
  s.Clear cap ↔ s.Fits ∧ ∀ s', Step cap s s' → s'.Clear cap
  := by
  constructor
  · intro h
    exact ⟨h s .refl, fun s' hstep s'' hsteps => h s'' (.head hstep hsteps)⟩
  · rintro ⟨hfits, hnext⟩ s'' hsteps
    obtain rfl | ⟨s', hstep, hrest⟩ := Relation.ReflTransGen.cases_head hsteps
    · exact hfits
    · exact hnext s' hstep s'' hrest

variable {cap last n : ℕ}

theorem clear_literals {v : ℕ} (hv : br.Number false v br') :
  Standing.Clear cap ⟨.literals, br, last, n⟩ ↔ v < 2 ^ 31
    ∧ (v ≤ br'.src.length → n + v ≤ cap →
      Standing.Clear cap ⟨.afterLiterals, skipBytes v br', last, n + v⟩)
  := by
  rw [Standing.clear_iff]
  constructor
  · rintro ⟨hfits, hnext⟩
    exact ⟨hfits v br' hv, fun hsrc hroom => hnext _ (.literals hv hsrc hroom)⟩
  · rintro ⟨hfits, hnext⟩
    constructor
    · intro w br₂ hw
      obtain ⟨rfl, -⟩ := hv.unique hw
      exact hfits
    · intro s' hstep
      cases hstep with
      | literals hw hsrc hroom =>
          obtain ⟨rfl, rfl⟩ := hv.unique hw
          exact hnext hsrc hroom

theorem clear_again {br₁ : BitReader} {v : ℕ} (hbit : rdBit br = (false, br₁))
    (hv : br₁.Number false v br') :
  Standing.Clear cap ⟨.afterLiterals, br, last, n⟩ ↔ v < 2 ^ 31
    ∧ (last ≤ n → n + v ≤ cap → Standing.Clear cap ⟨.afterMatch, br', last, n + v⟩)
  := by
  rw [Standing.clear_iff]
  constructor
  · rintro ⟨hfits, hnext⟩
    exact ⟨hfits br₁ v br' hbit hv, fun hback hroom => hnext _ (.again hbit hv hback hroom)⟩
  · rintro ⟨hfits, hnext⟩
    constructor
    · intro br₂ w br₃ hbit' hw
      dsimp only at hbit'
      rw [hbit, Prod.mk.injEq] at hbit'
      obtain ⟨-, rfl⟩ := hbit'
      obtain ⟨rfl, -⟩ := hv.unique hw
      exact hfits
    · intro s' hstep
      cases hstep with
      | again hbit' hw hback hroom =>
          rw [hbit, Prod.mk.injEq] at hbit'
          obtain ⟨-, rfl⟩ := hbit'
          obtain ⟨rfl, rfl⟩ := hv.unique hw
          exact hnext hback hroom
      | announceFirst hbit' =>
          rw [hbit] at hbit'
          cases hbit'

theorem clear_announceFirst (hbit : rdBit br = (true, br')) :
  Standing.Clear cap ⟨.afterLiterals, br, last, n⟩ ↔ Standing.Clear cap ⟨.offset, br', last, n⟩
  := by
  rw [Standing.clear_iff]
  constructor
  · rintro ⟨-, hnext⟩
    exact hnext _ (.announceFirst hbit)
  · intro hclear
    constructor
    · intro br₁ v br₂ hbit'
      dsimp only at hbit'
      rw [hbit] at hbit'
      cases hbit'
    · intro s' hstep
      cases hstep with
      | again hbit' =>
          rw [hbit] at hbit'
          cases hbit'
      | announceFirst hbit' =>
          rw [hbit, Prod.mk.injEq] at hbit'
          obtain ⟨-, rfl⟩ := hbit'
          exact hclear

theorem clear_announce (hbit : rdBit br = (true, br')) :
  Standing.Clear cap ⟨.afterMatch, br, last, n⟩ ↔ Standing.Clear cap ⟨.offset, br', last, n⟩
  := by
  rw [Standing.clear_iff]
  constructor
  · rintro ⟨-, hnext⟩
    exact hnext _ (.announce hbit)
  · intro hclear
    refine ⟨trivial, fun s' hstep => ?_⟩
    cases hstep with
    | announce hbit' =>
        rw [hbit, Prod.mk.injEq] at hbit'
        obtain ⟨-, rfl⟩ := hbit'
        exact hclear
    | back hbit' =>
        rw [hbit] at hbit'
        cases hbit'

theorem clear_back (hbit : rdBit br = (false, br')) :
  Standing.Clear cap ⟨.afterMatch, br, last, n⟩ ↔ Standing.Clear cap ⟨.literals, br', last, n⟩
  := by
  rw [Standing.clear_iff]
  constructor
  · rintro ⟨-, hnext⟩
    exact hnext _ (.back hbit)
  · intro hclear
    refine ⟨trivial, fun s' hstep => ?_⟩
    cases hstep with
    | announce hbit' =>
        rw [hbit] at hbit'
        cases hbit'
    | back hbit' =>
        rw [hbit, Prod.mk.injEq] at hbit'
        obtain ⟨-, rfl⟩ := hbit'
        exact hclear

/-- The offset that ends the stream, or behind which there is no byte, has to fit itself. -/
theorem clear_offset {br₁ : BitReader} {u : ℕ} (hu : br.Number true u br₁)
    (hend : u = 256 ∨ ∀ (t : ℕ) br₂, rdByte br₁ ≠ ((t : ℤ), br₂)) :
  Standing.Clear cap ⟨.offset, br, last, n⟩ ↔ u < 2 ^ 31
  := by
  rw [Standing.clear_iff]
  constructor
  · rintro ⟨hfits, -⟩
    exact (hfits u br₁ hu).1
  · intro hlt
    constructor
    · intro u' br₂ hu'
      obtain ⟨rfl, rfl⟩ := hu.unique hu'
      refine ⟨hlt, fun hne t br₂ hbyte => ?_⟩
      obtain hend | hend := hend
      · exact absurd hend hne
      · exact absurd hbyte (hend t br₂)
    · intro s' hstep
      cases hstep with
      | fresh hu' hne hbyte =>
          obtain ⟨rfl, rfl⟩ := hu.unique hu'
          obtain hend | hend := hend
          · exact absurd hend hne
          · exact absurd hbyte (hend _ _)

/-- Another offset and the length behind it have to fit. -/
theorem clear_fresh {br₁ br₂ : BitReader} {u t w : ℕ} (hu : br.Number true u br₁) (hne : u ≠ 256)
    (hbyte : rdByte br₁ = ((t : ℤ), br₂))
    (hw : BitReader.Number { br₂ with backtrack := true } false w br') :
  Standing.Clear cap ⟨.offset, br, last, n⟩ ↔ u < 2 ^ 31 ∧ u * 128 < 2 ^ 31 ∧ w + 1 < 2 ^ 31
    ∧ (u * 128 - t / 2 ≤ n → n + (w + 1) ≤ cap →
      Standing.Clear cap ⟨.afterMatch, br', u * 128 - t / 2, n + (w + 1)⟩)
  := by
  rw [Standing.clear_iff]
  constructor
  · rintro ⟨hfits, hnext⟩
    obtain ⟨hlt, hrest⟩ := hfits u br₁ hu
    obtain ⟨hupper, hlength⟩ := hrest hne t br₂ hbyte
    exact ⟨hlt, hupper, hlength w br' hw,
      fun hback hroom => hnext _ (.fresh hu hne hbyte hw hback hroom)⟩
  · rintro ⟨hlt, hupper, hlength, hnext⟩
    constructor
    · intro u' br₃ hu'
      obtain ⟨rfl, rfl⟩ := hu.unique hu'
      refine ⟨hlt, fun _ t' br₃ hbyte' => ⟨hupper, fun w' br₄ hw' => ?_⟩⟩
      rw [hbyte, Prod.mk.injEq] at hbyte'
      obtain ⟨-, rfl⟩ := hbyte'
      obtain ⟨rfl, -⟩ := hw.unique hw'
      exact hlength
    · intro s' hstep
      cases hstep with
      | fresh hu' _ hbyte' hw' hback hroom =>
          obtain ⟨rfl, rfl⟩ := hu.unique hu'
          rw [hbyte, Prod.mk.injEq, Nat.cast_inj] at hbyte'
          obtain ⟨rfl, rfl⟩ := hbyte'
          obtain ⟨rfl, rfl⟩ := hw.unique hw'
          exact hnext hback hroom

/-! ### Checked runs -/

attribute [local irreducible] Mode.arith

/-- The function returns if something holds, and fails if it does not. -/
def Exit.decides (clear : Prop) : Exit where
  ret _ := clear
  fault := ¬ clear
  stuck := True

theorem Flow.Ends.decides_congr
    {α : Type} {x : Flow α} {Q R : α → Prop} {clear clear' : Prop} (h : x.Ends Q (Exit.decides clear))
    (hclear : clear' ↔ clear) (hQ : ∀ a, Q a → R a) :
  x.Ends R (Exit.decides clear')
  := by
  rw [propext hclear]
  exact h.mono hQ

/-- The decompressor stands at a part of the stream. -/
structure Decoder.At (cap : ℕ) (s : Standing) (d : Decoder) : Prop where
  br : d.br = s.br
  lastOffset : d.lastOffset = s.last
  outPos : d.outPos = s.produced
  length : d.out.length = cap
  room : s.produced ≤ cap
  one_le : 1 ≤ s.last
  last_lt : s.last < 2 ^ 31
  opened : s.br.Opened

/-- From a place of the stream on, a part of the function decides whether the numbers fit. -/
def Decides (cap : ℕ) (next : Place) (run : Decoder → Flow Unit) : Prop :=
  ∀ ⦃d br last n⦄, Decoder.At cap ⟨next, br, last, n⟩ d →
    (run d).Ends (fun _ => False) (Exit.decides (Standing.Clear cap ⟨next, br, last, n⟩))

theorem rdEliasGamma_checked_digits
    {v k : ℕ} (h : Supplies br (EliasGamma.digits inverted v k) br') (hlt : v >>> k < 2 ^ 31)
    (fuel : ℕ) :
  rdEliasGamma .checked inverted fuel (v >>> k : ℕ) br = .stuck
    ∨ rdEliasGamma .checked inverted fuel (v >>> k : ℕ) br
      = if v < 2 ^ 31 then .next ((v : ℤ), br') else .fault
  := by
  induction k generalizing br fuel with
  | zero =>
      cases fuel with
      | zero => exact Or.inl rfl
      | succ fuel =>
          right
          obtain ⟨br₁, hbit, rfl⟩ := h
          rw [Nat.shiftRight_zero] at hlt
          rw [if_pos hlt]
          simp [rdEliasGamma, hbit]
  | succ k ih =>
      cases fuel with
      | zero => exact Or.inl rfl
      | succ fuel =>
          obtain ⟨br₁, hzero, br₂, hdigit, hrest⟩ := h
          have hstep := EliasGamma.shiftRight_mul_two_add v k
          have hle : v >>> k ≤ v := Nat.shiftRight_le v k
          have hvalue : ((v >>> (k + 1) : ℕ) * 2 + ((v.testBit k ^^ inverted) ^^ inverted).toNat : ℤ)
              = (v >>> k : ℕ) := by
            rw [Bool.xor_assoc, Bool.xor_self, Bool.xor_false]
            omega
          have hturn : rdEliasGamma .checked inverted (fuel + 1) (v >>> (k + 1) : ℕ) br
              = Mode.arith .checked (v >>> k : ℕ)
                >>= fun value => rdEliasGamma .checked inverted fuel value br₂ := by
            simp only [rdEliasGamma, hzero, hdigit, hvalue, Bool.false_eq_true, if_false]
          rw [hturn]
          by_cases hfits : v >>> k < 2 ^ 31
          · rw [Mode.arith_eq _ (by omega) (by omega), Flow.next_bind]
            exact ih hrest hfits fuel
          · right
            rw [Mode.arith, if_neg (by omega), if_neg (by omega), Flow.fault_bind]

/-- A number is read if it fits. -/
theorem rdEliasGamma_checked
    (inverted : Bool) (hbr : br.Opened) {clear : Prop}
    (hclear : ∀ v br', br.Number inverted v br' → clear → v < 2 ^ 31) (fuel : ℕ) :
  (rdEliasGamma .checked inverted fuel 1 br).Ends
    (fun r => ∃ v : ℕ, r.1 = v ∧ v < 2 ^ 31 ∧ br.Number inverted v r.2) (Exit.decides clear)
  := by
  obtain ⟨v, br', hv⟩ := exists_number inverted hbr
  have hone := EliasGamma.shiftRight_log2 hv.1
  have hgamma := rdEliasGamma_checked_digits hv.2 (by omega) fuel
  rw [hone, Nat.cast_one] at hgamma
  obtain hstuck | hrun := hgamma
  · rw [hstuck]
    trivial
  · rw [hrun]
    by_cases hlt : v < 2 ^ 31
    · rw [if_pos hlt]
      exact ⟨v, rfl, hlt, hv⟩
    · rw [if_neg hlt]
      exact fun hc => hlt (hclear v br' hv hc)

theorem arith_checked {v : ℤ} {clear : Prop} (hlo : -2 ^ 31 ≤ v) (hclear : clear → v < 2 ^ 31) :
  (Mode.arith .checked v).Ends (fun r => r = v ∧ v < 2 ^ 31) (Exit.decides clear)
  := by
  by_cases hlt : v < 2 ^ 31
  · rw [Mode.arith_eq _ hlo hlt]
    exact ⟨rfl, hlt⟩
  · rw [Mode.arith, if_neg (by omega)]
    exact fun hc => hlt (hclear hc)

/-- There is no byte, or one. -/
theorem rdByte_cases (br : BitReader) :
  rdByte br = (-1, br)
    ∨ ∃ (t : ℕ) (br' : BitReader), rdByte br = ((t : ℤ), br') ∧ t < 256 ∧ br'.bitValue = br.bitValue
  := by
  obtain ⟨src, bitMask, bitValue, backtrack, lastByte⟩ := br
  cases src with
  | nil => exact Or.inl rfl
  | cons c src => exact Or.inr ⟨c.toNat, ⟨src, bitMask, bitValue, backtrack, c.toNat⟩, rfl, c.toNat_lt, rfl⟩

theorem skipBytes_bitValue (k : ℕ) (br : BitReader) :
  (skipBytes k br).bitValue = br.bitValue
  := by
  induction k generalizing br with
  | zero => rfl
  | succ k ih =>
      rw [skipBytes, ih]
      unfold rdByte
      split
      · rfl
      · rfl

variable {d : Decoder}

/-- The match of a new offset is copied if it fits, and what follows decides. -/
theorem fresh_decides
    (hcap : cap < 2 ^ 31) (h : d.At cap ⟨.offset, br, last, n⟩) {br₁ br₂ : BitReader} {u t : ℕ}
    (hu : br.Number true u br₁) (hlt : u < 2 ^ 31) (hne : u ≠ 256)
    (hbyte : rdByte br₁ = ((t : ℤ), br₂)) (ht : t < 256)
    (hopened : BitReader.Opened { br₂ with backtrack := true }) {f₁ f₂ : ℕ}
    (hmatch : Decides cap .afterMatch (afterMatch .checked f₁ f₂)) :
  Flow.Ends (do
      let upper ← Mode.arith .checked ((u : ℤ) * 128)
      let lastOffset ← Mode.arith .checked (upper - (t : ℤ) / 2)
      fromNewOffset .checked f₁ f₂ lastOffset br₂ d)
    (fun _ => False) (Exit.decides (Standing.Clear cap ⟨.offset, br, last, n⟩))
  := by
  have hpos : d.outPos = n := h.outPos
  have hlength := h.length
  have hroom : n ≤ cap := h.room
  have hupos : u ≠ 0 := hu.1
  obtain ⟨w, br₃, hw⟩ := exists_number false hopened
  have hfresh : Standing.Clear cap ⟨.offset, br, last, n⟩ ↔ _ := clear_fresh hu hne hbyte hw
  have hupperlt : Standing.Clear cap ⟨.offset, br, last, n⟩ → (u : ℤ) * 128 < 2 ^ 31 := by
    intro hclear
    have := (hfresh.mp hclear).2.1
    omega
  have hlengthlt : Standing.Clear cap ⟨.offset, br, last, n⟩ → (w : ℤ) + 1 < 2 ^ 31 := by
    intro hclear
    have := (hfresh.mp hclear).2.2.1
    omega
  apply (arith_checked (by omega) hupperlt).bind
  rintro upper ⟨rfl, hupper⟩
  have hoffset : (u : ℤ) * 128 - (t : ℤ) / 2 = ((u * 128 - t / 2 : ℕ) : ℤ) := by omega
  rw [Mode.arith_eq _ (by omega) (by omega), Flow.next_bind, hoffset, fromNewOffset]
  apply (rdEliasGamma_checked false hopened (fun w' br' hw' hclear => by
    obtain ⟨rfl, -⟩ := hw.unique hw'
    have := hlengthlt hclear
    omega) f₁).bind
  rintro ⟨value, br'⟩ ⟨w', hw', -, hnumber⟩
  dsimp only at hw' hnumber ⊢
  obtain ⟨rfl, rfl⟩ := hw.unique hnumber
  rw [hw']
  apply (arith_checked (by omega) hlengthlt).bind
  rintro length ⟨rfl, hwlt⟩
  rw [show ((w : ℤ) + 1).toNat = w + 1 by omega]
  obtain ⟨hback, hfits, out', hout', hcopy⟩ | ⟨hrefused, out', hcopy⟩ :=
    copyMatchBytes_cases .checked (w + 1)
      (d := { d with br := br₃, lastOffset := ((u * 128 - t / 2 : ℕ) : ℤ) })
      (by dsimp only; omega) (by dsimp only; omega) (by dsimp only; omega) (by dsimp only; omega)
  · dsimp only at hback hfits hout'
    rw [hcopy, Flow.next_bind]
    have hclear : Standing.Clear cap ⟨.offset, br, last, n⟩
        ↔ Standing.Clear cap ⟨.afterMatch, br₃, u * 128 - t / 2, n + (w + 1)⟩ := by
      rw [hfresh]
      constructor
      · rintro ⟨-, -, -, hnext⟩
        exact hnext (by omega) (by omega)
      · exact fun hnext => ⟨hlt, by omega, by omega, fun _ _ => hnext⟩
    apply Flow.Ends.decides_congr (hmatch _) hclear (fun _ => id)
    exact ⟨rfl, rfl, by rw [hpos], hout'.trans hlength, by dsimp only; omega, by dsimp only; omega,
      by dsimp only; omega, hw.2.opened hopened⟩
  · dsimp only at hrefused
    rw [hcopy, Flow.ret_bind]
    apply hfresh.mpr
    exact ⟨hlt, by omega, by omega, fun _ _ => by omega⟩

/-- What follows a match decides if literals and new offsets do. -/
theorem afterMatch_decides {f₁ f₂ : ℕ} (hloop : Decides cap .literals (decompressLoop .checked f₂))
    (hnew : Decides cap .offset (fromNewOffsets .checked f₁ f₂)) :
  Decides cap .afterMatch (afterMatch .checked f₁ f₂)
  := by
  rintro d br last n ⟨hbr, hlast, hpos, hlength, hroom, hone, hlt, hopened⟩
  dsimp only at hbr hopened
  rw [afterMatch, hbr]
  cases hbit : rdBit br with
  | mk isNew br' =>
      have hopened' := (rdBit_unread hopened hbit).1
      dsimp only
      cases isNew with
      | true =>
          rw [if_pos rfl]
          apply Flow.Ends.decides_congr (hnew _) (clear_announce hbit) (fun _ => id)
          exact ⟨rfl, hlast, hpos, hlength, hroom, hone, hlt, hopened'⟩
      | false =>
          rw [if_neg Bool.false_ne_true]
          apply Flow.Ends.decides_congr (hloop _) (clear_back hbit) (fun _ => id)
          exact ⟨rfl, hlast, hpos, hlength, hroom, hone, hlt, hopened'⟩

/-- New offsets decide if literals do. -/
theorem fromNewOffsets_decides
    (hcap : cap < 2 ^ 31) {f₂ : ℕ} (hloop : Decides cap .literals (decompressLoop .checked f₂)) (f₁ : ℕ) :
  Decides cap .offset (fromNewOffsets .checked f₁ f₂)
  := by
  induction f₁ with
  | zero =>
      intro d br last n _
      trivial
  | succ f₁ ih =>
      intro d br last n h
      have hbr : d.br = br := h.br
      have hopened : br.Opened := h.opened
      rw [fromNewOffsets_succ, hbr]
      apply (rdEliasGamma_checked true hopened (fun u br₁ hu hclear =>
        ((Standing.clear_iff.mp hclear).1 u br₁ hu).1) f₁).bind
      rintro ⟨offset, br₁⟩ ⟨u, hoffset, hlt, hu⟩
      dsimp only at hoffset hu ⊢
      rw [hoffset]
      by_cases hne : u = 256
      · rw [if_pos (by omega)]
        exact (clear_offset hu (Or.inl hne)).mpr hlt
      rw [if_neg (by omega)]
      obtain hbyte | ⟨t, br₂, hbyte, ht, hvalue⟩ := rdByte_cases br₁
      · rw [hbyte]
        dsimp only
        rw [if_pos (by omega)]
        refine (clear_offset hu (Or.inr fun t br' hbyte' => ?_)).mpr hlt
        rw [hbyte, Prod.mk.injEq] at hbyte'
        omega
      · have hopened₂ : BitReader.Opened { br₂ with backtrack := true } := by
          have hopened₁ := hu.2.opened hopened
          unfold BitReader.Opened at hopened₁ ⊢
          dsimp only
          omega
        rw [hbyte]
        dsimp only
        rw [if_neg (by omega)]
        exact fresh_decides hcap h hu hlt hne hbyte ht hopened₂ (afterMatch_decides hloop ih)

/-- What follows literals decides if new offsets and what follows matches do. -/
theorem afterLiterals_decides
    (hcap : cap < 2 ^ 31) {f₁ f₂ : ℕ} (hnew : Decides cap .offset (fromNewOffsets .checked f₁ f₂))
    (hmatch : Decides cap .afterMatch (afterMatch .checked f₁ f₂)) :
  Decides cap .afterLiterals (afterLiterals .checked f₁ f₂)
  := by
  rintro d br last n ⟨hbr, hlast, hpos, hlength, hroom, hone, hlastlt, hopened⟩
  dsimp only at hbr hlast hpos hroom hone hlastlt hopened
  rw [afterLiterals, hbr]
  cases hbit : rdBit br with
  | mk isNew br₁ =>
      have hopened₁ := (rdBit_unread hopened hbit).1
      dsimp only
      cases isNew with
      | true =>
          rw [if_pos rfl]
          apply Flow.Ends.decides_congr (hnew _) (clear_announceFirst hbit) (fun _ => id)
          exact ⟨rfl, hlast, hpos, hlength, hroom, hone, hlastlt, hopened₁⟩
      | false =>
          rw [if_neg Bool.false_ne_true, fromLastOffset]
          apply (rdEliasGamma_checked false hopened₁ (fun w br' hw hc =>
            ((clear_again hbit hw).mp hc).1) f₂).bind
          rintro ⟨length, br₂⟩ ⟨w, rfl, hwlt, hw⟩
          dsimp only at hw ⊢
          rw [Int.toNat_natCast]
          obtain ⟨hback, hfits, out', hout', hcopy⟩ | ⟨hrefused, out', hcopy⟩ :=
            copyMatchBytes_cases .checked w (d := { d with br := br₂ }) (by dsimp only; omega)
              (by dsimp only; omega) (by dsimp only; omega) (by dsimp only; omega)
          · dsimp only at hback hfits hout'
            have hback' := hback.resolve_left hw.1
            rw [hcopy, Flow.next_bind]
            have hclear : Standing.Clear cap ⟨.afterLiterals, br, last, n⟩
                ↔ Standing.Clear cap ⟨.afterMatch, br₂, last, n + w⟩ := by
              rw [clear_again hbit hw]
              constructor
              · rintro ⟨-, hnext⟩
                exact hnext (by omega) (by omega)
              · exact fun hnext => ⟨hwlt, fun _ _ => hnext⟩
            apply Flow.Ends.decides_congr (hmatch _) hclear (fun _ => id)
            exact ⟨rfl, hlast, by dsimp only; rw [hpos], hout'.trans hlength, by dsimp only; omega, hone,
              hlastlt, hw.2.opened hopened₁⟩
          · dsimp only at hrefused
            rw [hcopy, Flow.ret_bind]
            apply (clear_again hbit hw).mpr
            exact ⟨hwlt, fun _ _ => by omega⟩

/-- From literals on, the function decides. -/
theorem decompressLoop_decides (hcap : cap < 2 ^ 31) (fuel : ℕ) :
  Decides cap .literals (decompressLoop .checked fuel)
  := by
  induction fuel with
  | zero =>
      intro d br last n _
      trivial
  | succ fuel ih =>
      have hnew := fromNewOffsets_decides hcap ih fuel
      have hbehind := afterLiterals_decides hcap hnew (afterMatch_decides ih hnew)
      rintro d br last n ⟨hbr, hlast, hpos, hlength, hroom, hone, hlastlt, hopened⟩
      dsimp only at hbr hlast hpos hroom hone hlastlt hopened
      rw [decompressLoop_succ, hbr]
      have hfits : Standing.Clear cap ⟨.literals, br, last, n⟩ →
          ∀ v br', br.Number false v br' → v < 2 ^ 31 := fun hclear => (Standing.clear_iff.mp hclear).1
      apply (rdEliasGamma_checked false hopened (fun v br' hv hclear => hfits hclear v br' hv) fuel).bind
      rintro ⟨length, br₁⟩ ⟨v, rfl, hlt, hv⟩
      dsimp only at hv ⊢
      rw [Int.toNat_natCast]
      have hliterals : Standing.Clear cap ⟨.literals, br, last, n⟩ ↔ _ := clear_literals hv
      obtain ⟨hsrc, hfits, out', hout', hcopy⟩ | ⟨hrefused, out', hcopy⟩ :=
        copyLiteralBytes_cases .checked v (d := { d with br := br₁ }) (by dsimp only; omega)
      · dsimp only at hsrc hfits hout'
        rw [hcopy, Flow.next_bind]
        have hopened₁ : (skipBytes v br₁).Opened := by
          have := hv.2.opened hopened
          unfold BitReader.Opened at this ⊢
          rwa [skipBytes_bitValue]
        have hclear : Standing.Clear cap ⟨.literals, br, last, n⟩
            ↔ Standing.Clear cap ⟨.afterLiterals, skipBytes v br₁, last, n + v⟩ := by
          rw [hliterals]
          constructor
          · rintro ⟨-, hnext⟩
            exact hnext hsrc (by omega)
          · exact fun hnext => ⟨hlt, fun _ _ => hnext⟩
        apply Flow.Ends.decides_congr (hbehind _) hclear (fun _ => id)
        exact ⟨rfl, hlast, by dsimp only; rw [hpos], hout'.trans hlength, by dsimp only; omega, hone,
          hlastlt, hopened₁⟩
      · dsimp only at hrefused
        rw [hcopy, Flow.ret_bind]
        apply hliterals.mpr
        exact ⟨hlt, fun _ _ => by omega⟩

/-! ### The function -/

/-- Nothing overflows and no array is left if and only if the numbers fit, wherever the stream is
read to. -/
theorem zx0DecompressTo_checked_iff
    {input out : Bytes} (hinput : input ≠ []) (hout : out ≠ []) (hcap : out.length < 2 ^ 31)
    {fuel : ℕ} (hfuel : 8 * input.length + 1 < fuel) :
  (∃ value out', zx0DecompressTo .checked fuel input out = some (value, out'))
    ↔ Standing.Clear out.length ⟨.literals, ⟨input, 0, 0, false, 0⟩, 1, 0⟩
  := by
  have hopened : BitReader.Opened ⟨input, 0, 0, false, 0⟩ := by simp [BitReader.Opened]
  have hwithin : Decoder.Within out.length ⟨⟨input, 0, 0, false, 0⟩, 1, out, 0⟩ :=
    ⟨rfl, Nat.zero_le _, hopened⟩
  have hunread : BitReader.unread ⟨input, 0, 0, false, 0⟩ + 1 < fuel := by
    simpa [BitReader.unread] using hfuel
  have hat : Decoder.At out.length ⟨.literals, ⟨input, 0, 0, false, 0⟩, 1, 0⟩
      ⟨⟨input, 0, 0, false, 0⟩, 1, out, 0⟩ :=
    ⟨rfl, rfl, rfl, rfl, Nat.zero_le _, le_refl _, by norm_num, hopened⟩
  have hends := decompressLoop_ends .checked hwithin hunread
  have hdecides := decompressLoop_decides hcap fuel hat
  rw [zx0DecompressTo, if_neg (by simp [hinput, hout])]
  cases hrun : decompressLoop .checked fuel ⟨⟨input, 0, 0, false, 0⟩, 1, out, 0⟩ with
  | next _ =>
      rw [hrun] at hends
      exact hends.elim
  | ret value out' =>
      rw [hrun] at hdecides
      exact ⟨fun _ => hdecides, fun _ => ⟨value, out', rfl⟩⟩
  | fault =>
      rw [hrun] at hdecides
      constructor
      · rintro ⟨value, out', hreturned⟩
        cases hreturned
      · exact fun hclear => absurd hclear hdecides
  | stuck =>
      rw [hrun] at hends
      exact hends.elim

theorem zx0DecompressTo_checked_iff_literal :
  (∃ value out', zx0DecompressTo .checked 26 [0xD0, 97, 0x55] [0] = some (value, out'))
    ↔ Standing.Clear 1 ⟨.literals, ⟨[0xD0, 97, 0x55], 0, 0, false, 0⟩, 1, 0⟩
  := zx0DecompressTo_checked_iff (by decide) (by decide) (by decide) (by decide)

/-- The first number of eight bytes of zeros does not fit. -/
theorem zx0DecompressTo_checked_zeros :
  ¬ ∃ value out', zx0DecompressTo .checked 67 (List.replicate 8 0) [0] = some (value, out')
  := by
  have hrun : zx0DecompressTo .checked 67 (List.replicate 8 0) [0] = none := by decide +kernel
  rintro ⟨value, out', hreturned⟩
  rw [hrun] at hreturned
  cases hreturned

end LnxCad.Zx0
