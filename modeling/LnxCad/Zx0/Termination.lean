import LnxCad.Zx0.Stages

/-!
# The decompressor comes to an end

Behind the end of the input the bit reader supplies ones, which end every number, and bytes
that end the function.  So the bits that have not been read bound what is still to come.
-/

namespace LnxCad.Zx0

/-! ### How a part comes out -/

/-- What holds if the function returns, or fails, or does not come to an end. -/
structure Exit where
  ret : ℤ → Prop
  fault : Prop
  stuck : Prop

/-- How a part of the function comes out. -/
def Flow.Ends {α : Type} (x : Flow α) (Q : α → Prop) (E : Exit) : Prop :=
  match x with
  | .next a => Q a
  | .ret value _ => E.ret value
  | .fault => E.fault
  | .stuck => E.stuck

theorem Flow.Ends.bind
    {α β : Type} {x : Flow α} {f : α → Flow β} {Q : α → Prop} {R : β → Prop} {E : Exit}
    (h : x.Ends Q E) (hf : ∀ a, Q a → (f a).Ends R E) :
  (x >>= f).Ends R E
  := by
  cases x with
  | next a => exact hf a h
  | ret value out => exact h
  | fault => exact h
  | stuck => exact h

theorem Flow.Ends.mono
    {α : Type} {x : Flow α} {Q R : α → Prop} {E : Exit} (h : x.Ends Q E) (hQ : ∀ a, Q a → R a) :
  x.Ends R E
  := by
  cases x with
  | next a => exact hQ a h
  | ret value out => exact h
  | fault => exact h
  | stuck => exact h

/-! ### Unread bits -/

/-- The bits that have not been read: those of the input, those of the open byte, and the one
that is read again. -/
def BitReader.unread (br : BitReader) : ℕ :=
  8 * br.src.length + (if br.bitValue < 0 then 0 else Nat.log2 br.bitMask) + br.backtrack.toNat

/-- The open byte is a byte, or that of the end of the input. -/
def BitReader.Opened (br : BitReader) : Prop := -1 ≤ br.bitValue

variable {br br' : BitReader}

/-- A bit that is zero has not been read before. -/
theorem rdBit_unread {b : Bool} (hbr : br.Opened) (h : rdBit br = (b, br')) :
  br'.Opened ∧ br'.unread ≤ br.unread ∧ (b = false → br'.unread < br.unread)
  := by
  obtain ⟨src, bitMask, bitValue, backtrack, lastByte⟩ := br
  cases backtrack with
  | true =>
      rw [rdBit, if_pos rfl, Prod.mk.injEq] at h
      obtain ⟨-, rfl⟩ := h
      refine ⟨hbr, ?_, fun _ => ?_⟩
      · simp [BitReader.unread]
      · simp [BitReader.unread]
  | false =>
      rw [rdBit, if_neg Bool.false_ne_true] at h
      dsimp only at h
      by_cases hmask : bitMask / 2 = 0
      · rw [if_pos hmask] at h
        cases src with
        | nil =>
            simp only [rdByte, Prod.mk.injEq] at h
            obtain ⟨rfl, rfl⟩ := h
            refine ⟨le_refl _, ?_, fun hb => ?_⟩
            · simp [BitReader.unread]
            · have hone : Int.land (-1) 128 ≠ 0 := by
                rw [show Int.land (-1) 128 = 128 from land_neg_one 128]
                decide
              exact absurd hone (of_decide_eq_false hb)
        | cons c src =>
            simp only [rdByte, Prod.mk.injEq] at h
            obtain ⟨-, rfl⟩ := h
            have hseven : Nat.log2 128 = 7 := by decide
            refine ⟨?_, ?_, fun _ => ?_⟩
            · simp only [BitReader.Opened]
              omega
            · simp only [BitReader.unread, hseven, List.length_cons]
              rw [if_neg (by omega)]
              omega
            · simp only [BitReader.unread, hseven, List.length_cons]
              rw [if_neg (by omega)]
              omega
      · rw [if_neg hmask, Prod.mk.injEq] at h
        obtain ⟨rfl, rfl⟩ := h
        refine ⟨hbr, ?_⟩
        have hlog : Nat.log2 bitMask = Nat.log2 (bitMask / 2) + 1 := by
          rw [Nat.log2_def bitMask, if_pos (by omega)]
        by_cases hvalue : bitValue < 0
        · simp only [BitReader.unread, if_pos hvalue]
          refine ⟨le_refl _, fun hb => ?_⟩
          obtain rfl : bitValue = -1 := by
            unfold BitReader.Opened at hbr
            dsimp only at hbr
            omega
          rw [land_neg_one] at hb
          simp only [ne_eq, Nat.cast_eq_zero, decide_eq_false_iff_not, not_not] at hb
          exact absurd hb hmask
        · simp only [BitReader.unread, if_neg hvalue, hlog]
          omega

/-- A byte that is there has not been read before. -/
theorem rdByte_unread {c : ℤ} (hbr : br.Opened) (h : rdByte br = (c, br')) (hc : ¬ c < 0) :
  br'.Opened ∧ br'.unread + 8 = br.unread ∧ br'.backtrack = br.backtrack
  := by
  obtain ⟨src, bitMask, bitValue, backtrack, lastByte⟩ := br
  cases src with
  | nil =>
      simp only [rdByte, Prod.mk.injEq] at h
      omega
  | cons v src =>
      simp only [rdByte, Prod.mk.injEq] at h
      obtain ⟨-, rfl⟩ := h
      refine ⟨hbr, ?_, rfl⟩
      simp only [BitReader.unread, List.length_cons]
      omega

theorem unread_backtrack (br : BitReader) :
  BitReader.unread { br with backtrack := true } ≤ br.unread + 1
  := by
  simp only [BitReader.unread, Bool.toNat_true]
  omega

/-! ### Numbers and copies -/

variable (M : Mode)

/-- The function returns `-1` or a number of bytes for which there is room; it fails only if it
checks. -/
def Exit.sound (M : Mode) (cap : ℕ) : Exit where
  ret value := value = -1 ∨ 0 ≤ value ∧ value ≤ cap
  fault := M = .checked
  stuck := False

theorem Mode.arith_ends (v : ℤ) (cap : ℕ) :
  (M.arith v).Ends (fun _ => True) (Exit.sound M cap)
  := by
  cases M with
  | wrapping memory => trivial
  | checked =>
      by_cases h : -2 ^ 31 ≤ v ∧ v < 2 ^ 31
      · rw [arith, if_pos h]
        trivial
      · rw [arith, if_neg h]
        exact rfl

theorem Mode.load_ends (out : Bytes) (outPos i cap : ℕ) :
  (M.load out outPos i).Ends (fun _ => True) (Exit.sound M cap)
  := by
  unfold load
  split
  · trivial
  · trivial
  · split
    · trivial
    · exact rfl
  · exact rfl

theorem Mode.store_ends (out : Bytes) (i : ℕ) (c : UInt8) (cap : ℕ) :
  (M.store out i c).Ends (fun out' => out'.length = out.length) (Exit.sound M cap)
  := by
  cases M with
  | wrapping memory => exact List.length_set
  | checked =>
      by_cases h : i < out.length
      · rw [store, if_pos h]
        exact List.length_set
      · rw [store, if_neg h]
        exact rfl

/-- A number comes to an end; unless it is the one to start with, bits have been read. -/
theorem rdEliasGamma_ends
    (inverted : Bool) {value : ℤ} (hbr : br.Opened) {fuel : ℕ} (hfuel : br.unread < fuel) (cap : ℕ) :
  (rdEliasGamma M inverted fuel value br).Ends (fun r => r.2.Opened ∧ r.2.unread ≤ br.unread
      ∧ (r.1 = value ∨ r.2.unread < br.unread)) (Exit.sound M cap)
  := by
  induction fuel generalizing value br with
  | zero => exact absurd hfuel (Nat.not_lt_zero _)
  | succ fuel ih =>
      cases hstop : rdBit br with
      | mk stop br₁ =>
          obtain ⟨hopened₁, hle₁, hlt₁⟩ := rdBit_unread hbr hstop
          cases stop with
          | true =>
              simp only [rdEliasGamma, hstop, if_true]
              exact ⟨hopened₁, hle₁, Or.inl rfl⟩
          | false =>
              have hlt₁ := hlt₁ rfl
              cases hdigit : rdBit br₁ with
              | mk b br₂ =>
                  obtain ⟨hopened₂, hle₂, -⟩ := rdBit_unread hopened₁ hdigit
                  simp only [rdEliasGamma, hstop, hdigit, Bool.false_eq_true, if_false]
                  apply (M.arith_ends _ cap).bind
                  intro value' _
                  apply Flow.Ends.mono (ih hopened₂ (by omega))
                  rintro ⟨v, br'⟩ ⟨hopened, hle, -⟩
                  exact ⟨hopened, by dsimp only at hle ⊢; omega, Or.inr (by dsimp only at hle ⊢; omega)⟩

/-- What the function keeps: the length of the output, and that the bytes fit into it. -/
structure Decoder.Within (cap : ℕ) (d : Decoder) : Prop where
  length : d.out.length = cap
  outPos : d.outPos ≤ cap
  opened : d.br.Opened

variable {cap : ℕ} {d : Decoder}

/-- Literals come to an end; unless there are none, bytes have been read. -/
theorem copyLiteralBytes_ends (k : ℕ) (h : d.Within cap) :
  (copyLiteralBytes M k d).Ends (fun d' => d'.Within cap ∧ d'.br.unread ≤ d.br.unread
      ∧ (k = 0 ∨ d'.br.unread < d.br.unread)) (Exit.sound M cap)
  := by
  induction k generalizing d with
  | zero => exact ⟨h, le_refl _, Or.inl rfl⟩
  | succ k ih =>
      cases hbyte : rdByte d.br with
      | mk c br =>
          simp only [copyLiteralBytes, hbyte]
          split
          · exact Or.inl rfl
          case isFalse hc =>
            obtain ⟨hopened, hunread, -⟩ := rdByte_unread h.opened hbyte hc
            split
            · exact Or.inl rfl
            case isFalse hroom =>
              rw [h.length] at hroom
              apply (M.store_ends _ _ _ cap).bind
              intro out hlength
              apply (ih ⟨hlength.trans h.length, by dsimp only; omega, hopened⟩).mono
              rintro d' ⟨hd', hle, -⟩
              dsimp only at hle
              exact ⟨hd', by omega, Or.inr (by omega)⟩

/-- A match comes to an end and reads nothing. -/
theorem copyMatchBytes_ends (k : ℕ) (h : d.Within cap) :
  (copyMatchBytes M k d).Ends (fun d' => d'.Within cap ∧ d'.br = d.br) (Exit.sound M cap)
  := by
  induction k generalizing d with
  | zero => exact ⟨h, rfl⟩
  | succ k ih =>
      rw [copyMatchBytes]
      apply (M.arith_ends _ cap).bind
      intro srcPos _
      split
      · exact Or.inl rfl
      case isFalse hroom =>
        rw [h.length] at hroom
        apply (M.load_ends _ _ _ cap).bind
        intro c _
        apply (M.store_ends _ _ _ cap).bind
        intro out hlength
        exact ih ⟨hlength.trans h.length, by dsimp only; omega, h.opened⟩

/-! ### The loops -/

/-- Every new offset takes a byte of the input. -/
theorem copyFromNewOffsets_ends
    (h : d.Within cap) {fuel : ℕ} (hfuel : d.br.unread + 1 < fuel) :
  (copyFromNewOffsets M fuel d).Ends (fun d' => d'.Within cap ∧ d'.br.unread ≤ d.br.unread)
    (Exit.sound M cap)
  := by
  induction fuel generalizing d with
  | zero => exact absurd hfuel (Nat.not_lt_zero _)
  | succ fuel ih =>
      rw [copyFromNewOffsets]
      apply (rdEliasGamma_ends M true h.opened (by omega) cap).bind
      rintro ⟨offset, br₁⟩ ⟨hopened₁, hle₁, -⟩
      dsimp only at hopened₁ hle₁ ⊢
      split
      · exact Or.inr ⟨by omega, by exact_mod_cast h.outPos⟩
      cases hbyte : rdByte br₁ with
      | mk t br₂ =>
          dsimp only
          split
          · exact Or.inl rfl
          case isFalse ht =>
            obtain ⟨hopened₂, hunread₂, -⟩ := rdByte_unread hopened₁ hbyte ht
            have hback := unread_backtrack br₂
            apply (M.arith_ends _ cap).bind
            intro upper _
            apply (M.arith_ends _ cap).bind
            intro lastOffset _
            apply (rdEliasGamma_ends M false (show BitReader.Opened { br₂ with backtrack := true }
              from hopened₂) (by omega) cap).bind
            rintro ⟨value, br₃⟩ ⟨hopened₃, hle₃, -⟩
            dsimp only at hopened₃ hle₃ ⊢
            apply (M.arith_ends _ cap).bind
            intro length _
            apply (copyMatchBytes_ends M (d := { d with br := br₃, lastOffset := lastOffset })
              length.toNat ⟨h.length, h.outPos, hopened₃⟩).bind
            rintro d₁ ⟨hd₁, hbr⟩
            cases hmore : rdBit d₁.br with
            | mk more br₄ =>
                obtain ⟨hopened₄, hle₄, -⟩ := rdBit_unread hd₁.opened hmore
                rw [hbr] at hle₄
                dsimp only at hle₄ ⊢
                have hd₂ : Decoder.Within cap { d₁ with br := br₄ } :=
                  ⟨hd₁.length, hd₁.outPos, hopened₄⟩
                split
                · apply (ih hd₂ (by dsimp only; omega)).mono
                  rintro d' ⟨hd', hle'⟩
                  dsimp only at hle'
                  exact ⟨hd', by omega⟩
                · exact ⟨hd₂, by dsimp only; omega⟩

/-- Every turn of the outer loop reads at least a bit. -/
theorem decompressLoop_ends
    (h : d.Within cap) {fuel : ℕ} (hfuel : d.br.unread + 1 < fuel) :
  (decompressLoop M fuel d).Ends (fun _ => False) (Exit.sound M cap)
  := by
  induction fuel generalizing d with
  | zero => exact absurd hfuel (Nat.not_lt_zero _)
  | succ fuel ih =>
      have hnews : ∀ d₁ : Decoder, d₁.Within cap → d₁.br.unread < d.br.unread →
          (fromNewOffsets M fuel fuel d₁).Ends (fun _ => False) (Exit.sound M cap) := by
        intro d₁ hd₁ hlt
        apply (copyFromNewOffsets_ends M hd₁ (by omega)).bind
        rintro d' ⟨hd', hle'⟩
        exact ih hd' (by omega)
      have hmatch : ∀ d₁ : Decoder, d₁.Within cap → d₁.br.unread < d.br.unread →
          (afterMatch M fuel fuel d₁).Ends (fun _ => False) (Exit.sound M cap) := by
        intro d₁ hd₁ hlt
        unfold afterMatch
        cases hbit : rdBit d₁.br with
        | mk isNew br =>
            obtain ⟨hopened, hle, -⟩ := rdBit_unread hd₁.opened hbit
            have hd₂ : Decoder.Within cap { d₁ with br := br } := ⟨hd₁.length, hd₁.outPos, hopened⟩
            dsimp only
            split
            · exact hnews _ hd₂ (by dsimp only; omega)
            · exact ih hd₂ (by dsimp only; omega)
      rw [decompressLoop_succ]
      apply (rdEliasGamma_ends M false h.opened (by omega) cap).bind
      rintro ⟨length, br₁⟩ ⟨hopened₁, hle₁, hnew₁⟩
      dsimp only at hopened₁ hle₁ hnew₁ ⊢
      apply (copyLiteralBytes_ends M (d := { d with br := br₁ }) length.toNat
        ⟨h.length, h.outPos, hopened₁⟩).bind
      rintro d₁ ⟨hd₁, hle₂, hnew₂⟩
      dsimp only at hle₂ hnew₂
      have hlt : d₁.br.unread < d.br.unread := by omega
      unfold afterLiterals
      cases hbit : rdBit d₁.br with
      | mk isNew br₂ =>
          obtain ⟨hopened₂, hle₃, -⟩ := rdBit_unread hd₁.opened hbit
          have hd₂ : Decoder.Within cap { d₁ with br := br₂ } := ⟨hd₁.length, hd₁.outPos, hopened₂⟩
          dsimp only
          split
          · exact hnews _ hd₂ (by dsimp only; omega)
          · apply (rdEliasGamma_ends M false hopened₂ (by omega) cap).bind
            rintro ⟨length', br₃⟩ ⟨hopened₃, hle₄, -⟩
            dsimp only at hopened₃ hle₄ ⊢
            apply (copyMatchBytes_ends M (d := { d₁ with br := br₃ }) length'.toNat
              ⟨hd₁.length, hd₁.outPos, hopened₃⟩).bind
            rintro d₃ ⟨hd₃, hbr⟩
            apply hmatch d₃ hd₃
            rw [hbr]
            dsimp only
            omega

/-! ### The function -/

/-- The function comes to an end, if it need not fail: it returns `-1` or a number of bytes for
which there is room. -/
theorem zx0DecompressTo_terminates
    (memory : ℕ → UInt8) (input out : Bytes) {fuel : ℕ} (hfuel : 8 * input.length + 1 < fuel) :
  ∃ value out', zx0DecompressTo (.wrapping memory) fuel input out = some (value, out')
    ∧ (value = -1 ∨ 0 ≤ value ∧ value ≤ out.length)
  := by
  by_cases hempty : input = [] ∨ out = []
  · exact ⟨-1, out, if_pos hempty, Or.inl rfl⟩
  have hstart : Decoder.Within out.length ⟨⟨input, 0, 0, false, 0⟩, 1, out, 0⟩ :=
    ⟨rfl, Nat.zero_le _, by simp [BitReader.Opened]⟩
  have hunread : BitReader.unread ⟨input, 0, 0, false, 0⟩ + 1 < fuel := by
    simpa [BitReader.unread] using hfuel
  have hends := decompressLoop_ends (.wrapping memory) hstart hunread
  rw [zx0DecompressTo, if_neg hempty]
  cases hrun : decompressLoop (.wrapping memory) fuel ⟨⟨input, 0, 0, false, 0⟩, 1, out, 0⟩ with
  | next _ =>
      rw [hrun] at hends
      exact hends.elim
  | ret value out' =>
      rw [hrun] at hends
      exact ⟨value, out', rfl, hends⟩
  | fault =>
      rw [hrun] at hends
      cases hends
  | stuck =>
      rw [hrun] at hends
      exact hends.elim

/-- Eight bytes of zeros, whose first number wraps around. -/
theorem zx0DecompressTo_terminates_zeros :
  ∃ value out', zx0DecompressTo (.wrapping fun _ => 0) 67 (List.replicate 8 0) [0]
      = some (value, out')
    ∧ (value = -1 ∨ 0 ≤ value ∧ value ≤ 1)
  := zx0DecompressTo_terminates _ _ _ (by decide)

end LnxCad.Zx0
