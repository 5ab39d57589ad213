import LnxCad.Lib.Loop
import LnxCad.Zx0.BestParse

/-!
# The run of the search

The lengths kept in `best_length` are the cheapest ones, so that a match from a new offset
never continues a match of the same offset.  The search then comes to its end, and the
chain it leaves for the last position is a parse of the input.
-/

namespace LnxCad.Zx0

variable {x : Bytes} {m : Chains} {ml T : ℕ → ℕ} {i o : ℕ}

/-! ### The best lengths -/

/-- The cost of a match of a length behind the best parse before it, without what depends
on the offset. -/
def lengthCost (m : Chains) (i k : ℕ) : ℤ :=
  match m (.optimal (i - k)) with
  | [] => 0
  | b :: _ => b.bits + eliasGammaBits (k - 1)

/-- The entries of `best_length` up to its size are the cheapest lengths up to them. -/
structure Best (m : Chains) (i n size : ℕ) (best : List ℕ) : Prop where
  length_eq : best.length = n
  two : 2 < n → best[2]? = some 2
  entry : ∀ k, 2 ≤ k → k ≤ size → k ≤ i → k < n → ∃ l, best[k]? = some l ∧ 2 ≤ l ∧ l ≤ k
    ∧ ∀ k', 2 ≤ k' → k' ≤ k → lengthCost m i l ≤ lengthCost m i k'

variable {n size : ℕ} {best : List ℕ}

/-- The costs depend on earlier positions only. -/
theorem Best.stepAt {m' : Chains} (h : Best m i n size best) (hstep : StepAt i m m') :
  Best m' i n size best
  := by
  have hcost : ∀ k, 2 ≤ k → k ≤ i → lengthCost m' i k = lengthCost m i k := by
    intro k hk hki
    rw [lengthCost, lengthCost, hstep.optimal_eq _ (by omega)]
  refine ⟨h.length_eq, h.two, ?_⟩
  intro k hk hksize hki hkn
  obtain ⟨l, hl, hlo, hhi, hmin⟩ := h.entry k hk hksize hki hkn
  refine ⟨l, hl, hlo, hhi, ?_⟩
  intro k' hk' hk'k
  rw [hcost l hlo (by omega), hcost k' hk' (by omega)]
  apply hmin k' hk' hk'k

/-- At the next position the array starts again with one length. -/
theorem Best.next (h : Best m i n size best) :
  Best m (i + 1) n 2 best
  := by
  refine ⟨h.length_eq, h.two, ?_⟩
  intro k hk hksize hki hkn
  obtain rfl : k = 2 := by omega
  refine ⟨2, h.two hkn, le_refl 2, le_refl 2, ?_⟩
  intro k' hk' hk'k
  obtain rfl : k' = 2 := by omega
  exact le_refl _

/-- The cost of a length as the program computes it. -/
theorem lengthBits_eq
    (h : Found x m ml T) (hx : x.length < 2 ^ 27) (hi : i < x.length)
    (hfilled : ∀ j < i, m (.optimal j) ≠ []) {k : ℕ} (hk : 2 ≤ k) (hki : k ≤ i) :
  lengthBits chainStore m i k = some (lengthCost m i k)
  := by
  obtain ⟨b, c, hs⟩ := List.exists_cons_of_ne_nil (hfilled (i - k) (by omega))
  have hbounds := (h.parse_cons hs).bits_bounds
  have hindex := h.optimal_index hs
  have hone := one_le_eliasGammaBits (k - 1)
  have hlt := eliasGammaBits_lt (v := k - 1) (by omega)
  have hint : int32 (b.bits + eliasGammaBits (k - 1)) = b.bits + eliasGammaBits (k - 1) := by
    apply int32_eq
    · omega
    · omega
  simp only [lengthBits, optimalBits, if_pos hki, chainStore, hs, List.head?_cons, Option.map_some,
    lengthCost, hint]

/-- One more entry keeps the array good, if it is a cheapest length. -/
theorem Best.grow
    (h : Best m i n size best) (hn : size + 1 < n) (hsize : 2 ≤ size) {l : ℕ} (hlo : 2 ≤ l)
    (hhi : l ≤ size + 1)
    (hmin : ∀ k', 2 ≤ k' → k' ≤ size + 1 → lengthCost m i l ≤ lengthCost m i k') :
  Best m i n (size + 1) (best.set (size + 1) l)
  := by
  refine ⟨?_, ?_, ?_⟩
  · rw [List.length_set, h.length_eq]
  · intro hn'
    rw [List.getElem?_set_ne (by omega)]
    apply h.two hn'
  · intro k hk hksize hki hkn
    by_cases hlast : k = size + 1
    · subst hlast
      refine ⟨l, ?_, hlo, hhi, hmin⟩
      rw [List.getElem?_set_self]
      rw [h.length_eq]
      exact hn
    · rw [List.getElem?_set_ne (by omega)]
      apply h.entry k hk (by omega) hki hkn

/-- The loop extends the array. -/
theorem Best.growBest
    (h : Found x m ml T) (hx : x.length < 2 ^ 27) (hi : i < x.length)
    (hfilled : ∀ j < i, m (.optimal j) ≠ []) (k : ℕ) {l : ℕ}
    (hbest : Best m i x.length size best) (hsize : 2 ≤ size) (hk : size + k ≤ i)
    (hl : best[size]? = some l) :
  ∃ best', Zx0.growBest chainStore m i k (lengthCost m i l) size best = some best'
    ∧ Best m i x.length (size + k) best'
  := by
  induction k generalizing size best l with
  | zero => exact ⟨best, rfl, hbest⟩
  | succ k ih =>
      obtain ⟨l', hl', hlo, hhi, hmin⟩ := hbest.entry size hsize (le_refl size) (by omega)
        (by omega)
      rw [hl] at hl'
      cases hl'
      have hroom : size + 1 < best.length := by
        rw [hbest.length_eq]
        omega
      simp only [Zx0.growBest, lengthBits_eq h hx hi hfilled (k := size + 1) (by omega) (by omega),
        Option.bind_eq_bind, Option.bind_some]
      have hcases : ∀ k', 2 ≤ k' → k' ≤ size + 1 → k' ≤ size ∨ k' = size + 1 := by
        intro k' _ _
        omega
      split
      case isTrue hle =>
        have hnew := hbest.grow (l := size + 1) (by omega) hsize (by omega) (le_refl _) (by
          intro k' hlo' hhi'
          obtain hk' | rfl := hcases k' hlo' hhi'
          · exact hle.trans (hmin k' hlo' hk')
          · exact le_refl _)
        obtain ⟨best', hrun, hbest'⟩ := ih hnew (by omega) (by omega)
          (List.getElem?_set_self hroom)
        refine ⟨best', ?_, ?_⟩
        · rw [store?, if_pos hroom]
          exact hrun
        · rw [show size + (k + 1) = size + 1 + k by omega]
          exact hbest'
      case isFalse hgt =>
        have hnew := hbest.grow (l := l) (by omega) hsize hlo (by omega) (by
          intro k' hlo' hhi'
          obtain hk' | rfl := hcases k' hlo' hhi'
          · exact hmin k' hlo' hk'
          · omega)
        obtain ⟨best', hrun, hbest'⟩ := ih hnew (by omega) (by omega)
          (List.getElem?_set_self hroom)
        refine ⟨best', ?_, ?_⟩
        · rw [show size + 1 - 1 = size by omega, hl, Option.bind_some, store?, if_pos hroom]
          exact hrun
        · rw [show size + (k + 1) = size + 1 + k by omega]
          exact hbest'

/-- The array covers a match length that is not longer than the positions allow. -/
theorem Best.coverLength
    {w : Search Chains} (h : Found x w.store ml T) (hx : x.length < 2 ^ 27) (hi : i < x.length)
    (hfilled : ∀ j < i, w.store (.optimal j) ≠ [])
    (hbest : Best w.store i x.length w.bestLengthSize w.bestLength)
    (hsize : 2 ≤ w.bestLengthSize) {k : ℕ} (hk : k ≤ i) :
  ∃ best' size', Zx0.coverLength chainStore w i k
      = some { w with bestLength := best', bestLengthSize := size' }
    ∧ Best w.store i x.length size' best' ∧ 2 ≤ size' ∧ k ≤ size'
  := by
  unfold Zx0.coverLength
  split
  case isTrue hlt =>
    obtain ⟨l, hl, hlo, hhi, -⟩ := hbest.entry w.bestLengthSize hsize (le_refl _) (by omega)
      (by omega)
    obtain ⟨best', hrun, hbest'⟩ := Best.growBest h hx hi hfilled (k - w.bestLengthSize) hbest hsize
      (by omega) hl
    have hsum : w.bestLengthSize + (k - w.bestLengthSize) = k := by omega
    rw [hsum] at hbest'
    refine ⟨best', k, ?_, hbest', by omega, le_refl k⟩
    simp only [hl, Option.bind_eq_bind, Option.bind_some,
      lengthBits_eq h hx hi hfilled hlo (by omega), hrun]
  case isFalse hge => exact ⟨w.bestLength, w.bestLengthSize, rfl, hbest, hsize, by omega⟩

/-! ### Matches from new offsets -/

/-- The run of an offset does not reach back to the first position. -/
theorem Found.matchLength_le (h : Found x m ml T) (hlo : 1 ≤ o) (hhi : o ≤ 32640)
    (hTo : T o = i + 1) :
  ml o ≤ i
  := by
  by_contra hgt
  have hzero := h.run (j := 0) hlo hhi (by omega) (by omega)
  have := hzero.1
  omega

/-- A run of matching positions that reaches the one just handled is not longer than the
match length. -/
theorem Found.le_matchLength
    (h : Found x m ml T) (hlo : 1 ≤ o) (hhi : o ≤ 32640) (hTo : T o = i + 1) {k : ℕ}
    (hrun : Matches x o (i - k) i) :
  k ≤ ml o
  := by
  by_contra hgt
  have hle := h.matchLength_le hlo hhi hTo
  apply h.broken (j := i - ml o) hlo hhi (by omega)
  apply hrun
  · omega
  · omega

/-- The best parse that a cheaper match from a new offset follows has another last
offset. -/
theorem Found.lastOffset_ne
    (h : Found x m ml T) (hlo : 1 ≤ o) (hhi : o ≤ 32640) (hTo : T o = i + 1)
    (hagain : AgainAt m i o) {l : ℕ} (hl : 2 ≤ l) (hle : l ≤ ml o)
    (hmin : ∀ k', 2 ≤ k' → k' ≤ ml o → lengthCost m i l ≤ lengthCost m i k')
    {b : Block} {c : List Block} (hs : m (.optimal (i - l)) = b :: c)
    (hbetter : betterMatch chainStore m i o (b.bits + freshCost o l) = true) :
  lastOffset (b :: c) ≠ o
  := by
  intro hlast
  have hli := h.matchLength_le hlo hhi hTo
  have hindex := h.optimal_index hs
  have hparse := h.parse_cons hs
  have hlen : (i : ℤ) - b.index = l := by omega
  -- a copy of the last offset from literals `d` that is as cheap rules the match out
  have hdearer : ∀ {d c'}, m (.lastLiteral o) = d :: c' →
      d.bits + againCost (i - d.index) < b.bits + freshCost o l → False := by
    intro d c' hd hcost
    obtain ⟨c'', hmatch⟩ := hagain hd
    simp [betterMatch, chainStore, hmatch] at hbetter
    omega
  by_cases hb : b.offset = 0
  · rw [lastOffset_cons_literal hb] at hlast
    have hkept := h.literal_kept hs hb (by rw [hlast]; omega)
    rw [hlast] at hkept
    apply hdearer hkept
    rw [hlen]
    have := againCost_lt_freshCost o (n := l) (by omega)
    omega
  · rw [lastOffset_cons_match hb] at hlast
    obtain ⟨d, c', rfl⟩ := hparse.exists_tail (by omega)
    obtain ⟨hd, hlast', hbits⟩ | ⟨hne, hbits, hpos, hlt, hrun⟩ := hparse.match_cases hb
    · have hkept := h.again_kept hs hb hd hlast' (by rw [hlast]; omega)
      rw [hlast] at hkept
      apply hdearer hkept
      have hd' := hparse.tail.2
      have := againCost_add_lt o (a := b.index - d.index) (n := l) (by omega) (by omega)
      rw [show b.index - d.index + (l : ℤ) = i - d.index by omega] at this
      omega
    · -- one match in place of the two is cheaper, and its length has been compared
      have htail := h.fresh_tail hs hb hne
      rw [hlast] at hrun
      have hk : i - d.index.toNat ≤ ml o := by
        apply h.le_matchLength hlo hhi hTo
        intro j hj hji
        by_cases hjb : (j : ℤ) ≤ b.index
        · apply hrun j (by omega) hjb
        · apply h.run hlo hhi
          · omega
          · omega
      have hcost := hmin (i - d.index.toNat) (by omega) hk
      rw [lengthCost, lengthCost, hs, show i - (i - d.index.toNat) = d.index.toNat by omega,
        htail] at hcost
      have := eliasGammaBits_add_lt b.offset (a := b.index - d.index) (n := l) (by omega)
        (by omega)
      rw [show b.index - d.index + (l : ℤ) - 1 = ((i - d.index.toNat : ℕ) : ℤ) - 1 by omega] at this
      dsimp only at hcost
      omega

/-- A match from a new offset is put in its place. -/
theorem Found.setFresh
    (h : Found x m ml T) (hlo : 1 ≤ o) (hhi : o ≤ 32640) (hTo : T o = i + 1) (hi : i < x.length)
    (hreach : ∀ j, m (.optimal j) ≠ [] → j ≤ i) {l : ℕ} (hl : 2 ≤ l) (hle : l ≤ ml o)
    {b : Block} {c : List Block} (hs : m (.optimal (i - l)) = b :: c)
    (hne : lastOffset (b :: c) ≠ o) (bits : ℤ) :
  Found x (offer chainStore (Function.update m (.lastMatch o)
      (⟨b.bits + freshCost o l, i, o⟩ :: b :: c)) bits (.lastMatch o) (.optimal i)) ml T
  := by
  have hli := h.matchLength_le hlo hhi hTo
  have hindex := h.optimal_index hs
  have hlen : (i : ℤ) - b.index = l := by omega
  have hparse : Parse x (⟨b.bits + freshCost o l, i, o⟩ :: b :: c) := by
    rw [← hlen]
    apply Parse.fresh (h.parse_cons hs)
    · omega
    · omega
    · exact_mod_cast hi
    · exact hlo
    · exact hhi
    · exact hne
    · intro j hj hji
      apply h.run hlo hhi
      · omega
      · omega
  have hfound := h.setMatch hTo hparse rfl rfl
  have hoptimal : ∀ j, Function.update m (.lastMatch o) (⟨b.bits + freshCost o l, i, o⟩ :: b :: c)
      (.optimal j) = m (.optimal j) := fun _ => Function.update_of_ne (by simp) _ _
  apply hfound.afterOffer (o := o) hTo _ (Function.update_self _ _ _) rfl
  · rw [lastOffset_cons_match (by dsimp only; omega)]
  · intro hzero
    dsimp only at hzero
    omega
  · rintro d c' ⟨⟩ - - hlast
    exact absurd hlast hne
  · rintro d c' ⟨⟩ - -
    rw [hoptimal, show b.index.toNat = i - l by omega, hs]
  · intro j hj
    rw [hoptimal] at hj
    apply hreach j hj

/-- The search after the copy from a new offset. -/
theorem Found.afterFresh
    {w : Search Chains} (h : Found x w.store w.matchLength T) (hx : x.length < 2 ^ 27)
    (hlo : 1 ≤ o) (hhi : o ≤ 32640) (hTo : T o = i + 1) (hi : i < x.length)
    (hreach : ∀ j, w.store (.optimal j) ≠ [] → j ≤ i)
    (hfilled : ∀ j < i, w.store (.optimal j) ≠ []) (hagain : AgainAt w.store i o)
    (hbest : Best w.store i x.length w.bestLengthSize w.bestLength)
    (hsize : 2 ≤ w.bestLengthSize) :
  ∃ w', copyFromNewOffset chainStore w i o = some w' ∧ Found x w'.store w'.matchLength T
    ∧ w'.matchLength = w.matchLength ∧ StepAt i w.store w'.store
    ∧ Best w'.store i x.length w'.bestLengthSize w'.bestLength ∧ 2 ≤ w'.bestLengthSize
  := by
  have hml := h.matchLength_le hlo hhi hTo
  unfold copyFromNewOffset
  split
  case isFalse => exact ⟨w, rfl, h, rfl, StepAt.refl _ _, hbest, hsize⟩
  case isTrue htwo =>
    obtain ⟨best', size', hcover, hbest', hsize', hcovered⟩ :=
      hbest.coverLength h hx hi hfilled hsize hml
    obtain ⟨l, hl, hl2, hle, hmin⟩ := hbest'.entry (w.matchLength o) htwo hcovered hml (by omega)
    obtain ⟨b, c, hs⟩ := List.exists_cons_of_ne_nil (hfilled (i - l) (by omega))
    have hbits : int32 (b.bits + (8 : ℤ) + eliasGammaBits (((o - 1) >>> 7 : ℕ) + 1)
        + eliasGammaBits (l - 1)) = b.bits + freshCost o l := by
      have hbounds := (h.parse_cons hs).bits_bounds
      have hindex := h.optimal_index hs
      have hmsb := one_le_eliasGammaBits (((o - 1) >>> 7 : ℕ) + 1)
      have hmsb' := eliasGammaBits_offset_le hhi
      have hone := one_le_eliasGammaBits (l - 1)
      have hlt := eliasGammaBits_lt (v := l - 1) (by omega)
      rw [int32_eq (by omega) (by omega), freshCost]
      ring
    have hopt : optimalBits chainStore w.store i l = some b.bits := by
      simp [optimalBits, chainStore, hs, show l ≤ i by omega]
    simp only [hcover, hl, hopt, Option.bind_eq_bind, Option.bind_some]
    rw [hbits]
    split
    case isFalse => exact ⟨_, rfl, h, rfl, StepAt.refl _ _, hbest', hsize'⟩
    case isTrue hbetter =>
      have hne := h.lastOffset_ne hlo hhi hTo hagain hl2 hle hmin hs hbetter
      have hmake : StepAt i w.store (Function.update w.store (.lastMatch o)
          (⟨b.bits + freshCost o l, i, o⟩ :: b :: c)) := by
        apply StepAt.update
        · simp
        · simp
      have hoffer := offer_stepAt (Function.update w.store (.lastMatch o)
        (⟨b.bits + freshCost o l, i, o⟩ :: b :: c)) (b.bits + freshCost o l)
        (s := .lastMatch o) (by simp) i
      have hstep := hmake.trans hoffer.1
      have hset := h.setFresh hlo hhi hTo hi hreach hl2 hle hs hne (b.bits + freshCost o l)
      refine ⟨_, rfl, ?_, rfl, ?_, ?_, hsize'⟩
      · simpa only [chainStore, hs] using hset
      · simpa only [chainStore, hs] using hstep
      · simpa only [chainStore, hs] using hbest'.stepAt hstep

/-! ### The loops -/

/-- The number of positions handled for each offset, when those below `o` have been handled
at position `i`; an offset that the string has not reached counts as handled up to it. -/
def handled (i o o' : ℕ) : ℕ :=
  if o' < o then i + 1 else if o' ≤ 1 then i else max i o'

theorem offsetCeiling_le (i : ℕ) :
  offsetCeiling i 32640 ≤ 32640 ∧ (offsetCeiling i 32640 ≤ i ∨ offsetCeiling i 32640 = 1)
  := by
  unfold offsetCeiling initialOffset
  split
  · omega
  · split
    · omega
    · omega

theorem handled_self (hhi : o ≤ offsetCeiling i 32640) :
  handled i o o = i
  := by
  have := offsetCeiling_le i
  unfold handled
  split
  · omega
  · split
    · rfl
    · omega

theorem handled_succ (i o : ℕ) :
  Function.update (handled i o) o (i + 1) = handled i (o + 1)
  := by
  funext o'
  by_cases ho : o' = o
  · subst ho
    rw [Function.update_self, handled, if_pos (by omega)]
  · have hiff : o' < o ↔ o' < o + 1 := by omega
    simp only [Function.update_of_ne ho, handled, hiff]

theorem handled_next {o' : ℕ} (hlo : 1 ≤ o') (hhi : o' ≤ 32640) :
  handled i (1 + offsetCeiling i 32640) o' = handled (i + 1) 1 o'
  := by
  unfold handled offsetCeiling initialOffset
  split_ifs
  all_goals omega

/-- The state of the search when the offsets below `o` have been handled at position
`i`. -/
structure SearchInv (x : Bytes) (i o : ℕ) (w : Search Chains) : Prop where
  found : Found x w.store w.matchLength (handled i o)
  reach : ∀ j, w.store (.optimal j) ≠ [] → j ≤ i
  filled : ∀ j < i, w.store (.optimal j) ≠ []
  current : 1 < o → w.store (.optimal i) ≠ []
  first : w.store (.lastMatch 1) ≠ []
  firstLiteral : 0 < handled i o 1 → w.store (.lastLiteral 1) ≠ []
  best : Best w.store i x.length w.bestLengthSize w.bestLength
  size : 2 ≤ w.bestLengthSize

theorem byteMatches_eq (hi : i < x.length) (hlo : 1 ≤ o) (hhi : o ≤ offsetCeiling i 32640) :
  ∃ v, byteMatches x 0 i o = some v ∧ (v = true ↔ MatchesAt x o i)
  := by
  have hceiling := offsetCeiling_le i
  unfold byteMatches MatchesAt
  split
  · refine ⟨false, rfl, ?_⟩
    simp
    omega
  · rw [if_pos (by omega)]
    obtain ⟨u, hu⟩ : ∃ u, x[i]? = some u := ⟨x[i], List.getElem?_eq_getElem hi⟩
    obtain ⟨v, hv⟩ : ∃ v, x[i - o]? = some v :=
      ⟨x[i - o], List.getElem?_eq_getElem (by omega)⟩
    refine ⟨decide (u = v), ?_, ?_⟩
    · rw [hu, hv]
      rfl
    · rw [hu, hv, decide_eq_true_eq, Option.some.injEq]
      constructor
      · intro huv
        exact ⟨by omega, hi, huv⟩
      · rintro ⟨-, -, huv⟩
        exact huv

/-- What one offset has to establish at a position. -/
theorem SearchInv.ofStep
    {w w' : Search Chains} (h : SearchInv x i o w) (hlo : 1 ≤ o)
    (hfound : Found x w'.store w'.matchLength (handled i (o + 1)))
    (hstep : StepAt i w.store w'.store) (hcurrent : o = 1 → w'.store (.optimal i) ≠ [])
    (hliteral : o = 1 → w'.store (.lastLiteral 1) ≠ [])
    (hbest : Best w'.store i x.length w'.bestLengthSize w'.bestLength)
    (hsize : 2 ≤ w'.bestLengthSize) :
  SearchInv x i (o + 1) w'
  := by
  refine
    { found := hfound
      reach := ?_
      filled := ?_
      current := ?_
      first := hstep.grows _ h.first
      firstLiteral := ?_
      best := hbest
      size := hsize }
  · apply hstep.reach h.reach
  · intro j hj
    apply hstep.grows _ (h.filled j hj)
  · intro _
    by_cases ho : o = 1
    · apply hcurrent ho
    · apply hstep.grows _ (h.current (by omega))
  · intro _
    by_cases ho : o = 1
    · apply hliteral ho
    · apply hstep.grows _ (h.firstLiteral _)
      rw [handled, if_pos (by omega)]
      omega

/-- One offset at one position. -/
theorem SearchInv.processOffset
    {w : Search Chains} (h : SearchInv x i o w) (hx : x.length < 2 ^ 27) (hi : i < x.length)
    (hlo : 1 ≤ o) (hceiling : o ≤ offsetCeiling i 32640) :
  ∃ w', Zx0.processOffset chainStore x 0 i w o = some w' ∧ SearchInv x i (o + 1) w'
  := by
  have hhi : o ≤ 32640 := hceiling.trans (offsetCeiling_le i).1
  have hself := handled_self hceiling
  have hsucc : handled i (o + 1) o = i + 1 := by rw [handled, if_pos (by omega)]
  obtain ⟨v, hbytes, hv⟩ := byteMatches_eq hi hlo hceiling
  unfold Zx0.processOffset
  rw [hbytes]
  cases v with
  | false =>
      have hbroken : ¬ MatchesAt x o i := by simpa using hv.not
      obtain ⟨hfound, hstep, hnew⟩ := h.found.afterLiterals hx hlo hhi hself hi h.reach hbroken
      rw [handled_succ] at hfound
      refine ⟨_, rfl, h.ofStep hlo hfound hstep ?_ ?_ (h.best.stepAt hstep) h.size⟩
      · rintro rfl
        apply (hnew h.first).1
      · rintro rfl
        apply (hnew h.first).2
  | true =>
      have hmatch : MatchesAt x o i := hv.mp rfl
      have hliteral : o = 1 → w.store (.lastLiteral 1) ≠ [] := by
        rintro rfl
        apply h.firstLiteral
        have := hmatch.1
        omega
      have hrun := h.found.extendRun hself hmatch
      rw [handled_succ] at hrun
      obtain ⟨hfound, hstep, hagain, hcurrent⟩ := hrun.afterAgain hx hlo hhi hsucc hi h.reach
        (by rw [Function.update_self]; omega)
      obtain ⟨w', hfresh, hfound', -, hstep', hbest, hsize⟩ := Found.afterFresh
        (w := { w with store := copyFromLastOffset chainStore w.store i o
                       matchLength := Function.update w.matchLength o (w.matchLength o + 1) })
        hfound hx hlo hhi hsucc hi (hstep.reach h.reach)
        (fun j hj => hstep.grows _ (h.filled j hj)) hagain (h.best.stepAt hstep) h.size
      refine ⟨w', hfresh, h.ofStep hlo hfound' (hstep.trans hstep') ?_ ?_ hbest hsize⟩
      · rintro rfl
        apply hstep'.grows _ (hcurrent (hliteral rfl))
      · intro ho
        apply hstep'.grows _ (hstep.grows _ (hliteral ho))

/-- All offsets at one position. -/
theorem SearchInv.processIndex
    {w : Search Chains} (h : SearchInv x i 1 { w with bestLengthSize := 2 })
    (hx : x.length < 2 ^ 27) (hi : i < x.length) :
  ∃ w', Zx0.processIndex chainStore x 0 32640 w i = some w'
    ∧ SearchInv x (i + 1) 1 { w' with bestLengthSize := 2 }
  := by
  obtain ⟨w', hrun, hinv⟩ := Loop.foldlM_range' (P := SearchInv x i) (s := 1)
    (n := offsetCeiling i 32640) (f := Zx0.processOffset chainStore x 0 i) (by
      intro o w hlo hhi hw
      apply hw.processOffset hx hi hlo
      omega) h
  have hone : 1 ≤ offsetCeiling i 32640 := by
    unfold offsetCeiling initialOffset
    split_ifs
    all_goals omega
  have hcurrent := hinv.current (by omega)
  refine ⟨w', hrun, ?_⟩
  refine
    { found := hinv.found.congr (fun o hlo hhi => handled_next hlo hhi)
      reach := ?_
      filled := ?_
      current := ?_
      first := hinv.first
      firstLiteral := ?_
      best := hinv.best.next
      size := le_refl 2 }
  · intro j hj
    have := hinv.reach j hj
    omega
  · intro j hj
    by_cases hji : j = i
    · rw [hji]
      exact hcurrent
    · apply hinv.filled j
      omega
  · omega
  · intro _
    apply hinv.firstLiteral
    rw [handled_next (le_refl 1) (by omega), handled]
    split_ifs
    all_goals omega

/-- The chains at the start: the fake block as last match of the initial offset. -/
def startChains : Chains := Function.update (fun _ => []) (.lastMatch 1) [fakeBlock]

theorem startChains_optimal (j : ℕ) :
  startChains (.optimal j) = []
  := rfl

theorem startChains_lastMatch {o : ℕ} (h : o ≠ 1) :
  startChains (.lastMatch o) = []
  := Function.update_of_ne (by simpa using h) _ _

theorem startChains_found (x : Bytes) :
  Found x startChains (fun _ => 0) (handled 0 1)
  := by
  constructor
  case parse =>
    intro s hs
    by_cases hone : s = .lastMatch 1
    · subst hone
      exact Parse.start
    · exact absurd (Function.update_of_ne hone _ _) hs
  case match_shape =>
    intro o b c hlo hhi hs
    by_cases hone : o = 1
    · subst hone
      obtain ⟨rfl, rfl⟩ := List.cons.inj hs
      exact ⟨rfl, by decide⟩
    · rw [startChains_lastMatch hone] at hs
      cases hs
  case literal_shape =>
    intro o b c _ _ hs
    cases hs
  case run =>
    intro o j _ _ hj hlt
    omega
  case broken =>
    intro o j hlo hhi hj hmatch
    have hle := hmatch.1
    unfold handled at hj
    split_ifs at hj
    all_goals omega
  case optimal_index =>
    intro j b c hj
    cases hj
  case seen =>
    intro j b c hj
    cases hj
  case literal_kept =>
    intro j b c hj
    cases hj
  case again_kept =>
    intro j b d c hj
    cases hj
  case fresh_tail =>
    intro j b d c hj
    cases hj

theorem startSearch_inv (x : Bytes) (newMemory : ℕ → ℕ) :
  SearchInv x 0 1 { startSearch chainStore (fun _ => []) newMemory x.length 0 with
    bestLengthSize := 2 }
  := by
  have hstore : (startSearch chainStore (fun _ => []) newMemory x.length 0).store = startChains :=
    rfl
  refine
    { found := startChains_found x
      reach := ?_
      filled := ?_
      current := ?_
      first := ?_
      firstLiteral := ?_
      best := ?_
      size := le_refl 2 }
  · intro j hj
    exact absurd (startChains_optimal j) hj
  · omega
  · omega
  · rw [hstore]
    simp [startChains]
  · intro h
    simp [handled] at h
  · refine ⟨?_, ?_, ?_⟩
    · simp only [startSearch]
      split
      · simp
      · simp
    · intro hn
      simp [startSearch, hn]
    · intro k hk _ hki
      omega

/-- The search comes to its end and leaves a parse of the whole input. -/
theorem zx0Optimize_parse
    (newMemory : ℕ → ℕ) (hpos : x ≠ []) (hx : x.length < 2 ^ 27) :
  ∃ m b c, zx0Optimize chainStore (fun _ => []) newMemory x 0 32640 = some m
    ∧ m (.optimal (x.length - 1)) = b :: c ∧ Parse x (b :: c) ∧ b.index = x.length - 1
  := by
  have hlen := List.length_pos_iff.mpr hpos
  obtain ⟨w, hrun, hinv⟩ := Loop.foldlM_range'
    (P := fun i w => SearchInv x i 1 { w with bestLengthSize := 2 }) (s := 0)
    (n := x.length - 0) (f := Zx0.processIndex chainStore x 0 32640) (by
      intro i w _ hi hw
      apply hw.processIndex hx
      omega) (startSearch_inv x newMemory)
  obtain ⟨b, c, hs⟩ := List.exists_cons_of_ne_nil (hinv.filled (x.length - 1) (by omega))
  refine ⟨w.store, b, c, ?_, hs, hinv.found.parse_cons hs, ?_⟩
  · rw [zx0Optimize, hrun]
    rfl
  · have := hinv.found.optimal_index hs
    omega

end LnxCad.Zx0
