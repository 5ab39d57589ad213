import LnxCad.Zx0.Parse

/-!
# The search finds parses

The search is run on a store that keeps whole chains instead of pointers.  After every
step the chains it keeps are parses, and so are the ones the step has just found.  That
two adjacent matches never have the same offset is a matter of costs: one match in their
place is always cheaper, and the search has compared it.
-/

namespace LnxCad.Zx0

/-! ### Chains in place of pointers -/

/-- The chain in each place, empty for a place without a pointer. -/
abbrev Chains := Slot → List Block

/-- The operations on chains. -/
def chainStore : BlockStore Chains where
  peek m s := (m s).head?
  make m b src dst :=
    Function.update m dst (b :: match src with | some s => m s | none => [])
  share m src dst := Function.update m dst (m src)

/-! ### What is kept for the offsets and the positions -/

/-- The chains and the match lengths, when the positions before `T offset` have been
handled for each offset.  The chains are parses; those of an offset end with a match of
it, and with literals behind one.  The match length of an offset is the length of the run
of matching positions it has reached.  As long as the run lasts, the literals before it
are still at hand, and the best parses for the positions of the run refer to them. -/
structure Found (x : Bytes) (m : Chains) (matchLength T : ℕ → ℕ) : Prop where
  parse : ∀ {s}, m s ≠ [] → Parse x (m s)
  optimal_index : ∀ {j b c}, m (.optimal j) = b :: c → b.index = j
  match_shape : ∀ {o b c}, 1 ≤ o → o ≤ 32640 → m (.lastMatch o) = b :: c →
    b.offset = o ∧ b.index < T o
  literal_shape : ∀ {o b c}, 1 ≤ o → o ≤ 32640 → m (.lastLiteral o) = b :: c →
    b.offset = 0 ∧ lastOffset c = o ∧ b.index + matchLength o + 1 = T o
      ∧ m (.lastMatch o) ≠ []
  run : ∀ {o j : ℕ}, 1 ≤ o → o ≤ 32640 → T o ≤ j + matchLength o → j < T o → MatchesAt x o j
  broken : ∀ {o j : ℕ}, 1 ≤ o → o ≤ 32640 → j + matchLength o + 1 = T o → ¬ MatchesAt x o j
  seen : ∀ {j b c}, m (.optimal j) = b :: c → j < T (lastOffset (b :: c))
  literal_kept : ∀ {j b c}, m (.optimal j) = b :: c → b.offset = 0 →
    T (lastOffset c) ≤ j + matchLength (lastOffset c) + 1 → m (.lastLiteral (lastOffset c)) = b :: c
  again_kept : ∀ {j b d c}, m (.optimal j) = b :: d :: c → b.offset ≠ 0 → d.offset = 0 →
    lastOffset (d :: c) = b.offset → T b.offset ≤ j + matchLength b.offset + 1 →
    m (.lastLiteral b.offset) = d :: c
  fresh_tail : ∀ {j b d c}, m (.optimal j) = b :: d :: c → b.offset ≠ 0 →
    lastOffset (d :: c) ≠ b.offset → m (.optimal d.index.toNat) = d :: c

variable {x : Bytes} {m : Chains} {ml T T' : ℕ → ℕ} {i o : ℕ}

theorem Found.parse_cons (h : Found x m ml T) {s : Slot} {b : Block} {c : List Block}
    (hs : m s = b :: c) :
  Parse x (b :: c)
  := by
  rw [← hs]
  apply h.parse
  simp [hs]

/-- Only the offsets in use matter. -/
theorem Found.congr (h : Found x m ml T) (hT : ∀ o, 1 ≤ o → o ≤ 32640 → T o = T' o) :
  Found x m ml T'
  := by
  have hlast : ∀ {s b c}, m s = b :: c → T (lastOffset (b :: c)) = T' (lastOffset (b :: c)) := by
    intro s b c hs
    have hbounds := (h.parse_cons hs).lastOffset_bounds
    apply hT
    · omega
    · omega
  refine
    { parse := h.parse
      optimal_index := h.optimal_index
      match_shape := ?_
      literal_shape := ?_
      run := ?_
      broken := ?_
      seen := ?_
      literal_kept := ?_
      again_kept := ?_
      fresh_tail := h.fresh_tail }
  · intro o b c hlo hhi
    rw [← hT o hlo hhi]
    apply h.match_shape hlo hhi
  · intro o b c hlo hhi
    rw [← hT o hlo hhi]
    apply h.literal_shape hlo hhi
  · intro o j hlo hhi
    rw [← hT o hlo hhi]
    apply h.run hlo hhi
  · intro o j hlo hhi
    rw [← hT o hlo hhi]
    apply h.broken hlo hhi
  · intro j b c hj
    rw [← hlast hj]
    apply h.seen hj
  · intro j b c hj hb hwindow
    have hT' := hlast hj
    rw [lastOffset_cons_literal hb] at hT'
    apply h.literal_kept hj hb
    omega
  · intro j b d c hj hb hd hlast' hwindow
    have hT' := hlast hj
    rw [lastOffset_cons_match hb] at hT'
    apply h.again_kept hj hb hd hlast'
    omega

/-- The run of an offset goes on. -/
theorem Found.extendRun
    (h : Found x m ml T) (hTo : T o = i) (hmatch : MatchesAt x o i) :
  Found x m (Function.update ml o (ml o + 1)) (Function.update T o (i + 1))
  := by
  refine
    { parse := h.parse
      optimal_index := h.optimal_index
      match_shape := ?_
      literal_shape := ?_
      run := ?_
      broken := ?_
      seen := ?_
      literal_kept := ?_
      again_kept := ?_
      fresh_tail := h.fresh_tail }
  · intro o' b c hlo hhi hs
    obtain ⟨hoff, hindex⟩ := h.match_shape hlo hhi hs
    refine ⟨hoff, ?_⟩
    by_cases ho : o' = o
    · subst ho
      rw [Function.update_self]
      omega
    · rw [Function.update_of_ne ho]
      exact hindex
  · intro o' b c hlo hhi hs
    obtain ⟨hoff, hlast, hindex, hne⟩ := h.literal_shape hlo hhi hs
    refine ⟨hoff, hlast, ?_, hne⟩
    by_cases ho : o' = o
    · subst ho
      rw [Function.update_self, Function.update_self]
      omega
    · rw [Function.update_of_ne ho, Function.update_of_ne ho]
      exact hindex
  · intro o' j hlo hhi
    by_cases ho : o' = o
    · subst ho
      simp only [Function.update_self]
      intro hwindow hj
      by_cases hji : j = i
      · rw [hji]
        exact hmatch
      · apply h.run hlo hhi
        · omega
        · omega
    · simp only [Function.update_of_ne ho]
      apply h.run hlo hhi
  · intro o' j hlo hhi
    by_cases ho : o' = o
    · subst ho
      simp only [Function.update_self]
      intro hj
      apply h.broken hlo hhi
      omega
    · simp only [Function.update_of_ne ho]
      apply h.broken hlo hhi
  · intro j b c hj
    have hseen := h.seen hj
    by_cases ho : lastOffset (b :: c) = o
    · subst ho
      rw [Function.update_self]
      omega
    · rw [Function.update_of_ne ho]
      exact hseen
  · intro j b c hj hb
    have hseen := h.seen hj
    rw [lastOffset_cons_literal hb] at hseen
    by_cases ho : lastOffset c = o
    · subst ho
      rw [Function.update_self, Function.update_self]
      intro hwindow
      apply h.literal_kept hj hb
      omega
    · rw [Function.update_of_ne ho, Function.update_of_ne ho]
      apply h.literal_kept hj hb
  · intro j b d c hj hb hd hlast
    have hseen := h.seen hj
    rw [lastOffset_cons_match hb] at hseen
    by_cases ho : b.offset = o
    · subst ho
      rw [Function.update_self, Function.update_self]
      intro hwindow
      apply h.again_kept hj hb hd hlast
      omega
    · rw [Function.update_of_ne ho, Function.update_of_ne ho]
      apply h.again_kept hj hb hd hlast

/-- Literals behind the last match of an offset, up to a position. -/
def literalChain (m : Chains) (o i : ℕ) : List Block :=
  match m (.lastMatch o) with
  | [] => []
  | b :: c => ⟨b.bits + literalCost (i - b.index), i, 0⟩ :: b :: c

theorem Found.literalChain_shape
    (h : Found x m ml T) (hlo : 1 ≤ o) (hhi : o ≤ 32640) (hTo : T o = i) (hi : i < x.length)
    {b : Block} {c : List Block} (hq : literalChain m o i = b :: c) :
  Parse x (b :: c) ∧ b.offset = 0 ∧ lastOffset c = o ∧ b.index = i ∧ m (.lastMatch o) = c
  := by
  unfold literalChain at hq
  split at hq
  · cases hq
  case h_2 d c' hmatch =>
    obtain ⟨rfl, rfl⟩ := List.cons.inj hq
    obtain ⟨hoff, hindex⟩ := h.match_shape hlo hhi hmatch
    have hne : d.offset ≠ 0 := by omega
    refine ⟨?_, rfl, ?_, rfl, hmatch⟩
    · apply Parse.literals (h.parse_cons hmatch) hne
      · omega
      · exact_mod_cast hi
    · rw [lastOffset_cons_match hne, hoff]

/-- The run of an offset breaks off, and literals begin. -/
theorem Found.breakRun
    (h : Found x m ml T) (hlo : 1 ≤ o) (hhi : o ≤ 32640) (hTo : T o = i) (hi : i < x.length)
    (hbroken : ¬ MatchesAt x o i) :
  Found x (Function.update m (.lastLiteral o) (literalChain m o i)) (Function.update ml o 0)
    (Function.update T o (i + 1))
  := by
  have hliteral : ∀ o', o' ≠ o → Function.update m (.lastLiteral o) (literalChain m o i)
      (.lastLiteral o') = m (.lastLiteral o') := by
    intro o' ho
    apply Function.update_of_ne
    simpa using ho
  have hmatch : ∀ o', Function.update m (.lastLiteral o) (literalChain m o i) (.lastMatch o')
      = m (.lastMatch o') := fun _ => Function.update_of_ne (by simp) _ _
  have hoptimal : ∀ j, Function.update m (.lastLiteral o) (literalChain m o i) (.optimal j)
      = m (.optimal j) := fun _ => Function.update_of_ne (by simp) _ _
  constructor
  case parse =>
    intro s hs
    by_cases hso : s = .lastLiteral o
    · subst hso
      rw [Function.update_self] at hs ⊢
      obtain ⟨b, c, hq⟩ := List.exists_cons_of_ne_nil hs
      rw [hq]
      apply (h.literalChain_shape hlo hhi hTo hi hq).1
    · rw [Function.update_of_ne hso] at hs ⊢
      apply h.parse hs
  case optimal_index =>
    intro j b c hj
    rw [hoptimal] at hj
    apply h.optimal_index hj
  case match_shape =>
    intro o' b c hlo' hhi' hs
    rw [hmatch] at hs
    obtain ⟨hoff, hindex⟩ := h.match_shape hlo' hhi' hs
    refine ⟨hoff, ?_⟩
    by_cases ho : o' = o
    · subst ho
      rw [Function.update_self]
      omega
    · rw [Function.update_of_ne ho]
      exact hindex
  case literal_shape =>
    intro o' b c hlo' hhi' hs
    rw [hmatch]
    by_cases ho : o' = o
    · subst ho
      rw [Function.update_self] at hs
      obtain ⟨-, hoff, hlast, hindex, hc⟩ := h.literalChain_shape hlo hhi hTo hi hs
      refine ⟨hoff, hlast, ?_, ?_⟩
      · rw [Function.update_self, Function.update_self]
        omega
      · rw [hc]
        rintro rfl
        simp [lastOffset] at hlast
        omega
    · rw [hliteral o' ho] at hs
      rw [Function.update_of_ne ho, Function.update_of_ne ho]
      apply h.literal_shape hlo' hhi' hs
  case run =>
    intro o' j hlo' hhi'
    by_cases ho : o' = o
    · subst ho
      rw [Function.update_self, Function.update_self]
      omega
    · rw [Function.update_of_ne ho, Function.update_of_ne ho]
      apply h.run hlo' hhi'
  case broken =>
    intro o' j hlo' hhi'
    by_cases ho : o' = o
    · subst ho
      rw [Function.update_self, Function.update_self]
      intro hj
      obtain rfl : j = i := by omega
      exact hbroken
    · rw [Function.update_of_ne ho, Function.update_of_ne ho]
      apply h.broken hlo' hhi'
  case seen =>
    intro j b c hj
    rw [hoptimal] at hj
    have hseen := h.seen hj
    by_cases ho : lastOffset (b :: c) = o
    · subst ho
      rw [Function.update_self]
      omega
    · rw [Function.update_of_ne ho]
      exact hseen
  case literal_kept =>
    intro j b c hj hb
    rw [hoptimal] at hj
    have hseen := h.seen hj
    rw [lastOffset_cons_literal hb] at hseen
    by_cases ho : lastOffset c = o
    · subst ho
      rw [Function.update_self, Function.update_self]
      omega
    · rw [Function.update_of_ne ho, Function.update_of_ne ho, hliteral _ ho]
      apply h.literal_kept hj hb
  case again_kept =>
    intro j b d c hj hb hd hlast
    rw [hoptimal] at hj
    have hseen := h.seen hj
    rw [lastOffset_cons_match hb] at hseen
    by_cases ho : b.offset = o
    · subst ho
      rw [Function.update_self, Function.update_self]
      omega
    · rw [Function.update_of_ne ho, Function.update_of_ne ho, hliteral _ ho]
      apply h.again_kept hj hb hd hlast
  case fresh_tail =>
    intro j b d c hj hb hne
    rw [hoptimal] at hj ⊢
    apply h.fresh_tail hj hb hne

/-- A match of an offset that ends at the position just handled is put in its place. -/
theorem Found.setMatch
    (h : Found x m ml T) (hTo : T o = i + 1) {b : Block} {c : List Block}
    (hparse : Parse x (b :: c)) (hoff : b.offset = o) (hindex : b.index = i) :
  Found x (Function.update m (.lastMatch o) (b :: c)) ml T
  := by
  have hliteral : ∀ o', Function.update m (.lastMatch o) (b :: c) (.lastLiteral o')
      = m (.lastLiteral o') := fun _ => Function.update_of_ne (by simp) _ _
  have hoptimal : ∀ j, Function.update m (.lastMatch o) (b :: c) (.optimal j)
      = m (.optimal j) := fun _ => Function.update_of_ne (by simp) _ _
  constructor
  case parse =>
    intro s hs
    by_cases hso : s = .lastMatch o
    · subst hso
      rw [Function.update_self]
      exact hparse
    · rw [Function.update_of_ne hso] at hs ⊢
      apply h.parse hs
  case match_shape =>
    intro o' d c' hlo hhi hs
    by_cases ho : o' = o
    · subst ho
      rw [Function.update_self] at hs
      obtain ⟨rfl, rfl⟩ := List.cons.inj hs
      exact ⟨hoff, by omega⟩
    · rw [Function.update_of_ne (by simpa using ho)] at hs
      apply h.match_shape hlo hhi hs
  case literal_shape =>
    intro o' d c' hlo hhi hs
    rw [hliteral] at hs
    obtain ⟨hoff', hlast, hindex', hne⟩ := h.literal_shape hlo hhi hs
    refine ⟨hoff', hlast, hindex', ?_⟩
    by_cases ho : o' = o
    · subst ho
      simp
    · rw [Function.update_of_ne (by simpa using ho)]
      exact hne
  case optimal_index =>
    intro j b' c'
    rw [hoptimal]
    apply h.optimal_index
  case run => exact h.run
  case broken => exact h.broken
  case seen =>
    intro j b' c'
    rw [hoptimal]
    apply h.seen
  case literal_kept =>
    intro j b' c'
    rw [hoptimal, hliteral]
    apply h.literal_kept
  case again_kept =>
    intro j b' d' c'
    rw [hoptimal, hliteral]
    apply h.again_kept
  case fresh_tail =>
    intro j b' d' c'
    rw [hoptimal, hoptimal]
    apply h.fresh_tail

/-- A parse that ends at the position just handled with a match of an offset, or with
literals behind it, becomes the best one for the position. -/
theorem Found.setOptimal
    (h : Found x m ml T) (hTo : T o = i + 1) (hreach : ∀ j, m (.optimal j) ≠ [] → j ≤ i)
    {b : Block} {c : List Block} (hparse : Parse x (b :: c)) (hindex : b.index = i)
    (hlast : lastOffset (b :: c) = o)
    (hliteral : b.offset = 0 → m (.lastLiteral o) = b :: c)
    (hagain : ∀ {d c'}, c = d :: c' → b.offset ≠ 0 → d.offset = 0 → lastOffset (d :: c') = o →
      m (.lastLiteral o) = d :: c')
    (hfresh : ∀ {d c'}, c = d :: c' → b.offset ≠ 0 → lastOffset (d :: c') ≠ o →
      m (.optimal d.index.toNat) = d :: c') :
  Found x (Function.update m (.optimal i) (b :: c)) ml T
  := by
  have hkeepLiteral : ∀ o', Function.update m (.optimal i) (b :: c) (.lastLiteral o')
      = m (.lastLiteral o') := fun _ => Function.update_of_ne (by simp) _ _
  have hkeepMatch : ∀ o', Function.update m (.optimal i) (b :: c) (.lastMatch o')
      = m (.lastMatch o') := fun _ => Function.update_of_ne (by simp) _ _
  have hoptimal : ∀ j, j ≠ i → Function.update m (.optimal i) (b :: c) (.optimal j)
      = m (.optimal j) := by
    intro j hj
    apply Function.update_of_ne
    simpa using hj
  constructor
  case parse =>
    intro s hs
    by_cases hso : s = .optimal i
    · subst hso
      rw [Function.update_self]
      exact hparse
    · rw [Function.update_of_ne hso] at hs ⊢
      apply h.parse hs
  case optimal_index =>
    intro j d c' hj
    by_cases hji : j = i
    · subst hji
      rw [Function.update_self] at hj
      obtain ⟨rfl, rfl⟩ := List.cons.inj hj
      exact hindex
    · rw [hoptimal j hji] at hj
      apply h.optimal_index hj
  case match_shape =>
    intro o' d c'
    rw [hkeepMatch]
    apply h.match_shape
  case literal_shape =>
    intro o' d c'
    rw [hkeepLiteral, hkeepMatch]
    apply h.literal_shape
  case run => exact h.run
  case broken => exact h.broken
  case seen =>
    intro j d c' hj
    by_cases hji : j = i
    · subst hji
      rw [Function.update_self] at hj
      obtain ⟨rfl, rfl⟩ := List.cons.inj hj
      rw [hlast]
      omega
    · rw [hoptimal j hji] at hj
      apply h.seen hj
  case literal_kept =>
    intro j d c' hj hd
    rw [hkeepLiteral]
    by_cases hji : j = i
    · subst hji
      rw [Function.update_self] at hj
      obtain ⟨rfl, rfl⟩ := List.cons.inj hj
      rw [← lastOffset_cons_literal hd c, hlast]
      intro _
      apply hliteral hd
    · rw [hoptimal j hji] at hj
      apply h.literal_kept hj hd
  case again_kept =>
    intro j e d c' hj he hd hlast'
    rw [hkeepLiteral]
    by_cases hji : j = i
    · subst hji
      rw [Function.update_self] at hj
      obtain ⟨rfl, rfl⟩ := List.cons.inj hj
      rw [lastOffset_cons_match he] at hlast
      rw [hlast] at hlast' ⊢
      intro _
      apply hagain rfl he hd hlast'
    · rw [hoptimal j hji] at hj
      apply h.again_kept hj he hd hlast'
  case fresh_tail =>
    intro j e d c' hj he hne
    by_cases hji : j = i
    · subst hji
      rw [Function.update_self] at hj
      obtain ⟨rfl, rfl⟩ := List.cons.inj hj
      rw [lastOffset_cons_match he] at hlast
      have hlt := hparse.tail.2
      obtain hcase | ⟨-, -, hpos, -⟩ := hparse.match_cases he
      · exact absurd hcase.2.1 hne
      · rw [hoptimal _ (by omega)]
        rw [hlast] at hne
        apply hfresh rfl he hne
    · rw [hoptimal j hji] at hj
      have hparse' := h.parse_cons hj
      have hlt := hparse'.tail.2
      have hj' := h.optimal_index hj
      have hle := hreach j (by simp [hj])
      obtain hcase | ⟨-, -, hpos, -⟩ := hparse'.match_cases he
      · exact absurd hcase.2.1 hne
      · rw [hoptimal _ (by omega)]
        apply h.fresh_tail hj he hne

/-! ### The steps of the search -/

/-- What the steps at a position leave alone: no place is emptied, and only the best parse
for the position itself may change. -/
structure StepAt (i : ℕ) (m m' : Chains) : Prop where
  grows : ∀ s, m s ≠ [] → m' s ≠ []
  optimal_eq : ∀ j, j ≠ i → m' (.optimal j) = m (.optimal j)

theorem StepAt.refl (i : ℕ) (m : Chains) :
  StepAt i m m
  := ⟨fun _ => id, fun _ _ => rfl⟩

theorem StepAt.trans {m₁ m₂ m₃ : Chains} (h : StepAt i m₁ m₂) (h' : StepAt i m₂ m₃) :
  StepAt i m₁ m₃
  := by
  constructor
  · intro s hs
    apply h'.grows s (h.grows s hs)
  · intro j hj
    rw [h'.optimal_eq j hj, h.optimal_eq j hj]

theorem StepAt.reach
    {m' : Chains} (h : StepAt i m m') (hreach : ∀ j, m (.optimal j) ≠ [] → j ≤ i) :
  ∀ j, m' (.optimal j) ≠ [] → j ≤ i
  := by
  intro j hj
  by_cases hji : j = i
  · exact hji.le
  · rw [h.optimal_eq j hji] at hj
    apply hreach j hj

theorem StepAt.update
    (i : ℕ) (m : Chains) {s : Slot} (hs : ∀ j, s = .optimal j → j = i) {q : List Block}
    (hq : q ≠ []) :
  StepAt i m (Function.update m s q)
  := by
  constructor
  · intro s' hs'
    by_cases h : s' = s
    · subst h
      rw [Function.update_self]
      exact hq
    · rw [Function.update_of_ne h]
      exact hs'
  · intro j hj
    apply Function.update_of_ne
    intro h
    apply hj
    apply hs j h.symm

/-- An offer keeps the best parse for the position or replaces it by the one offered. -/
theorem offer_cases (m : Chains) (bits : ℤ) (src dst : Slot) :
  (offer chainStore m bits src dst = m ∧ m dst ≠ [])
    ∨ offer chainStore m bits src dst = Function.update m dst (m src)
  := by
  unfold offer
  cases hdst : m dst with
  | nil =>
      right
      simp [chainStore, hdst]
  | cons b c =>
      simp only [chainStore, hdst, List.head?_cons]
      split
      · right
        rfl
      · left
        exact ⟨rfl, by simp⟩

theorem offer_of_ne (m : Chains) (bits : ℤ) (src : Slot) {s dst : Slot} (h : s ≠ dst) :
  offer chainStore m bits src dst s = m s
  := by
  obtain ⟨heq, -⟩ | heq := offer_cases m bits src dst
  · rw [heq]
  · rw [heq, Function.update_of_ne h]

theorem offer_stepAt (m : Chains) (bits : ℤ) {s : Slot} (hs : m s ≠ []) (i : ℕ) :
  StepAt i m (offer chainStore m bits s (.optimal i))
    ∧ offer chainStore m bits s (.optimal i) (.optimal i) ≠ []
  := by
  obtain ⟨heq, hne⟩ | heq := offer_cases m bits s (.optimal i)
  · rw [heq]
    exact ⟨StepAt.refl i m, hne⟩
  · rw [heq]
    refine ⟨StepAt.update i m ?_ hs, ?_⟩
    · rintro j ⟨⟩
      rfl
    · rw [Function.update_self]
      exact hs

/-- A parse is offered for the position just handled. -/
theorem Found.afterOffer
    (h : Found x m ml T) (hTo : T o = i + 1) (hreach : ∀ j, m (.optimal j) ≠ [] → j ≤ i)
    {src : Slot} {b : Block} {c : List Block} (hsrc : m src = b :: c) (hindex : b.index = i)
    (hlast : lastOffset (b :: c) = o)
    (hliteral : b.offset = 0 → m (.lastLiteral o) = b :: c)
    (hagain : ∀ {d c'}, c = d :: c' → b.offset ≠ 0 → d.offset = 0 → lastOffset (d :: c') = o →
      m (.lastLiteral o) = d :: c')
    (hfresh : ∀ {d c'}, c = d :: c' → b.offset ≠ 0 → lastOffset (d :: c') ≠ o →
      m (.optimal d.index.toNat) = d :: c')
    (bits : ℤ) :
  Found x (offer chainStore m bits src (.optimal i)) ml T
  := by
  obtain ⟨heq, -⟩ | heq := offer_cases m bits src (.optimal i)
  · rw [heq]
    exact h
  · rw [heq, hsrc]
    apply h.setOptimal hTo hreach (h.parse_cons hsrc) hindex hlast hliteral hagain hfresh

/-- Literals are copied where the bytes differ. -/
theorem Found.afterLiterals
    (h : Found x m ml T) (hx : x.length < 2 ^ 27) (hlo : 1 ≤ o) (hhi : o ≤ 32640) (hTo : T o = i)
    (hi : i < x.length) (hreach : ∀ j, m (.optimal j) ≠ [] → j ≤ i)
    (hbroken : ¬ MatchesAt x o i) :
  Found x (copyLiterals chainStore m i o) (Function.update ml o 0) (Function.update T o (i + 1))
    ∧ StepAt i m (copyLiterals chainStore m i o)
    ∧ (m (.lastMatch o) ≠ [] → copyLiterals chainStore m i o (.optimal i) ≠ []
      ∧ copyLiterals chainStore m i o (.lastLiteral o) ≠ [])
  := by
  have hfound := h.breakRun hlo hhi hTo hi hbroken
  cases hmatch : m (.lastMatch o) with
  | nil =>
      have hnone : m (.lastLiteral o) = [] := by
        by_contra hne
        obtain ⟨b, c, hs⟩ := List.exists_cons_of_ne_nil hne
        exact (h.literal_shape hlo hhi hs).2.2.2 hmatch
      have hchain : literalChain m o i = m (.lastLiteral o) := by
        rw [literalChain, hmatch, hnone]
      have hstay : copyLiterals chainStore m i o = m := by
        simp [copyLiterals, chainStore, hmatch]
      rw [hchain, Function.update_eq_self] at hfound
      rw [hstay]
      exact ⟨hfound, StepAt.refl i m, fun hne => absurd rfl hne⟩
  | cons b c =>
      have hchain : literalChain m o i = ⟨b.bits + literalCost (i - b.index), i, 0⟩ :: b :: c := by
        rw [literalChain, hmatch]
      obtain ⟨hparse, -, hlast, -, -⟩ := h.literalChain_shape hlo hhi hTo hi hchain
      have hbits : int32 (b.bits + 1 + eliasGammaBits (i - b.index) + (i - b.index) * 8)
          = b.bits + literalCost (i - b.index) := by
        have hbounds := hparse.bits_bounds
        dsimp only [literalCost] at hbounds ⊢
        rw [int32_eq (by omega) (by omega)]
        ring
      have hcopy : copyLiterals chainStore m i o
          = offer chainStore (Function.update m (.lastLiteral o) (literalChain m o i))
            (b.bits + literalCost (i - b.index)) (.lastLiteral o) (.optimal i) := by
        simp only [copyLiterals, chainStore, hmatch, List.head?_cons, hbits, hchain]
      generalize hm' : Function.update m (.lastLiteral o) (literalChain m o i) = m' at hfound hcopy
      have hliteral : m' (.lastLiteral o) = ⟨b.bits + literalCost (i - b.index), i, 0⟩ :: b :: c := by
        rw [← hm', Function.update_self, hchain]
      have hsrc : m' (.lastLiteral o) ≠ [] := by simp [hliteral]
      have hstep : StepAt i m m' := by
        rw [← hm']
        apply StepAt.update
        · simp
        · simp [hchain]
      obtain ⟨hoffer, hcurrent⟩ := offer_stepAt m' (b.bits + literalCost (i - b.index)) hsrc i
      rw [hcopy]
      refine ⟨?_, hstep.trans hoffer, fun _ => ⟨hcurrent, hoffer.grows _ hsrc⟩⟩
      apply hfound.afterOffer (o := o) (by simp) _ hliteral rfl
      · rw [lastOffset_cons_literal rfl, hlast]
      · intro _
        exact hliteral
      · intro d c' _ hne
        exact absurd rfl hne
      · intro d c' _ hne
        exact absurd rfl hne
      · intro j hj
        apply hreach
        rwa [← hm', Function.update_of_ne (by simp)] at hj

/-- The last match of an offset after a copy from the last offset: it is at the position,
at the cost of the copy. -/
def AgainAt (m : Chains) (i o : ℕ) : Prop :=
  ∀ {b c}, m (.lastLiteral o) = b :: c →
    ∃ c', m (.lastMatch o) = ⟨b.bits + againCost (i - b.index), i, o⟩ :: c'

/-- The last offset is used again where the bytes agree. -/
theorem Found.afterAgain
    (h : Found x m ml T) (hx : x.length < 2 ^ 27) (hlo : 1 ≤ o) (hhi : o ≤ 32640)
    (hTo : T o = i + 1) (hi : i < x.length) (hreach : ∀ j, m (.optimal j) ≠ [] → j ≤ i)
    (hml : 1 ≤ ml o) :
  Found x (copyFromLastOffset chainStore m i o) ml T
    ∧ StepAt i m (copyFromLastOffset chainStore m i o)
    ∧ AgainAt (copyFromLastOffset chainStore m i o) i o
    ∧ (m (.lastLiteral o) ≠ [] → copyFromLastOffset chainStore m i o (.optimal i) ≠ [])
  := by
  cases hliteral : m (.lastLiteral o) with
  | nil =>
      have hstay : copyFromLastOffset chainStore m i o = m := by
        simp [copyFromLastOffset, chainStore, hliteral]
      rw [hstay]
      refine ⟨h, StepAt.refl i m, ?_, fun hne => absurd rfl hne⟩
      intro b c hs
      rw [hliteral] at hs
      cases hs
  | cons b c =>
      obtain ⟨hoff, hlast, hindex, -⟩ := h.literal_shape hlo hhi hliteral
      have hlast' : lastOffset (b :: c) = o := by rw [lastOffset_cons_literal hoff, hlast]
      have hparse : Parse x (⟨b.bits + againCost (i - b.index), i, o⟩ :: b :: c) := by
        have hagain := Parse.again (i := i) (h.parse_cons hliteral) hoff (by omega)
          (by exact_mod_cast hi) (by
            rw [hlast']
            intro j hj hji
            apply h.run hlo hhi
            · omega
            · omega)
        rwa [hlast'] at hagain
      have hbits : int32 (b.bits + 1 + eliasGammaBits (i - b.index))
          = b.bits + againCost (i - b.index) := by
        have hbounds := hparse.bits_bounds
        dsimp only [againCost] at hbounds ⊢
        rw [int32_eq (by omega) (by omega)]
        ring
      have hcopy : copyFromLastOffset chainStore m i o
          = offer chainStore (Function.update m (.lastMatch o)
              (⟨b.bits + againCost (i - b.index), i, o⟩ :: b :: c))
            (b.bits + againCost (i - b.index)) (.lastMatch o) (.optimal i) := by
        simp only [copyFromLastOffset, chainStore, hliteral, List.head?_cons, hbits]
      have hfound := h.setMatch hTo hparse rfl rfl
      generalize hm' : Function.update m (.lastMatch o)
        (⟨b.bits + againCost (i - b.index), i, o⟩ :: b :: c) = m' at hfound hcopy
      have hmatch : m' (.lastMatch o) = ⟨b.bits + againCost (i - b.index), i, o⟩ :: b :: c := by
        rw [← hm', Function.update_self]
      have hkeep : m' (.lastLiteral o) = b :: c := by
        rw [← hm', Function.update_of_ne (by simp), hliteral]
      have hsrc : m' (.lastMatch o) ≠ [] := by simp [hmatch]
      have hstep : StepAt i m m' := by
        rw [← hm']
        apply StepAt.update
        · simp
        · simp
      obtain ⟨hoffer, hcurrent⟩ := offer_stepAt m' (b.bits + againCost (i - b.index)) hsrc i
      rw [hcopy]
      refine ⟨?_, hstep.trans hoffer, ?_, fun _ => hcurrent⟩
      · apply hfound.afterOffer (o := o) hTo _ hmatch rfl
        · rw [lastOffset_cons_match (by dsimp only; omega)]
        · intro hzero
          dsimp only at hzero
          omega
        · rintro d c' ⟨⟩ - - -
          exact hkeep
        · rintro d c' ⟨⟩ - hne
          exact absurd hlast' hne
        · intro j hj
          apply hreach
          rwa [← hm', Function.update_of_ne (by simp)] at hj
      · intro d c' hs
        rw [offer_of_ne _ _ _ (by simp), hkeep] at hs
        obtain ⟨rfl, rfl⟩ := List.cons.inj hs
        rw [offer_of_ne _ _ _ (by simp), hmatch]
        exact ⟨_, rfl⟩

end LnxCad.Zx0
