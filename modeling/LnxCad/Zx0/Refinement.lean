import LnxCad.Lib.Loop
import LnxCad.Zx0.BestParse
import LnxCad.Zx0.Recycling

/-!
# The pool stands for the chains

The search with pointers into the pool does what the search with whole chains does: every
place points to a block from which the chain of the place can be read.
-/

namespace LnxCad.Zx0

/-! ### Searches that follow each other -/

/-- One store follows another: the places show the same blocks, and stay related under the
operations. -/
structure Follows {σ τ : Type} (S : BlockStore σ) (S' : BlockStore τ) (R : σ → τ → Prop) :
    Prop where
  peek : ∀ {m m'} (s : Slot), R m m' → S'.peek m' s = S.peek m s
  make : ∀ {m m'} (b : Block) (src : Option Slot) (dst : Slot), R m m' →
    R (S.make m b src dst) (S'.make m' b src dst) ∧ S.peek (S.make m b src dst) dst ≠ none
  share : ∀ {m m'} {src : Slot} (dst : Slot), R m m' → S.peek m src ≠ none →
    R (S.share m src dst) (S'.share m' src dst)

/-- Searches over related stores with the same variables. -/
structure SameSearch {σ τ : Type} (R : σ → τ → Prop) (w : Search σ) (w' : Search τ) : Prop where
  store : R w.store w'.store
  matchLength : w'.matchLength = w.matchLength
  bestLength : w'.bestLength = w.bestLength
  bestLengthSize : w'.bestLengthSize = w.bestLengthSize

namespace Follows

variable {σ τ : Type} {S : BlockStore σ} {S' : BlockStore τ} {R : σ → τ → Prop}
variable (h : Follows S S' R) {m : σ} {m' : τ}
include h

theorem offer (hR : R m m') (bits : ℤ) {src : Slot} (hsrc : S.peek m src ≠ none) (dst : Slot) :
  R (Zx0.offer S m bits src dst) (Zx0.offer S' m' bits src dst)
  := by
  unfold Zx0.offer
  rw [h.peek dst hR]
  split
  · split
    · apply h.share dst hR hsrc
    · exact hR
  · apply h.share dst hR hsrc

theorem optimalBits (hR : R m m') (index length : ℕ) :
  Zx0.optimalBits S' m' index length = Zx0.optimalBits S m index length
  := by
  unfold Zx0.optimalBits
  rw [h.peek _ hR]

theorem lengthBits (hR : R m m') (index length : ℕ) :
  Zx0.lengthBits S' m' index length = Zx0.lengthBits S m index length
  := by
  unfold Zx0.lengthBits
  rw [h.optimalBits hR]

theorem growBest (hR : R m m') (index k : ℕ) (bits : ℤ) (size : ℕ) (best : List ℕ) :
  Zx0.growBest S' m' index k bits size best = Zx0.growBest S m index k bits size best
  := by
  induction k generalizing bits size best with
  | zero => rfl
  | succ k ih => simp only [Zx0.growBest, h.lengthBits hR, ih]

theorem coverLength
    {w w₁ : Search σ} {w' : Search τ} (hR : SameSearch R w w') {index k : ℕ}
    (hrun : Zx0.coverLength S w index k = some w₁) :
  ∃ w₁', Zx0.coverLength S' w' index k = some w₁' ∧ SameSearch R w₁ w₁'
  := by
  unfold Zx0.coverLength at hrun ⊢
  rw [hR.bestLengthSize, hR.bestLength]
  split at hrun
  case isTrue hlt =>
    rw [if_pos hlt]
    simp only [h.lengthBits hR.store, h.growBest hR.store]
    simp only [Option.bind_eq_bind, Option.bind_eq_some_iff, Option.some.injEq] at hrun ⊢
    obtain ⟨l, hl, bits, hbits, best, hbest, rfl⟩ := hrun
    refine ⟨_, ⟨l, hl, bits, hbits, best, hbest, rfl⟩, ?_⟩
    exact ⟨hR.store, hR.matchLength, rfl, rfl⟩
  case isFalse hge =>
    cases hrun
    rw [if_neg hge]
    exact ⟨w', rfl, hR⟩

theorem copyFromLastOffset (hR : R m m') (index offset : ℕ) :
  R (Zx0.copyFromLastOffset S m index offset) (Zx0.copyFromLastOffset S' m' index offset)
  := by
  unfold Zx0.copyFromLastOffset
  rw [h.peek _ hR]
  split
  · exact hR
  · obtain ⟨hmake, hne⟩ := h.make _ _ _ hR
    apply h.offer hmake _ hne

theorem copyLiterals (hR : R m m') (index offset : ℕ) :
  R (Zx0.copyLiterals S m index offset) (Zx0.copyLiterals S' m' index offset)
  := by
  unfold Zx0.copyLiterals
  rw [h.peek _ hR]
  split
  · exact hR
  · obtain ⟨hmake, hne⟩ := h.make _ _ _ hR
    apply h.offer hmake _ hne

theorem betterMatch (hR : R m m') (index offset : ℕ) (bits : ℤ) :
  Zx0.betterMatch S' m' index offset bits = Zx0.betterMatch S m index offset bits
  := by
  unfold Zx0.betterMatch
  rw [h.peek _ hR]

theorem copyFromNewOffset
    {w w₁ : Search σ} {w' : Search τ} (hR : SameSearch R w w') {index offset : ℕ}
    (hrun : Zx0.copyFromNewOffset S w index offset = some w₁) :
  ∃ w₁', Zx0.copyFromNewOffset S' w' index offset = some w₁' ∧ SameSearch R w₁ w₁'
  := by
  unfold Zx0.copyFromNewOffset at hrun ⊢
  rw [hR.matchLength]
  split at hrun
  case isFalse hone =>
    cases hrun
    rw [if_neg hone]
    exact ⟨w', rfl, hR⟩
  case isTrue hone =>
    rw [if_pos hone]
    simp only [Option.bind_eq_bind, Option.bind_eq_some_iff] at hrun
    obtain ⟨w₂, hcover, l, hl, bits, hbits, hrun⟩ := hrun
    obtain ⟨w₂', hcover', hR₂⟩ := h.coverLength hR hcover
    simp only [hcover', Option.bind_eq_bind, Option.bind_some, hR₂.matchLength, hR₂.bestLength, hl,
      h.optimalBits hR₂.store, hbits, h.betterMatch hR₂.store]
    split at hrun
    case isFalse hworse =>
      cases hrun
      rw [if_neg hworse]
      exact ⟨w₂', rfl, hR₂⟩
    case isTrue hbetter =>
      cases hrun
      rw [if_pos hbetter]
      obtain ⟨hmake, hne⟩ := h.make _ _ _ hR₂.store
      exact ⟨_, rfl, h.offer hmake _ hne _, rfl, rfl, hR₂.bestLengthSize⟩

theorem processOffset
    {input : Bytes} {skip index : ℕ} {w w₁ : Search σ} {w' : Search τ} (offset : ℕ)
    (hR : SameSearch R w w')
    (hrun : Zx0.processOffset S input skip index w offset = some w₁) :
  ∃ w₁', Zx0.processOffset S' input skip index w' offset = some w₁' ∧ SameSearch R w₁ w₁'
  := by
  unfold Zx0.processOffset at hrun ⊢
  simp only [Option.bind_eq_bind, Option.bind_eq_some_iff] at hrun
  obtain ⟨v, hv, hrun⟩ := hrun
  rw [hv, hR.matchLength]
  simp only [Option.bind_eq_bind, Option.bind_some]
  split at hrun
  case isTrue hmatch =>
    rw [if_pos hmatch]
    apply h.copyFromNewOffset _ hrun
    exact ⟨h.copyFromLastOffset hR.store index offset, rfl, hR.bestLength, hR.bestLengthSize⟩
  case isFalse hmatch =>
    cases hrun
    rw [if_neg hmatch]
    refine ⟨_, rfl, h.copyLiterals hR.store index offset, rfl, hR.bestLength, hR.bestLengthSize⟩

theorem processIndex
    {input : Bytes} {skip limit : ℕ} {w w₁ : Search σ} {w' : Search τ} (index : ℕ)
    (hR : SameSearch R w w')
    (hrun : Zx0.processIndex S input skip limit w index = some w₁) :
  ∃ w₁', Zx0.processIndex S' input skip limit w' index = some w₁' ∧ SameSearch R w₁ w₁'
  := by
  have hstart : SameSearch R { w with bestLengthSize := 2 } { w' with bestLengthSize := 2 } :=
    ⟨hR.store, hR.matchLength, hR.bestLength, rfl⟩
  exact Loop.foldlM_simulates (fun offset hR' hrun' => h.processOffset offset hR' hrun') _ hstart hrun

/-- A search over a store that follows another comes to the same end. -/
theorem zx0Optimize
    (hR : R m m') (newMemory : ℕ → ℕ) {input : Bytes} {skip limit : ℕ} {m₁ : σ}
    (hrun : Zx0.zx0Optimize S m newMemory input skip limit = some m₁) :
  ∃ m₁', Zx0.zx0Optimize S' m' newMemory input skip limit = some m₁' ∧ R m₁ m₁'
  := by
  unfold Zx0.zx0Optimize at hrun ⊢
  simp only [Option.bind_eq_bind, Option.bind_eq_some_iff, Option.some.injEq] at hrun
  obtain ⟨w, hrun, rfl⟩ := hrun
  have hstart : SameSearch R (startSearch S m newMemory input.length skip)
      (startSearch S' m' newMemory input.length skip) :=
    ⟨(h.make _ _ _ hR).1, rfl, rfl, rfl⟩
  obtain ⟨w', hrun', hR'⟩ := Loop.foldlM_simulates
    (fun index hR' hrun' => h.processIndex index hR' hrun') _ hstart hrun
  refine ⟨w'.store, ?_, hR'.store⟩
  rw [hrun']
  rfl

end Follows

/-! ### Chains in the pool -/

/-- The chain that can be read from a pointer on, through blocks that are not pinned. -/
def Pool.Denotes (p : Pool) (pinned : Finset Addr) : Option Addr → List Block → Prop
  | none, [] => True
  | some a, b :: c => a ∉ pinned ∧ (p.cells a).block = b ∧ p.Denotes pinned (p.cells a).chain c
  | _, _ => False

/-- A chain is still denoted if the blocks it leads through are the same. -/
theorem Pool.Denotes.of_same
    {p p' : Pool} {pinned : Finset Addr} {S : Option Addr → Prop}
    (hnext : ∀ a ∉ pinned, S (some a) → S (p.cells a).chain)
    (hsame : ∀ a, S (some a) →
      (p'.cells a).block = (p.cells a).block ∧ (p'.cells a).chain = (p.cells a).chain)
    {c : List Block} {q : Option Addr} (hq : S q) (h : p.Denotes pinned q c) :
  p'.Denotes pinned q c
  := by
  induction c generalizing q with
  | nil =>
      cases q with
      | none => trivial
      | some a => exact h.elim
  | cons b c ih =>
      cases q with
      | none => exact h.elim
      | some a =>
          obtain ⟨hpinned, hblock, hrest⟩ := h
          obtain ⟨hblock', hchain'⟩ := hsame a hq
          refine ⟨hpinned, hblock'.trans hblock, ?_⟩
          rw [hchain']
          exact ih (hnext a hpinned hq) hrest

/-- A pointer denotes the same chain as long as the blocks that are pointed to stay as they
are. -/
theorem Pool.Denotes.frame
    {p p' : Pool} {slots : Slot → Option Addr} {pinned : Finset Addr}
    (hsame : ∀ l a, pointer p slots pinned l = some a →
      (p'.cells a).block = (p.cells a).block ∧ (p'.cells a).chain = (p.cells a).chain)
    {c : List Block} {q : Option Addr} (hq : ∃ l, pointer p slots pinned l = q)
    (h : p.Denotes pinned q c) :
  p'.Denotes pinned q c
  := by
  apply h.of_same (S := fun q => ∃ l, pointer p slots pinned l = q) _ _ hq
  · intro a ha _
    exact ⟨.chain a, if_neg ha⟩
  · rintro a ⟨l, hl⟩
    exact hsame l a hl

/-- The pool stands for chains: it is sound, and every place denotes its chain. -/
def Represents (pinned : Finset Addr) (m : Chains) (mem : PoolMemory) : Prop :=
  (∃ gs, Sound mem.pool mem.slots pinned gs)
    ∧ ∀ s, mem.pool.Denotes pinned (mem.slots s) (m s)

variable {pinned : Finset Addr} {m : Chains} {mem : PoolMemory}

theorem Represents.peek (h : Represents pinned m mem) (s : Slot) :
  poolStore.peek mem s = chainStore.peek m s
  := by
  have hs := h.2 s
  simp only [poolStore, chainStore]
  cases hm : m s with
  | nil =>
      rw [hm] at hs
      cases hslot : mem.slots s with
      | none => rfl
      | some a =>
          rw [hslot] at hs
          exact hs.elim
  | cons b c =>
      rw [hm] at hs
      cases hslot : mem.slots s with
      | none =>
          rw [hslot] at hs
          exact hs.elim
      | some a =>
          rw [hslot] at hs
          obtain ⟨-, rfl, -⟩ := hs
          rfl

/-- A place is given a block that is not a ghost. -/
theorem Represents.assign
    {p : Pool} {slots : Slot → Option Addr} {gs : List Addr} {a : Addr}
    (hsound : Sound p slots pinned gs) (ha : a ∉ gs) (hused : a < p.unused)
    (hslots : ∀ s, p.Denotes pinned (slots s) (m s)) {c : List Block}
    (hnew : p.Denotes pinned (some a) c) (dst : Slot) :
  Represents pinned (Function.update m dst c)
    ⟨zx0Assign p (slots dst) a, Function.update slots dst (some a)⟩
  := by
  have hcells := zx0Assign_cells p (slots dst) a
  have hkept : ∀ {q d}, p.Denotes pinned q d →
      (zx0Assign p (slots dst) a).Denotes pinned q d := by
    intro q d hd
    exact hd.of_same (S := fun _ => True) (fun _ _ _ => trivial) (fun e _ => hcells e) trivial
  refine ⟨hsound.assign ha hused dst, ?_⟩
  intro s
  by_cases hs : s = dst
  · subst hs
    simp only [Function.update_self]
    apply hkept hnew
  · simp only [Function.update_of_ne hs]
    apply hkept (hslots s)

theorem Represents.make
    (h : Represents pinned m mem) (b : Block) (src : Option Slot) (dst : Slot) :
  Represents pinned (chainStore.make m b src dst) (poolStore.make mem b src dst)
  := by
  obtain ⟨⟨gs, hsound⟩, hslots⟩ := h
  have hsource : ∀ c, src.bind mem.slots = some c → ∃ s, mem.slots s = some c := by
    intro c hc
    obtain ⟨s, -, hs⟩ := Option.bind_eq_some_iff.mp hc
    exact ⟨s, hs⟩
  have halloc := hsound.allocate b hsource
  obtain ⟨gs', hsound', hnot⟩ := halloc.sound
  have hframe : ∀ {q c}, (∃ l, pointer mem.pool mem.slots pinned l = q) →
      mem.pool.Denotes pinned q c →
      (zx0Allocate mem.pool b (src.bind mem.slots)).1.Denotes pinned q c := by
    intro q c hq hc
    apply hc.frame _ hq
    intro l a hl
    apply halloc.kept
    rintro rfl
    exact halloc.free l hl
  apply Represents.assign hsound' hnot halloc.used
  · intro s
    apply hframe ⟨.slot s, rfl⟩ (hslots s)
  · refine ⟨halloc.notPinned, halloc.block, ?_⟩
    rw [halloc.chain_eq]
    cases src with
    | none => trivial
    | some s => apply hframe ⟨.slot s, rfl⟩ (hslots s)

theorem Represents.share
    (h : Represents pinned m mem) {src : Slot} (dst : Slot) (hsrc : chainStore.peek m src ≠ none) :
  Represents pinned (chainStore.share m src dst) (poolStore.share mem src dst)
  := by
  obtain ⟨⟨gs, hsound⟩, hslots⟩ := h
  have hdenotes := hslots src
  simp only [poolStore, chainStore] at hsrc ⊢
  cases hslot : mem.slots src with
  | none =>
      rw [hslot] at hdenotes
      cases hm : m src with
      | nil => simp [hm] at hsrc
      | cons b c =>
          rw [hm] at hdenotes
          exact hdenotes.elim
  | some a =>
      rw [hslot] at hdenotes
      have hloc : pointer mem.pool mem.slots pinned (.slot src) = some a := hslot
      apply Represents.assign hsound _ (hsound.used hloc) hslots hdenotes
      intro ha
      exact hsound.pointer_ne ha _ hloc

/-- The store of pointers follows the store of chains. -/
theorem poolStore_follows (pinned : Finset Addr) :
  Follows chainStore poolStore (Represents pinned)
  := by
  refine ⟨?_, ?_, ?_⟩
  · intro m mem s h
    apply h.peek
  · intro m mem b src dst h
    refine ⟨h.make b src dst, ?_⟩
    simp [chainStore]
  · intro m mem src dst h hsrc
    apply h.share dst hsrc

end LnxCad.Zx0
