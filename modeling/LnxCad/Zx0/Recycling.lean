import LnxCad.Lib.Links
import LnxCad.Lib.RefCount
import LnxCad.Zx0.Memory
import LnxCad.Zx0.Optimize

/-!
# Recycling is safe

The counts of the blocks count the pointers to them, so that a ghost is pointed to from
nowhere and may be taken for a new block: no block that can still be reached changes.

Blocks left over from earlier runs may have been relinked by the writer.  They are pinned:
their own pointers are not counted, and each of them is counted once more, so that it
never becomes a ghost.
-/

namespace LnxCad.Zx0

open RefCount

/-! ### Changes of the pool -/

section Fields

variable (p : Pool) (a e : Addr)

theorem retain_cells :
  (p.retain a).cells e
    = { p.cells e with references := (p.cells e).references + if e = a then 1 else 0 }
  := by
  by_cases h : e = a
  · subst h
    simp [Pool.retain, Pool.modify]
  · simp [Pool.retain, Pool.modify, h]

/-- A release changes the count of the block, and its place among the ghosts if the count
reaches zero. -/
theorem release_cells :
  (p.release a).cells e = { p.cells e with
    references := (p.cells e).references - if e = a then 1 else 0
    ghostChain := if e = a ∧ (p.cells a).references = 1 then p.ghostRoot
      else (p.cells e).ghostChain }
  := by
  unfold Pool.release
  by_cases h : e = a
  · subst h
    by_cases hone : (p.cells e).references = 1
    · simp [Pool.modify, hone]
    · have hne : (p.cells e).references - 1 ≠ 0 := by omega
      simp [Pool.modify, hone, hne]
  · by_cases hone : (p.cells a).references - 1 = 0
    · simp [Pool.modify, h, hone]
    · simp [Pool.modify, h, hone]

theorem release_ghostRoot :
  (p.release a).ghostRoot = if (p.cells a).references = 1 then some a else p.ghostRoot
  := by
  unfold Pool.release
  by_cases hone : (p.cells a).references = 1
  · simp [Pool.modify, hone]
  · have hne : (p.cells a).references - 1 ≠ 0 := by omega
    simp [Pool.modify, hone, hne]

theorem release_unused :
  (p.release a).unused = p.unused
  := by
  unfold Pool.release
  dsimp only
  split
  · rfl
  · rfl

end Fields

/-! ### Ghosts -/

/-- The link of a ghost to the next one. -/
def Pool.ghostLink (p : Pool) (a : Addr) : Option Addr := (p.cells a).ghostChain

/-- The list of ghosts: distinct blocks in use, whose count is zero. -/
structure Pool.Ghosts (p : Pool) (gs : List Addr) : Prop where
  listed : Linked.Segment p.ghostLink p.ghostRoot gs none
  nodup : gs.Nodup
  references : ∀ g ∈ gs, (p.cells g).references = 0
  used : ∀ g ∈ gs, g < p.unused

variable {p : Pool} {gs : List Addr} {a : Addr}

theorem Pool.Ghosts.retain (h : p.Ghosts gs) (ha : a ∉ gs) :
  (p.retain a).Ghosts gs
  := by
  refine ⟨?_, h.nodup, ?_, h.used⟩
  · apply h.listed.congr
    intro g _
    rw [Pool.ghostLink, retain_cells]
    rfl
  · intro g hg
    have hne : g ≠ a := by
      rintro rfl
      exact ha hg
    rw [retain_cells]
    simp [hne, h.references g hg]

theorem Pool.Ghosts.modify (h : p.Ghosts gs) (ha : a ∉ gs) (f : Cell → Cell) :
  (p.modify a f).Ghosts gs
  := by
  have hkept : ∀ g ∈ gs, (p.modify a f).cells g = p.cells g := by
    intro g hg
    apply Function.update_of_ne
    rintro rfl
    exact ha hg
  refine ⟨?_, h.nodup, ?_, h.used⟩
  · apply h.listed.congr
    intro g hg
    rw [Pool.ghostLink, hkept g hg]
    rfl
  · intro g hg
    rw [hkept g hg]
    apply h.references g hg

/-- A block released may become a ghost, and no other does. -/
theorem Pool.Ghosts.release (h : p.Ghosts gs) (hone : 1 ≤ (p.cells a).references)
    (ha : a < p.unused) :
  ∃ gs', (p.release a).Ghosts gs' ∧ ∀ g ∈ gs', g ∈ gs ∨ g = a
  := by
  have hnot : a ∉ gs := by
    intro hmem
    have := h.references a hmem
    omega
  have hne : ∀ g ∈ gs, g ≠ a := by
    rintro g hg rfl
    exact hnot hg
  have hlisted : Linked.Segment (p.release a).ghostLink p.ghostRoot gs none := by
    apply h.listed.congr
    intro g hg
    rw [Pool.ghostLink, release_cells]
    simp [hne g hg, Pool.ghostLink]
  have hrefs : ∀ g ∈ gs, ((p.release a).cells g).references = 0 := by
    intro g hg
    rw [release_cells]
    simp [hne g hg, h.references g hg]
  by_cases hlast : (p.cells a).references = 1
  · refine ⟨a :: gs, ⟨?_, List.nodup_cons.mpr ⟨hnot, h.nodup⟩, ?_, ?_⟩, ?_⟩
    · rw [release_ghostRoot, if_pos hlast]
      refine ⟨rfl, ?_⟩
      have hlink : (p.release a).ghostLink a = p.ghostRoot := by
        rw [Pool.ghostLink, release_cells]
        simp [hlast]
      rw [hlink]
      exact hlisted
    · intro g hg
      obtain rfl | hg := List.mem_cons.mp hg
      · rw [release_cells]
        simp [hlast]
      · apply hrefs g hg
    · intro g hg
      rw [release_unused]
      obtain rfl | hg := List.mem_cons.mp hg
      · exact ha
      · apply h.used g hg
    · intro g hg
      exact (List.mem_cons.mp hg).symm
  · refine ⟨gs, ⟨?_, h.nodup, hrefs, ?_⟩, fun g hg => Or.inl hg⟩
    · rw [release_ghostRoot, if_neg hlast]
      exact hlisted
    · intro g hg
      rw [release_unused]
      apply h.used g hg

/-! ### Pointers and counts -/

/-- The locations of pointers: the places of the search, the blocks, and one for every
pinned block. -/
inductive Loc where
  | slot (s : Slot)
  | chain (a : Addr)
  | pin (a : Addr)
deriving DecidableEq

/-- The pointers that are counted. -/
def pointer (p : Pool) (slots : Slot → Option Addr) (pinned : Finset Addr) : Loc → Option Addr
  | .slot s => slots s
  | .chain a => if a ∈ pinned then none else (p.cells a).chain
  | .pin a => if a ∈ pinned then some a else none

/-- The pool is sound: the counts count the pointers, the ghosts are in order, and nothing
refers to memory that has not been handed out. -/
structure Sound (p : Pool) (slots : Slot → Option Addr) (pinned : Finset Addr)
    (gs : List Addr) : Prop where
  counted : Counted (pointer p slots pinned) (fun a => (p.cells a).references)
  ghosts : p.Ghosts gs
  used : ∀ {l a}, pointer p slots pinned l = some a → a < p.unused
  unused : ∀ {a}, p.unused ≤ a → (p.cells a).chain = none

variable {slots : Slot → Option Addr} {pinned : Finset Addr}

/-- Nothing points to a ghost. -/
theorem Sound.pointer_ne (h : Sound p slots pinned gs) {g : Addr} (hg : g ∈ gs) (l : Loc) :
  pointer p slots pinned l ≠ some g
  := h.counted.ne_some (h.ghosts.references g hg) l

/-- A pointer of the search is moved. -/
theorem pointer_update_slot (p : Pool) (slots : Slot → Option Addr) (pinned : Finset Addr)
    (dst : Slot) (new : Option Addr) :
  pointer p (Function.update slots dst new) pinned
    = Function.update (pointer p slots pinned) (.slot dst) new
  := by
  funext l
  cases l with
  | slot s =>
      by_cases hs : s = dst
      · subst hs
        simp [pointer]
      · simp [pointer, hs]
  | chain a => simp [pointer]
  | pin a => simp [pointer]

/-- The pointers do not change with the counts and the list of ghosts. -/
theorem pointer_congr {p p' : Pool} (h : ∀ e, (p'.cells e).chain = (p.cells e).chain)
    (slots : Slot → Option Addr) (pinned : Finset Addr) :
  pointer p' slots pinned = pointer p slots pinned
  := by
  funext l
  cases l with
  | slot s => rfl
  | chain a => simp [pointer, h a]
  | pin a => rfl

theorem zx0Assign_cells (p : Pool) (old : Option Addr) (a e : Addr) :
  ((zx0Assign p old a).cells e).block = (p.cells e).block
    ∧ ((zx0Assign p old a).cells e).chain = (p.cells e).chain
  := by
  unfold zx0Assign
  split
  · exact ⟨rfl, rfl⟩
  · cases old with
    | none => simp [retain_cells]
    | some o => simp [retain_cells, release_cells]

/-- `zx0_assign` of a block that is not a ghost keeps the pool sound. -/
theorem Sound.assign
    (h : Sound p slots pinned gs) (ha : a ∉ gs) (hused : a < p.unused) (dst : Slot) :
  ∃ gs', Sound (zx0Assign p (slots dst) a) (Function.update slots dst (some a)) pinned gs'
  := by
  by_cases hsame : slots dst = some a
  · refine ⟨gs, ?_⟩
    rw [zx0Assign, if_pos hsame, ← hsame, Function.update_eq_self]
    exact h
  · have hchain : ∀ e, ((zx0Assign p (slots dst) a).cells e).chain = (p.cells e).chain :=
      fun e => (zx0Assign_cells p (slots dst) a e).2
    have hptr : pointer (zx0Assign p (slots dst) a) (Function.update slots dst (some a)) pinned
        = Function.update (pointer p slots pinned) (.slot dst) (some a) := by
      rw [pointer_congr hchain, pointer_update_slot]
    have hunused : (zx0Assign p (slots dst) a).unused = p.unused := by
      rw [zx0Assign, if_neg hsame]
      cases slots dst with
      | none => rfl
      | some o => apply release_unused
    have hghosts : ∃ gs', (zx0Assign p (slots dst) a).Ghosts gs' := by
      rw [zx0Assign, if_neg hsame]
      have hretain := h.ghosts.retain ha
      cases hold : slots dst with
      | none => exact ⟨gs, hretain⟩
      | some o =>
          have hloc : pointer p slots pinned (.slot dst) = some o := hold
          obtain ⟨gs', hgs', -⟩ := hretain.release (a := o) (by
            have := h.counted.one_le hloc
            rw [retain_cells]
            dsimp only at this ⊢
            split
            · omega
            · omega) (h.used hloc)
          exact ⟨gs', hgs'⟩
    obtain ⟨gs', hghosts⟩ := hghosts
    refine ⟨gs', ?_, hghosts, ?_, ?_⟩
    · rw [hptr]
      apply h.counted.retarget
      intro e
      rw [zx0Assign, if_neg hsame]
      have hslot : pointer p slots pinned (.slot dst) = slots dst := rfl
      rw [hslot]
      cases hold : slots dst with
      | none => simp [retain_cells, eq_comm]
      | some o =>
          simp only [retain_cells, release_cells, Option.some.injEq, eq_comm (a := e)]
          omega
    · intro l e hl
      rw [hptr] at hl
      rw [hunused]
      by_cases hdst : l = .slot dst
      · subst hdst
        rw [Function.update_self] at hl
        cases hl
        exact hused
      · rw [Function.update_of_ne hdst] at hl
        apply h.used hl
    · intro e he
      rw [hunused] at he
      rw [hchain]
      apply h.unused he

/-! ### Allocation -/

/-- The block that is taken is not pinned, and nothing points to it; its pointer is given
up. -/
structure Taken (p q : Pool) (slots : Slot → Option Addr) (pinned : Finset Addr) (ptr : Addr)
    (gs : List Addr) : Prop where
  ghosts : q.Ghosts gs
  notMem : ptr ∉ gs
  used : ptr < q.unused
  free : ∀ l, pointer p slots pinned l ≠ some ptr
  block : ∀ e, (q.cells e).block = (p.cells e).block
  chain : ∀ e, (q.cells e).chain = (p.cells e).chain
  references : ∀ e, (q.cells e).references
    = (p.cells e).references - if (p.cells ptr).chain = some e then 1 else 0
  mono : p.unused ≤ q.unused

theorem Taken.notPinned {q : Pool} {ptr : Addr} (h : Taken p q slots pinned ptr gs) :
  ptr ∉ pinned
  := by
  intro hpinned
  apply h.free (.pin ptr)
  simp [pointer, hpinned]

theorem Taken.pointer_chain {q : Pool} {ptr : Addr} (h : Taken p q slots pinned ptr gs) :
  pointer p slots pinned (.chain ptr) = (p.cells ptr).chain
  := if_neg h.notPinned

/-- Taking a ghost. -/
theorem Sound.takeGhost
    {g : Addr} (h : Sound p slots pinned (g :: gs)) :
  ∃ gs', Taken p p.take.1 slots pinned p.take.2 gs'
  := by
  obtain ⟨hroot, hlisted⟩ := h.ghosts.listed
  obtain ⟨hnot, hnodup⟩ := List.nodup_cons.mp h.ghosts.nodup
  have hfree : ∀ l, pointer p slots pinned l ≠ some g := h.pointer_ne (by simp)
  have hchain : pointer p slots pinned (.chain g) = (p.cells g).chain := by
    apply if_neg
    intro hpinned
    apply hfree (.pin g)
    simp [pointer, hpinned]
  have hrest : Pool.Ghosts { p with ghostRoot := (p.cells g).ghostChain } gs := by
    refine ⟨?_, hnodup, ?_, ?_⟩
    · apply hlisted.congr
      intro _ _
      rfl
    · intro e he
      apply h.ghosts.references e (by simp [he])
    · intro e he
      apply h.ghosts.used e (by simp [he])
  unfold Pool.take
  rw [hroot]
  cases hg : (p.cells g).chain with
  | none =>
      refine ⟨gs, ?_⟩
      simp only [hg]
      refine ⟨hrest, hnot, h.ghosts.used g (by simp), hfree, fun _ => rfl, fun _ => rfl, ?_,
        le_refl _⟩
      intro e
      simp [hg]
  | some c =>
      rw [hg] at hchain
      obtain ⟨gs', hgs', hmem⟩ := hrest.release (a := c) (h.counted.one_le hchain)
        (h.used hchain)
      refine ⟨gs', ?_⟩
      simp only [hg]
      refine ⟨hgs', ?_, ?_, hfree, ?_, ?_, ?_, ?_⟩
      · intro hgs
        obtain hgs | rfl := hmem g hgs
        · exact hnot hgs
        · exact hfree _ hchain
      · rw [release_unused]
        apply h.ghosts.used g (by simp)
      · intro e
        rw [release_cells]
      · intro e
        rw [release_cells]
      · intro e
        rw [release_cells]
        simp [hg, eq_comm]
      · rw [release_unused]

/-- Taking new memory. -/
theorem Sound.takeUnused (h : Sound p slots pinned []) :
  ∃ gs', Taken p p.take.1 slots pinned p.take.2 gs'
  := by
  have hroot : p.ghostRoot = none := h.ghosts.listed
  unfold Pool.take
  rw [hroot]
  refine ⟨[], ⟨?_, by simp, Nat.lt_succ_self _, ?_, fun _ => rfl, fun _ => rfl, ?_, Nat.le_succ _⟩⟩
  · exact ⟨rfl, by simp, by simp, by simp⟩
  · intro l hl
    exact lt_irrefl _ (h.used hl)
  · intro e
    simp [h.unused (le_refl p.unused)]

theorem Sound.take (h : Sound p slots pinned gs) :
  ∃ gs', Taken p p.take.1 slots pinned p.take.2 gs'
  := by
  cases gs with
  | nil => apply h.takeUnused
  | cons g gs => apply h.takeGhost

/-- One more pointer to the block before, if there is one. -/
def retainTail (q : Pool) (chain : Option Addr) : Pool :=
  match chain with
  | some c => q.retain c
  | none => q

theorem Pool.Ghosts.retainTail {chain : Option Addr} (h : p.Ghosts gs)
    (hchain : ∀ c, chain = some c → c ∉ gs) :
  (Zx0.retainTail p chain).Ghosts gs
  := by
  cases chain with
  | none => exact h
  | some c => apply h.retain (hchain c rfl)

theorem retainTail_cells (q : Pool) (chain : Option Addr) (e : Addr) :
  (retainTail q chain).cells e = { q.cells e with
    references := (q.cells e).references + if chain = some e then 1 else 0 }
  := by
  cases chain with
  | none => simp [retainTail]
  | some c => simp [retainTail, retain_cells, eq_comm]

/-- The block that was taken, in its new place. -/
def placed (q : Pool) (ptr : Addr) (b : Block) (chain : Option Addr) : Pool :=
  (retainTail q chain).modify ptr (fun c => { c with block := b, chain := chain, references := 0 })

theorem zx0Allocate_eq_placed (p : Pool) (b : Block) (chain : Option Addr) :
  zx0Allocate p b chain = (placed p.take.1 p.take.2 b chain, p.take.2)
  := rfl

theorem placed_cells_self (q : Pool) (ptr : Addr) (b : Block) (chain : Option Addr) :
  (placed q ptr b chain).cells ptr = { q.cells ptr with block := b, chain := chain, references := 0 }
  := by
  simp [placed, Pool.modify, retainTail_cells]

theorem placed_cells_of_ne (q : Pool) {ptr e : Addr} (h : e ≠ ptr) (b : Block) (chain : Option Addr) :
  (placed q ptr b chain).cells e = (retainTail q chain).cells e
  := by
  simp [placed, Pool.modify, h]

theorem placed_unused (q : Pool) (ptr : Addr) (b : Block) (chain : Option Addr) :
  (placed q ptr b chain).unused = q.unused
  := by
  cases chain with
  | none => rfl
  | some c => rfl

namespace Taken

variable {q : Pool} {ptr : Addr} {chain : Option Addr}

/-- The pointer of the block taken is moved to the block before. -/
theorem pointer_placed (h : Taken p q slots pinned ptr gs) (b : Block) :
  pointer (placed q ptr b chain) slots pinned
    = Function.update (pointer p slots pinned) (.chain ptr) chain
  := by
  funext l
  cases l with
  | slot s => simp [pointer]
  | pin e => simp [pointer]
  | chain e =>
      by_cases he : e = ptr
      · subst he
        simp [pointer, h.notPinned, placed_cells_self]
      · simp [pointer, placed_cells_of_ne q he, he, retainTail_cells, h.chain]

/-- The counts, once the pointer of the block taken has been moved. -/
theorem counted (h : Taken p q slots pinned ptr gs)
    (hcounted : Counted (pointer p slots pinned) (fun a => (p.cells a).references)) :
  Counted (Function.update (pointer p slots pinned) (.chain ptr) chain)
    (fun e => ((retainTail q chain).cells e).references)
  := by
  apply hcounted.retarget
  intro e
  rw [h.pointer_chain, retainTail_cells, h.references]

/-- Nothing points to the block taken, wherever its pointer is moved. -/
theorem free_update (h : Taken p q slots pinned ptr gs)
    (hchain : ∀ c, chain = some c → ∃ s, slots s = some c) (l : Loc) :
  Function.update (pointer p slots pinned) (.chain ptr) chain l ≠ some ptr
  := by
  by_cases hl : l = .chain ptr
  · subst hl
    rw [Function.update_self]
    intro heq
    obtain ⟨s, hs⟩ := hchain ptr heq
    exact h.free (.slot s) hs
  · rw [Function.update_of_ne hl]
    apply h.free

/-- The block before is no ghost: two pointers lead to it. -/
theorem tail_notMem (h : Taken p q slots pinned ptr gs)
    (hcounted : Counted (pointer p slots pinned) (fun a => (p.cells a).references))
    (hchain : ∀ c, chain = some c → ∃ s, slots s = some c) {c : Addr} (hc : chain = some c) :
  c ∉ gs
  := by
  intro hghost
  subst hc
  obtain ⟨s, hs⟩ := hchain c rfl
  have hmoved : Counted (Function.update (pointer p slots pinned) (.chain ptr) (some c))
      (fun a => ((retainTail q (some c)).cells a).references) :=
    h.counted hcounted
  have hcard := hmoved c {.slot s, .chain ptr} (by
    intro l hl
    obtain rfl | rfl : l = .slot s ∨ l = .chain ptr := by simpa using hl
    · rw [Function.update_of_ne (by simp)]
      exact hs
    · rw [Function.update_self])
  dsimp only at hcard
  rw [Finset.card_pair (by simp), retainTail_cells] at hcard
  have hzero := h.ghosts.references c hghost
  simp [hzero] at hcard

/-- The pool is sound with the block taken in its new place. -/
theorem sound (h : Taken p q slots pinned ptr gs) {gs₀ : List Addr} (hsound : Sound p slots pinned gs₀)
    (b : Block) (hchain : ∀ c, chain = some c → ∃ s, slots s = some c) :
  Sound (placed q ptr b chain) slots pinned gs
  := by
  constructor
  case counted =>
    rw [h.pointer_placed b]
    apply (h.counted hsound.counted).of_eq_of_ne (h.free_update hchain)
    · rw [placed_cells_self]
    · intro e he
      rw [placed_cells_of_ne q he]
  case ghosts =>
    apply Pool.Ghosts.modify _ h.notMem
    apply h.ghosts.retainTail
    exact fun c hc => h.tail_notMem hsound.counted hchain hc
  case used =>
    intro l e hl
    rw [h.pointer_placed b] at hl
    rw [placed_unused]
    refine lt_of_lt_of_le ?_ h.mono
    by_cases hloc : l = .chain ptr
    · subst hloc
      rw [Function.update_self] at hl
      obtain ⟨s, hs⟩ := hchain e hl
      exact hsound.used (l := .slot s) hs
    · rw [Function.update_of_ne hloc] at hl
      exact hsound.used hl
  case unused =>
    intro e he
    rw [placed_unused] at he
    have hne : e ≠ ptr := by
      rintro rfl
      exact absurd h.used he.not_gt
    rw [placed_cells_of_ne q hne, retainTail_cells]
    dsimp only
    rw [h.chain]
    exact hsound.unused (h.mono.trans he)

end Taken

/-- The block that `zx0_allocate` hands out. -/
structure Allocated (p q : Pool) (slots : Slot → Option Addr) (pinned : Finset Addr)
    (b : Block) (chain : Option Addr) (a : Addr) : Prop where
  sound : ∃ gs, Sound q slots pinned gs ∧ a ∉ gs
  used : a < q.unused
  notPinned : a ∉ pinned
  free : ∀ l, pointer p slots pinned l ≠ some a
  block : (q.cells a).block = b
  chain_eq : (q.cells a).chain = chain
  kept : ∀ e, e ≠ a → (q.cells e).block = (p.cells e).block ∧ (q.cells e).chain = (p.cells e).chain

/-- `zx0_allocate` of a block behind one that the search points to keeps the pool sound and
changes no other block. -/
theorem Sound.allocate
    (h : Sound p slots pinned gs) (b : Block) {chain : Option Addr}
    (hchain : ∀ c, chain = some c → ∃ s, slots s = some c) :
  Allocated p (zx0Allocate p b chain).1 slots pinned b chain (zx0Allocate p b chain).2
  := by
  obtain ⟨gs', htaken⟩ := h.take
  rw [zx0Allocate_eq_placed]
  constructor
  case sound => exact ⟨gs', htaken.sound h b hchain, htaken.notMem⟩
  case used =>
    rw [placed_unused]
    exact htaken.used
  case notPinned => exact htaken.notPinned
  case free => exact htaken.free
  case block => rw [placed_cells_self]
  case chain_eq => rw [placed_cells_self]
  case kept =>
    intro e he
    rw [placed_cells_of_ne _ he, retainTail_cells]
    exact ⟨htaken.block e, htaken.chain e⟩

end LnxCad.Zx0
