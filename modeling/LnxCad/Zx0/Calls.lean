import LnxCad.Zx0.Emission

/-!
# The compressor from call to call

The pool is never given back: a call finds the blocks of the earlier calls, some of them
turned round, and the ghosts among them.  Between two calls the pool is reusable, and a
call that finds it reusable returns the stream of a parse of its input.
-/

namespace LnxCad.Zx0

open Interleave Linked RefCount

/-- The pool between two calls: it is sound, with the blocks that have been turned round
pinned, though the places of the search are gone. -/
def Pool.Reusable (p : Pool) : Prop :=
  ∃ pinned gs, Sound p (fun _ => none) pinned gs

theorem Pool.init_reusable :
  Pool.init.Reusable
  := by
  refine ⟨∅, [], ?_, ⟨rfl, by simp, by simp, by simp⟩, ?_, fun _ => rfl⟩
  · intro a S hS
    have hempty : S = ∅ := by
      apply Finset.eq_empty_of_forall_notMem
      intro l hl
      have := hS l hl
      cases l with
      | slot s => simp [pointer] at this
      | chain e => simp [pointer, Pool.init] at this
      | pin e => simp [pointer] at this
    simp [hempty, Pool.init]
  · intro l a hl
    cases l with
    | slot s => simp [pointer] at hl
    | chain e => simp [pointer, Pool.init] at hl
    | pin e => simp [pointer] at hl

section Relink

variable {p p' : Pool} {slots : Slot → Option Addr} {pinned : Finset Addr} {gs : List Addr}
variable {s : Slot} {as : List Addr}

/-- Every block of the chain of a place is pointed to from that place or from a block of
the chain. -/
theorem exists_pointer
    (hsegment : Segment p.link (slots s) as none) (hnot : ∀ e ∈ as, e ∉ pinned) {e : Addr}
    (he : e ∈ as) :
  ∃ l, pointer p slots pinned l = some e ∧ (l = .slot s ∨ ∃ d ∈ as, l = .chain d)
  := by
  cases as with
  | nil => simp at he
  | cons a as =>
      obtain rfl | he := List.mem_cons.mp he
      · exact ⟨.slot s, hsegment.1, Or.inl rfl⟩
      · obtain ⟨d, hd, hlink⟩ := hsegment.exists_prev he
        refine ⟨.chain d, ?_, Or.inr ⟨d, hd, rfl⟩⟩
        rw [pointer, if_neg (hnot d hd)]
        exact hlink

/-- The pointers that are counted for pins: those by which the blocks of a chain were
reached. -/
def countedFor (as : List Addr) (source : Addr → Loc) : Loc → Loc
  | .pin e => if e ∈ as then source e else .pin e
  | l => l

/-- The pointers of a chain that has been turned round were there before it was. -/
theorem pointer_countedFor
    (hrelinked : Relinked p p' as) {source : Addr → Loc}
    (hsource : ∀ e ∈ as, pointer p slots pinned (source e) = some e) {l : Loc} {a : Addr}
    (hl : pointer p' (fun _ => none) (pinned ∪ as.toFinset) l = some a) :
  pointer p slots pinned (countedFor as source l) = some a
  := by
  cases l with
  | slot t => simp [pointer] at hl
  | chain e =>
      simp only [pointer, Finset.mem_union, List.mem_toFinset] at hl
      split at hl
      · cases hl
      case isFalse he =>
        rw [not_or] at he
        simp only [countedFor, pointer, if_neg he.1]
        rw [← hl]
        exact (hrelinked.kept e he.2).symm
  | pin e =>
      simp only [pointer, Finset.mem_union, List.mem_toFinset] at hl
      split at hl
      case isFalse => cases hl
      case isTrue he =>
        obtain rfl : e = a := Option.some.inj hl
        by_cases hmem : e ∈ as
        · rw [countedFor, if_pos hmem]
          apply hsource e hmem
        · rw [countedFor, if_neg hmem, pointer, if_pos (he.resolve_right hmem)]

/-- No pointer is counted twice. -/
theorem countedFor_injOn
    (hrelinked : Relinked p p' as) {source : Addr → Loc}
    (hsource : ∀ e ∈ as, pointer p slots pinned (source e) = some e
      ∧ (source e = .slot s ∨ ∃ d ∈ as, source e = .chain d)) :
  Set.InjOn (countedFor as source)
    {l | pointer p' (fun _ => none) (pinned ∪ as.toFinset) l ≠ none}
  := by
  have hchain : ∀ {e d}, pointer p' (fun _ => none) (pinned ∪ as.toFinset) (.chain d) ≠ none →
      countedFor as source (.pin e) ≠ .chain d := by
    intro e d hd heq
    have hnot : d ∉ as := by
      intro hmem
      apply hd
      simp [pointer, hmem]
    rw [countedFor] at heq
    split at heq
    case isTrue he =>
      obtain hslot | ⟨d', hd', hd''⟩ := (hsource e he).2
      · rw [hslot] at heq
        cases heq
      · rw [hd''] at heq
        cases heq
        exact hnot hd'
    case isFalse => cases heq
  intro l hl k hk heq
  rw [Set.mem_ofPred_eq] at hl hk
  cases l with
  | slot t => exact absurd rfl hl
  | chain d =>
      cases k with
      | slot t => exact absurd rfl hk
      | chain d' => exact heq
      | pin e => exact absurd heq.symm (hchain hl)
  | pin e =>
      cases k with
      | slot t => exact absurd rfl hk
      | chain d => exact absurd heq (hchain hk)
      | pin e' =>
          -- a pointer to a pinned block points to that block
          have hpin : ∀ {e}, pointer p' (fun _ => none) (pinned ∪ as.toFinset) (.pin e) ≠ none →
              pointer p slots pinned (countedFor as source (.pin e)) = some e := by
            intro e he
            apply pointer_countedFor hrelinked (fun e he => (hsource e he).1)
            by_contra hne
            apply he
            simp only [pointer] at hne ⊢
            split
            case isTrue hmem => simp [hmem] at hne
            case isFalse => rfl
          have := (hpin hl).symm.trans ((congrArg _ heq).trans (hpin hk))
          rw [Option.some.inj this]

/-- Once the chain of a place has been turned round, its blocks are pinned: each of them is
counted for the pointer it was reached by. -/
theorem Sound.relink
    (h : Sound p slots pinned gs) (hsegment : Segment p.link (slots s) as none)
    (hnot : ∀ e ∈ as, e ∉ pinned) (hrelinked : Relinked p p' as) :
  Sound p' (fun _ => none) (pinned ∪ as.toFinset) gs
  := by
  have hpointers : ∀ e, ∃ l, e ∈ as →
      pointer p slots pinned l = some e ∧ (l = .slot s ∨ ∃ d ∈ as, l = .chain d) := by
    intro e
    by_cases he : e ∈ as
    · obtain ⟨l, hl⟩ := exists_pointer hsegment hnot he
      exact ⟨l, fun _ => hl⟩
    · exact ⟨.slot s, fun h => absurd h he⟩
  choose source hsource using hpointers
  have hreferences : ∀ e, (p'.cells e).references = (p.cells e).references := by
    intro e
    rw [hrelinked.cells]
  have hptr := fun l a => pointer_countedFor (l := l) (a := a) hrelinked (fun e he => (hsource e he).1)
  refine ⟨?_, ?_, ?_, ?_⟩
  · simp only [hreferences]
    apply h.counted.of_injOn (countedFor as source) (countedFor_injOn hrelinked hsource) hptr
  · refine ⟨?_, h.ghosts.nodup, ?_, ?_⟩
    · rw [hrelinked.ghostRoot]
      apply h.ghosts.listed.congr
      intro g _
      rw [Pool.ghostLink, hrelinked.cells]
      rfl
    · intro g hg
      rw [hreferences]
      apply h.ghosts.references g hg
    · rw [hrelinked.unused]
      exact h.ghosts.used
  · intro l a hl
    rw [hrelinked.unused]
    apply h.used (hptr l a hl)
  · intro e he
    rw [hrelinked.unused] at he
    have hmem : e ∉ as := by
      intro hmem
      exact absurd (h.used (hsource e hmem).1) he.not_gt
    exact (hrelinked.kept e hmem).trans (h.unused he)

end Relink

/-! ### A call -/

/-- The search on a reusable pool finds the chain of a parse of the whole string. -/
theorem zx0Optimize_denotes
    {p : Pool} (hp : p.Reusable) {x : Bytes} (hpos : x ≠ []) (hx : x.length < 2 ^ 27)
    (bestLength : ℕ → ℕ) :
  ∃ mem a b c pinned gs, zx0Optimize poolStore ⟨p, fun _ => none⟩ bestLength x 0 maxOffsetZx0 = some mem
    ∧ mem.slots (.optimal (x.length - 1)) = some a ∧ Sound mem.pool mem.slots pinned gs
    ∧ mem.pool.Denotes pinned (some a) (b :: c) ∧ Parse x (b :: c) ∧ b.index + 1 = x.length
  := by
  have hlen := List.length_pos_iff.mpr hpos
  obtain ⟨pinned, gs, hsound⟩ := hp
  obtain ⟨m, b, c, hsearch, hchain, hparse, hindex⟩ := zx0Optimize_parse bestLength hpos hx
  have hstart : Represents pinned (fun _ => []) ⟨p, fun _ => none⟩ :=
    ⟨⟨gs, hsound⟩, fun _ => trivial⟩
  obtain ⟨mem, hrun, ⟨gs', hsound'⟩, hslots⟩ :=
    (poolStore_follows pinned).zx0Optimize hstart bestLength hsearch
  have hdenotes := hslots (.optimal (x.length - 1))
  rw [hchain] at hdenotes
  cases hslot : mem.slots (.optimal (x.length - 1)) with
  | none =>
      rw [hslot] at hdenotes
      exact hdenotes.elim
  | some a =>
      rw [hslot] at hdenotes
      exact ⟨mem, a, b, c, pinned, gs', hrun, hslot, hsound', hdenotes, hparse, by omega⟩

/-- A call of the compressor on a reusable pool returns the stream of the blocks of a
string, and leaves the pool reusable. -/
theorem zx0CompressC_eq
    {p : Pool} (hp : p.Reusable) {x : Bytes} (hpos : x ≠ []) (hx : x.length < 2 ^ 27)
    (new : NewMemory) {fuel : ℕ} (hfuel : x.length + 1 < fuel) :
  ∃ bs p', Steps x false 1 (-1) bs
    ∧ zx0CompressC fuel new p x = some (0, (layout 0 (streamToks x bs)).2, p') ∧ p'.Reusable
  := by
  obtain ⟨mem, a, b, c, pinned, gs, hrun, hslot, hsound, hdenotes, hparse, hend⟩ :=
    zx0Optimize_denotes hp hpos hx new.bestLength
  obtain ⟨p', as, hcompress, hsize, hsegment, hnot, hnodup, hrelinked⟩ :=
    zx0Compress_eq hdenotes hparse hend hpos hx hfuel
  refine ⟨inOrder (b :: c), p', (hparse.blocksCost_eq hend).1, ?_, _, gs,
    hsound.relink (hslot ▸ hsegment) hnot hrelinked⟩
  have hbounds := hparse.bits_bounds
  have hlast : (mem.pool.cells a).block.bits = b.bits := by rw [hdenotes.2.1]
  simp only [zx0CompressC, if_neg hpos, hrun, Option.bind_eq_bind, Option.bind_some, hslot,
    hcompress]
  rw [if_neg (by omega)]

/-- The pools the compressor may find: that of the start of the program, and those left by
calls. -/
inductive CalledPool : Pool → Prop where
  | start : CalledPool Pool.init
  | call {p p' : Pool} {fuel : ℕ} {new : NewMemory} {x c : Bytes} {value : ℤ} :
      CalledPool p → x.length < 2 ^ 27 → x.length + 1 < fuel →
      zx0CompressC fuel new p x = some (value, c, p') → CalledPool p'

theorem CalledPool.reusable {p : Pool} (h : CalledPool p) :
  p.Reusable
  := by
  induction h with
  | start => exact Pool.init_reusable
  | @call p p' fuel new x c value h hx hfuel hcall ih =>
      by_cases hpos : x = []
      · rw [zx0CompressC, if_pos hpos] at hcall
        cases hcall
        exact ih
      · obtain ⟨bs, p'', -, hcall', hreusable⟩ := zx0CompressC_eq ih hpos hx new hfuel
        rw [hcall'] at hcall
        cases hcall
        exact hreusable

end LnxCad.Zx0
