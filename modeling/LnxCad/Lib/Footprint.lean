import LnxCad.Lib.Store
import LnxCad.Lib.Trace

/-!
# Regions of a memory

A program is confined to a region of a memory if it writes there only.  It paints the region with
a value if, besides, every cell of the region has the value afterwards.  Programs that follow each
other are confined to the union of their regions, and paint it, if they paint with one value.

A program is local to a region if it is confined to it and what it makes of a cell depends on that
cell alone.
-/

namespace Store

variable {ι κ α : Type*}

/-- Between two states of a memory only a region was written. -/
structure Within (A : Set ι) (s s' : Store ι α) : Prop where
  writes : Emits (· ∈ A) s.writes s'.writes
  cell_eq : ∀ i, i ∉ A → s'.cell i = s.cell i

namespace Within

variable {A B : Set ι} {s s' s'' : Store ι α}

theorem refl (A : Set ι) (s : Store ι α) :
  Within A s s
  := ⟨Emits.refl _ _, fun _ _ => rfl⟩

theorem trans (h : Within A s s') (h' : Within A s' s'') :
  Within A s s''
  := by
  constructor
  · exact h.writes.trans h'.writes
  · intro i hi
    rw [h'.cell_eq i hi, h.cell_eq i hi]

theorem mono (hAB : A ⊆ B) (h : Within A s s') :
  Within B s s'
  := by
  constructor
  · exact h.writes.mono (fun i hi => hAB hi)
  · intro i hi
    exact h.cell_eq i (fun hA => hi (hAB hA))

theorem write [DecidableEq ι] {i : ι} (hi : i ∈ A) (s : Store ι α) (a : α) :
  Within A s (s.write i a)
  := by
  constructor
  · exact Emits.single hi
  · intro j hj
    apply write_cell_of_ne
    rintro rfl
    exact hj hi

/-- A loop is confined to a region that its body is confined to. -/
theorem foldl {l : List κ} {f : Store ι α → κ → Store ι α} (h : ∀ k ∈ l, ∀ s, Within A s (f s k))
    (s : Store ι α) :
  Within A s (l.foldl f s)
  := by
  induction l generalizing s with
  | nil => exact refl A s
  | cons k l ih =>
      rw [List.foldl_cons]
      apply (h k (by simp) s).trans
      apply ih
      intro k' hk'
      exact h k' (by simp [hk'])

end Within

/-- Between two states of a memory exactly a region was painted. -/
structure Painted (A : Set ι) (a : α) (s s' : Store ι α) : Prop where
  within : Within A s s'
  covers : ∀ i ∈ A, s'.cell i = a

namespace Painted

variable {A B : Set ι} {a : α} {s s' s'' : Store ι α}

theorem refl (a : α) (s : Store ι α) :
  Painted ∅ a s s
  := ⟨Within.refl _ _, fun _ hi => hi.elim⟩

theorem union (h : Painted A a s s') (h' : Painted B a s' s'') :
  Painted (A ∪ B) a s s''
  := by
  constructor
  · exact (h.within.mono Set.subset_union_left).trans (h'.within.mono Set.subset_union_right)
  · intro i hi
    by_cases hB : i ∈ B
    · exact h'.covers i hB
    · rw [h'.within.cell_eq i hB]
      exact h.covers i (hi.resolve_right hB)

theorem write [DecidableEq ι] (s : Store ι α) (i : ι) (a : α) :
  Painted {i} a s (s.write i a)
  := by
  constructor
  · exact Within.write (Set.mem_singleton i) s a
  · rintro _ rfl
    apply write_cell_self

/-- A loop paints the union of what its turns paint. -/
theorem foldl {l : List κ} {f : Store ι α → κ → Store ι α} {A : κ → Set ι}
    (h : ∀ k ∈ l, ∀ s, Painted (A k) a s (f s k)) (s : Store ι α) :
  Painted {i | ∃ k ∈ l, i ∈ A k} a s (l.foldl f s)
  := by
  induction l generalizing s with
  | nil =>
      have hnone : {i | ∃ k ∈ ([] : List κ), i ∈ A k} = ∅ := by simp
      rw [hnone]
      exact refl a s
  | cons k l ih =>
      have hunion : {i | ∃ k' ∈ k :: l, i ∈ A k'} = A k ∪ {i | ∃ k' ∈ l, i ∈ A k'} := by
        ext i
        simp
      rw [List.foldl_cons, hunion]
      apply (h k (by simp) s).union
      apply ih
      intro k' hk'
      exact h k' (by simp [hk'])

end Painted

/-- A program writes a region only, and makes of each cell something that depends on that cell
alone. -/
structure Local (A : Set ι) (f : Store ι α → Store ι α) : Prop where
  within : ∀ s, Within A s (f s)
  cellwise : ∀ s s' i, s.cell i = s'.cell i → (f s).cell i = (f s').cell i

namespace Local

variable {A B : Set ι} {f g : Store ι α → Store ι α}

theorem id (A : Set ι) :
  Local A (fun s : Store ι α => s)
  := ⟨Within.refl A, fun _ _ _ h => h⟩

theorem comp (hf : Local A f) (hg : Local A g) :
  Local A (fun s => g (f s))
  := by
  constructor
  · intro s
    exact (hf.within s).trans (hg.within (f s))
  · intro s s' i h
    exact hg.cellwise _ _ i (hf.cellwise s s' i h)

theorem mono (hAB : A ⊆ B) (hf : Local A f) :
  Local B f
  := ⟨fun s => (hf.within s).mono hAB, hf.cellwise⟩

/-- One cell is changed. -/
theorem modify [DecidableEq ι] {i : ι} (hi : i ∈ A) (k : α → α) :
  Local A (fun s => s.write i (k (s.cell i)))
  := by
  constructor
  · intro s
    exact Within.write hi s _
  · intro s s' j h
    by_cases hij : j = i
    · subst hij
      rw [write_cell_self, write_cell_self, h]
    · rw [write_cell_of_ne _ hij, write_cell_of_ne _ hij, h]

theorem of_painted {a : α} (h : ∀ s, Painted A a s (f s)) :
  Local A f
  := by
  constructor
  · intro s
    exact (h s).within
  · intro s s' i heq
    by_cases hi : i ∈ A
    · rw [(h s).covers i hi, (h s').covers i hi]
    · rw [(h s).within.cell_eq i hi, (h s').within.cell_eq i hi, heq]

theorem foldl {l : List κ} {f : Store ι α → κ → Store ι α} (h : ∀ k ∈ l, Local A (f · k)) :
  Local A (fun s => l.foldl f s)
  := by
  induction l with
  | nil => exact Local.id A
  | cons k l ih => exact (h k (by simp)).comp (ih (fun k' hk' => h k' (by simp [hk'])))

/-- A loop with a state of its own, which keeps an invariant and on which the memory has no
influence. -/
theorem foldl_with {τ : Type*} {I : τ → Prop} {l : List κ} {f : Store ι α × τ → κ → Store ι α × τ}
    {g : τ → κ → τ} (hf : ∀ k ∈ l, ∀ t, I t → Local A (fun s => (f (s, t) k).1))
    (hg : ∀ k s t, (f (s, t) k).2 = g t k) (hI : ∀ k ∈ l, ∀ t, I t → I (g t k)) {t : τ}
    (ht : I t) :
  Local A (fun s => (l.foldl f (s, t)).1)
  := by
  induction l generalizing t with
  | nil => exact Local.id A
  | cons k l ih =>
      have hstep : (fun s => ((k :: l).foldl f (s, t)).1)
          = fun s => (l.foldl f ((f (s, t) k).1, g t k)).1 := by
        funext s
        rw [List.foldl_cons, ← hg k s t]
      have hrest := ih (fun k' hk' => hf k' (by simp [hk'])) (fun k' hk' => hI k' (by simp [hk']))
        (hI k (by simp) t ht)
      rw [hstep]
      exact (hf k (by simp) t ht).comp hrest

end Local

end Store
