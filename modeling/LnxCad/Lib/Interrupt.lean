import Mathlib.Tactic

/-!
# Programs that may be interrupted

A program over states of type `σ` is a sequence of steps.  Run from a state, it passes
through the states before each of its steps, returns a value and ends in a state.  An
interrupt may arrive in any of these states; what a handler needs to know of them is the
interrupt condition of a specification, beside its pre- and postcondition.
-/

/-- A program: from a state, the states before each step, the value returned and the state
at the end. -/
def Prog (σ α : Type) := σ → List σ × α × σ

namespace Prog

variable {σ α β : Type}

/-- The states in which an interrupt may arrive. -/
def visited (m : Prog σ α) (s : σ) : List σ := (m s).1

/-- The value returned. -/
def result (m : Prog σ α) (s : σ) : α := (m s).2.1

/-- The state at the end. -/
def final (m : Prog σ α) (s : σ) : σ := (m s).2.2

/-- A single step. -/
def step (f : σ → α × σ) : Prog σ α := fun s => ([s], f s)

/-- The step that reads from the state. -/
def read (f : σ → α) : Prog σ α := step fun s => (f s, s)

/-- The step that changes the state. -/
def modify (f : σ → σ) : Prog σ Unit := step fun s => ((), f s)

instance : Monad (Prog σ) where
  pure a := fun s => ([], a, s)
  bind m f := fun s =>
    ((m s).1 ++ (f (m s).2.1 (m s).2.2).1, (f (m s).2.1 (m s).2.2).2)

/-- A program for each element of a list, in order. -/
def forEach (f : β → Prog σ Unit) : List β → Prog σ Unit
  | [] => pure ()
  | b :: bs => do
      f b
      forEach f bs

theorem visited_bind (m : Prog σ α) (f : α → Prog σ β) (s : σ) :
  (m >>= f).visited s = m.visited s ++ (f (m.result s)).visited (m.final s)
  := rfl

theorem result_bind (m : Prog σ α) (f : α → Prog σ β) (s : σ) :
  (m >>= f).result s = (f (m.result s)).result (m.final s)
  := rfl

theorem final_bind (m : Prog σ α) (f : α → Prog σ β) (s : σ) :
  (m >>= f).final s = (f (m.result s)).final (m.final s)
  := rfl

/-! ### Specifications -/

/-- From a state that satisfies `pre`, the program passes through states that satisfy
`during`, and ends in a state that satisfies `post`. -/
def Spec (pre : σ → Prop) (m : Prog σ α) (post : α → σ → Prop) (during : σ → Prop) : Prop :=
  ∀ s, pre s → (∀ t ∈ m.visited s, during t) ∧ post (m.result s) (m.final s)

namespace Spec

variable {pre pre' during during' : σ → Prop} {m : Prog σ α} {post post' : α → σ → Prop}

theorem strengthen {p : σ → Prop} (h : Spec p m post during) (hpre : ∀ s, pre s → p s) :
  Spec pre m post during
  := by
  intro s hs
  apply h s (hpre s hs)

theorem weaken {q : α → σ → Prop} (h : Spec pre m q during) (hpost : ∀ a s, q a s → post a s) :
  Spec pre m post during
  := by
  intro s hs
  obtain ⟨hvisited, hfinal⟩ := h s hs
  exact ⟨hvisited, hpost _ _ hfinal⟩

theorem pure {a : α} (h : ∀ s, pre s → post a s) :
  Spec pre (Pure.pure a : Prog σ α) post during
  := by
  intro s hs
  constructor
  · intro t ht
    cases ht
  · apply h s hs

theorem step {f : σ → α × σ} (hduring : ∀ s, pre s → during s)
    (hpost : ∀ s, pre s → post (f s).1 (f s).2) :
  Spec pre (Prog.step f) post during
  := by
  intro s hs
  constructor
  · intro t ht
    rw [List.mem_singleton.mp ht]
    apply hduring s hs
  · apply hpost s hs

theorem bind {q : α → σ → Prop} {f : α → Prog σ β} {post : β → σ → Prop}
    (hm : Spec pre m q during) (hf : ∀ a, Spec (q a) (f a) post during) :
  Spec pre (m >>= f) post during
  := by
  intro s hs
  obtain ⟨hvisited, hmid⟩ := hm s hs
  obtain ⟨hvisited', hpost⟩ := hf _ _ hmid
  constructor
  · intro t ht
    rw [visited_bind] at ht
    obtain ht | ht := List.mem_append.mp ht
    · apply hvisited t ht
    · apply hvisited' t ht
  · apply hpost

/-- Two cases of the precondition. -/
theorem or (h : Spec pre m post during) (h' : Spec pre' m post during) :
  Spec (fun s => pre s ∨ pre' s) m post during
  := by
  intro s hs
  obtain hs | hs := hs
  · apply h s hs
  · apply h' s hs

/-- A loop goes through a family of assertions, indexed by the elements still to come. -/
theorem forEach_rest {f : β → Prog σ Unit} {I : List β → σ → Prop} {bs : List β}
    (h : ∀ b rest, b :: rest <:+ bs → Spec (I (b :: rest)) (f b) (fun _ => I rest) during) :
  Spec (I bs) (Prog.forEach f bs) (fun _ => I []) during
  := by
  induction bs with
  | nil =>
      apply Spec.pure
      intro s hs
      apply hs
  | cons b bs ih =>
      unfold Prog.forEach
      apply Spec.bind (h b bs (List.suffix_refl _))
      intro _
      apply ih
      intro b' rest hrest
      apply h b' rest (hrest.trans (List.suffix_cons b bs))

/-- A loop keeps an invariant its body keeps. -/
theorem forEach {f : β → Prog σ Unit} {bs : List β}
    (h : ∀ b ∈ bs, Spec pre (f b) (fun _ => pre) during) :
  Spec pre (Prog.forEach f bs) (fun _ => pre) during
  := by
  apply forEach_rest (I := fun _ => pre)
  intro b rest hrest
  apply h b (hrest.subset (by simp))

end Spec

/-! ### Programs that leave a part of the state alone -/

/-- Nothing the program does changes the given view of the state. -/
def Inert {ω : Type} (view : σ → ω) (m : Prog σ α) : Prop :=
  ∀ P : ω → Prop, Spec (fun s => P (view s)) m (fun _ s => P (view s)) (fun s => P (view s))

namespace Inert

variable {ω : Type} {view : σ → ω} {m : Prog σ α}

theorem pure (a : α) :
  Inert view (Pure.pure a : Prog σ α)
  := by
  intro P
  apply Spec.pure
  intro s hs
  apply hs

theorem step {f : σ → α × σ} (h : ∀ s, view (f s).2 = view s) :
  Inert view (Prog.step f)
  := by
  intro P
  apply Spec.step
  · intro s hs
    apply hs
  · intro s hs
    rw [h]
    apply hs

theorem bind {f : α → Prog σ β} (hm : Inert view m) (hf : ∀ a, Inert view (f a)) :
  Inert view (m >>= f)
  := by
  intro P
  apply Spec.bind (hm P)
  intro a
  apply hf a P

/-- What is known of the view before is known afterwards, and meanwhile. -/
theorem keeps {P : ω → Prop} {during : σ → Prop} (h : Inert view m)
    (hduring : ∀ s, P (view s) → during s) :
  Spec (fun s => P (view s)) m (fun _ s => P (view s)) during
  := by
  intro s hs
  obtain ⟨hvisited, hfinal⟩ := h P s hs
  constructor
  · intro t ht
    apply hduring t (hvisited t ht)
  · apply hfinal

theorem forEach {f : β → Prog σ Unit} {bs : List β} (h : ∀ b ∈ bs, Inert view (f b)) :
  Inert view (Prog.forEach f bs)
  := by
  intro P
  apply Spec.forEach
  intro b hb
  apply h b hb P

/-- What is known of the view can be added to a specification. -/
theorem frame {pre during : σ → Prop} {post : α → σ → Prop} (hm : Inert view m)
    (h : Spec pre m post during) (R : ω → Prop) :
  Spec (fun s => pre s ∧ R (view s)) m (fun a s => post a s ∧ R (view s)) during
  := by
  intro s hs
  obtain ⟨hvisited, hfinal⟩ := h s hs.1
  obtain ⟨-, hview⟩ := hm R s hs.2
  exact ⟨hvisited, hfinal, hview⟩

end Inert

end Prog
