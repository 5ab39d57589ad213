import Mathlib.Tactic

/-!
# Programs run in stages

A loop whose body is a sequence of stages: each stage is a function on states, the body
applies them in order, and a run applies the body to one input after another for as long
as the state asks to go on.  A property every stage keeps is kept by the body, also at
the points between two stages, and by every run.  A stage that is a long chain of
alternatives is a list of guarded rules, of which the first that applies is taken.
-/

variable {σ ι : Type*}

/-- Applies stages in order. -/
def runStages (stages : List (σ → σ)) (s : σ) : σ := stages.foldl (fun s f => f s) s

@[simp]
theorem runStages_nil (s : σ) :
  runStages [] s = s
  := rfl

@[simp]
theorem runStages_cons (f : σ → σ) (stages : List (σ → σ)) (s : σ) :
  runStages (f :: stages) s = runStages stages (f s)
  := rfl

theorem runStages_append (stages stages' : List (σ → σ)) (s : σ) :
  runStages (stages ++ stages') s = runStages stages' (runStages stages s)
  := List.foldl_append

/-- A property every stage keeps is kept by their sequence. -/
theorem runStages_invariant
    {P : σ → Prop} {stages : List (σ → σ)} (hstep : ∀ f ∈ stages, ∀ s, P s → P (f s))
    {s : σ} (h : P s) :
  P (runStages stages s)
  := by
  induction stages generalizing s with
  | nil => apply h
  | cons f stages ih =>
      apply ih
      · intro f' hf'
        apply hstep f' (by simp [hf'])
      · apply hstep f (by simp) s h

/-- A property as a relation: it is carried from the first state to the second. -/
def Carries (P : σ → Prop) (s s' : σ) : Prop := P s → P s'

instance Carries.isPreorder (P : σ → Prop) : IsPreorder σ (Carries P) where
  refl _ h := h
  trans _ _ _ h h' hs := h' (h hs)

/-- A reflexive and transitive relation that every stage follows is followed by their sequence. -/
theorem runStages_rel
    {R : σ → σ → Prop} [IsPreorder σ R] {stages : List (σ → σ)}
    (hstep : ∀ f ∈ stages, ∀ s, R s (f s)) (s : σ) :
  R s (runStages stages s)
  := by
  apply runStages_invariant (P := R s)
  · intro f hf s' hs'
    apply trans_of R hs' (hstep f hf s')
  · apply refl_of R

/-- A stage that also keeps a record of what it does. -/
def tracked {τ : Type*} (p : (σ → σ) × (σ → τ → τ)) (x : σ × τ) : σ × τ := (p.1 x.1, p.2 x.1 x.2)

theorem runStages_tracked_fst {τ : Type*} (ps : List ((σ → σ) × (σ → τ → τ))) (x : σ × τ) :
  (runStages (ps.map tracked) x).1 = runStages (ps.map Prod.fst) x.1
  := by
  induction ps generalizing x with
  | nil => rfl
  | cons p ps ih => apply ih

/-- A run: applies a step to one input after another while the state asks to go on. -/
def runWhile (continues : σ → Bool) (step : ι → σ → σ) : List ι → σ → σ
  | [], s => s
  | i :: is, s => if continues s then runWhile continues step is (step i s) else s

/-- A property the step keeps is kept by every run. -/
theorem runWhile_invariant
    {continues : σ → Bool} {step : ι → σ → σ} {P : σ → Prop}
    (hstep : ∀ i s, continues s → P s → P (step i s)) (is : List ι) {s : σ} (h : P s) :
  P (runWhile continues step is s)
  := by
  induction is generalizing s with
  | nil => apply h
  | cons i is ih =>
      unfold runWhile
      split
      case isTrue hc => apply ih (hstep i s hc h)
      case isFalse => apply h

/-- Every step a run takes meets a condition on its input and the state before it. -/
def RunMeets (continues : σ → Bool) (step : ι → σ → σ) (C : ι → σ → Prop) : List ι → σ → Prop
  | [], _ => True
  | i :: is, s => continues s → C i s ∧ RunMeets continues step C is (step i s)

instance RunMeets.decidable
    {continues : σ → Bool} {step : ι → σ → σ} {C : ι → σ → Prop} [∀ i s, Decidable (C i s)] :
    ∀ is s, Decidable (RunMeets continues step C is s)
  | [], _ => .isTrue trivial
  | i :: is, s =>
      have : Decidable (RunMeets continues step C is (step i s)) := RunMeets.decidable is (step i s)
      inferInstanceAs
        (Decidable (continues s → C i s ∧ RunMeets continues step C is (step i s)))

/-- A property that steps keep under a condition is kept by every run whose steps meet the
condition. -/
theorem runWhile_invariant_of_meets
    {continues : σ → Bool} {step : ι → σ → σ} {C : ι → σ → Prop} {P : σ → Prop}
    (hstep : ∀ i s, continues s → C i s → P s → P (step i s)) {is : List ι} {s : σ}
    (hmeets : RunMeets continues step C is s) (h : P s) :
  P (runWhile continues step is s)
  := by
  induction is generalizing s with
  | nil => apply h
  | cons i is ih =>
      unfold runWhile
      split
      case isTrue hc =>
        obtain ⟨hi, hrest⟩ := hmeets hc
        apply ih hrest (hstep i s hc hi h)
      case isFalse => apply h

/-- Two conditions that agree on states that satisfy an invariant are met by the same runs, if the
condition keeps the invariant. -/
theorem runMeets_congr
    {continues : σ → Bool} {step : ι → σ → σ} {C C' : ι → σ → Prop} {P : σ → Prop}
    (hP : ∀ i s, P s → C i s → P (step i s)) (hC : ∀ i s, P s → (C i s ↔ C' i s)) (is : List ι)
    {s : σ} (h : P s) :
  RunMeets continues step C is s ↔ RunMeets continues step C' is s
  := by
  induction is generalizing s with
  | nil => exact Iff.rfl
  | cons i is ih =>
      unfold RunMeets
      refine forall_congr' fun _ => ?_
      rw [← hC i s h]
      exact and_congr_right fun hi => ih (hP i s h hi)

/-- Two runs step alike on a view of their states, and their conditions agree on states that
satisfy an invariant. -/
theorem runMeets_iff_of_simulates
    {ω : Type*} {continues : σ → Bool} {step : ι → σ → σ} {C : ι → σ → Prop}
    {step' : ι → ω → ω} {C' : ι → ω → Prop} {v : ω → σ} {P : ω → Prop}
    (hstep : ∀ i x, v (step' i x) = step i (v x)) (hP : ∀ i x, P x → P (step' i x))
    (hC : ∀ i x, P x → (C i (v x) ↔ C' i x)) (is : List ι) {x : ω} (h : P x) :
  RunMeets continues step C is (v x)
    ↔ RunMeets (fun x => continues (v x)) step' C' is x
  := by
  induction is generalizing x with
  | nil => exact Iff.rfl
  | cons i is ih =>
      unfold RunMeets
      rw [← hstep, ih (hP i x h), hC i x h]

/-- A judgement that no step takes back, and that a step upholds exactly if it meets a
condition, is upheld by a run exactly if all its steps meet the condition. -/
theorem runWhile_iff_meets
    {continues : σ → Bool} {step : ι → σ → σ} {C : ι → σ → Prop} {P good : σ → Prop}
    (hmono : ∀ i s, good (step i s) → good s)
    (hgood : ∀ i s, continues s → P s → (good (step i s) ↔ good s ∧ C i s))
    (hP : ∀ i s, continues s → C i s → P s → P (step i s)) (is : List ι) {s : σ} (h : P s) :
  good (runWhile continues step is s) ↔ good s ∧ RunMeets continues step C is s
  := by
  have hback : ∀ (is : List ι) s, good (runWhile continues step is s) → good s := by
    intro is
    induction is with
    | nil => exact fun s hs => hs
    | cons i is ih =>
        intro s hs
        unfold runWhile at hs
        split at hs
        · apply hmono i s (ih _ hs)
        · exact hs
  induction is generalizing s with
  | nil => simp [runWhile, RunMeets]
  | cons i is ih =>
      unfold runWhile RunMeets
      split
      case isTrue hc =>
        constructor
        · intro hrun
          obtain ⟨hs, hi⟩ := (hgood i s hc h).mp (hback is _ hrun)
          have hrest := (ih (hP i s hc hi h)).mp hrun
          exact ⟨hs, fun _ => ⟨hi, hrest.2⟩⟩
        · rintro ⟨hs, hmeets⟩
          obtain ⟨hi, hrest⟩ := hmeets hc
          apply (ih (hP i s hc hi h)).mpr ⟨(hgood i s hc h).mpr ⟨hs, hi⟩, hrest⟩
      case isFalse hc => simp [hc]

/-- The inputs a run takes before the state asks to stop. -/
def taken (continues : σ → Bool) (step : ι → σ → σ) : List ι → σ → List ι
  | [], _ => []
  | i :: is, s => if continues s then i :: taken continues step is (step i s) else []

/-- Where each step acts on a view of the state as a step of its own, a run acts on the view
as a run of these steps. -/
theorem runWhile_simulates
    {ω : Type*} {continues : σ → Bool} {step : ι → σ → σ} {v : σ → ω} {step' : ω → ι → ω}
    (hstep : ∀ i s, v (step i s) = step' (v s) i) (is : List ι) (s : σ) :
  v (runWhile continues step is s) = (taken continues step is s).foldl step' (v s)
  := by
  induction is generalizing s with
  | nil => rfl
  | cons i is ih =>
      unfold runWhile taken
      split
      · rw [ih, hstep]
        rfl
      · rfl

/-- The outcome of the first rule whose guard holds, or a default. -/
def firstRule : List (Bool × σ) → σ → σ
  | [], s => s
  | (guard, s') :: rules, s => if guard then s' else firstRule rules s

/-- What holds of every rule that applies and of the default holds of the outcome. -/
theorem firstRule_cases
    {P : σ → Prop} {rules : List (Bool × σ)} {s : σ}
    (hrules : ∀ r ∈ rules, r.1 = true → P r.2) (hdefault : P s) :
  P (firstRule rules s)
  := by
  induction rules with
  | nil => apply hdefault
  | cons r rules ih =>
      unfold firstRule
      split
      case isTrue hr => apply hrules r (by simp) hr
      case isFalse =>
        apply ih
        intro r' hr'
        apply hrules r' (by simp [hr'])
