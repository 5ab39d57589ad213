import LnxCad.Vt.Inert
import LnxCad.Vt.Traced

/-!
# What the fields account for

The journal and the record of the card say what is held: a descriptor that is not negative,
a handle or framebuffer that is not zero, a buffer that is neither null nor `MAP_FAILED`.
The fields are the places of the owner, and they account for the log when what they say is
held is held, and nothing else except what the kernel named by zero: that the fields cannot
tell from nothing.

Both mappings are unmapped with the length `drm.size` has in the end.  How lengths are
measured is left open here: seen through a function that takes both sizes to the same
value they agree.
-/

namespace LnxCad

namespace Vt

open Prog Custody

namespace Resource

/-- The name that stands for nothing. -/
def IsNull : Resource → Prop
  | descriptor _ _ => False
  | dumb handle => handle = 0
  | framebuffer id => id = 0
  | mapping address _ => address = 0

instance : DecidablePred IsNull
  | descriptor _ _ => inferInstanceAs (Decidable False)
  | dumb handle => inferInstanceAs (Decidable (handle = 0))
  | framebuffer id => inferInstanceAs (Decidable (id = 0))
  | mapping address _ => inferInstanceAs (Decidable (address = 0))

/-- A resource, its length seen through a measure. -/
def measured (μ : ℤ → ℤ) : Resource → Resource
  | mapping address length => mapping address (μ length)
  | r => r

theorem isNull_measured {μ : ℤ → ℤ} {r : Resource} :
  (r.measured μ).IsNull ↔ r.IsNull
  := by
  cases r with
  | descriptor f fd => exact Iff.rfl
  | dumb handle => exact Iff.rfl
  | framebuffer id => exact Iff.rfl
  | mapping address length => exact Iff.rfl

end Resource

/-- A log, lengths seen through a measure. -/
def measuredLog (μ : ℤ → ℤ) (log : List (Deal Resource)) : List (Deal Resource) :=
  log.map (Deal.map (Resource.measured μ))

/-- The kernel named nothing by zero. -/
def NonNull (log : List (Deal Resource)) : Prop := ∀ r ∈ acquired log, ¬ r.IsNull

instance (log : List (Deal Resource)) : Decidable (NonNull log) :=
  inferInstanceAs (Decidable (∀ r ∈ acquired log, ¬ r.IsNull))

/-! ### Fields and places -/

/-- The fields, and whether the kernel named nothing by zero so far. -/
structure Fields where
  fd : Fd → ℤ
  handle : Fin 2 → ℤ
  fbId : Fin 2 → ℤ
  buffer : Fin 2 → ℤ
  size : ℤ
  doubleBuffered : Bool
  vtRestored : Bool
  nonNull : Prop

/-- The fields in a state. -/
def fields (s : Sys) (w : Record) : Fields where
  fd f := f.value s
  handle i := s.drm.handle i
  fbId i := s.drm.fbId i
  buffer i := s.drm.buffer i
  size := w.size
  doubleBuffered := s.drm.doubleBuffered
  vtRestored := s.core.vtRestored
  nonNull := NonNull w.log

/-- The fields, with other knowledge of the names. -/
def Fields.known (v : Fields) (P : Prop) : Fields := { v with nonNull := P }

/-- Where a resource is kept. -/
inductive Place where
  | fd (f : Fd)
  | buffer (i : Fin 2)
  | framebuffer (i : Fin 2)
  | dumb (i : Fin 2)
deriving DecidableEq

instance : Fintype Place where
  elems := {.fd .tty, .fd .rescueTty, .fd .drm} ∪ Finset.univ.image .buffer
    ∪ Finset.univ.image .framebuffer ∪ Finset.univ.image .dumb
  complete := by
    intro p
    cases p with
    | fd f => cases f <;> simp
    | buffer i => simp
    | framebuffer i => simp
    | dumb i => simp

section Accounts

variable (μ : ℤ → ℤ)

/-- What a place says is held. -/
def content (v : Fields) : Place → Multiset Resource
  | .fd f => if 0 ≤ v.fd f then {.descriptor f (v.fd f)} else 0
  | .buffer i =>
      if v.buffer i ≠ 0 ∧ v.buffer i ≠ -1 then {.mapping (v.buffer i) (μ v.size)} else 0
  | .framebuffer i => if v.fbId i ≠ 0 then {.framebuffer (v.fbId i)} else 0
  | .dumb i => if v.handle i ≠ 0 then {.dumb (v.handle i)} else 0

/-- What the fields say is held. -/
def owned (v : Fields) : Multiset Resource := ∑ p, content μ v p

/-- What a log leaves held, apart from what was named by zero. -/
def Outstanding (M : Multiset Resource) (log : List (Deal Resource)) : Prop :=
  ∃ lost : Multiset Resource, (∀ r ∈ lost, r.IsNull) ∧ held (measuredLog μ log) = some (M + lost)

/-- The fields account for the log. -/
def Accounts (v : Fields) (log : List (Deal Resource)) : Prop := Outstanding μ (owned μ v) log

/-- The fields account for the log, and more is known of them. -/
def Books (F : Fields → Prop) (t : Sys × Record) : Prop :=
  Accounts μ (fields t.1 t.2) t.2.log ∧ F (fields t.1 t.2)

/-- What a program with a record makes of the fields. -/
abbrev Keeps {α : Type} (F : Fields → Prop) (m : Traced.Cmd α) (H : α → Fields → Prop) : Prop :=
  Spec (Books μ F) m (fun a => Books μ (H a)) fun _ => True

end Accounts

theorem measuredLog_append (μ : ℤ → ℤ) (log log' : List (Deal Resource)) :
  measuredLog μ (log ++ log') = measuredLog μ log ++ measuredLog μ log'
  := List.map_append

theorem acquired_measuredLog (μ : ℤ → ℤ) (log : List (Deal Resource)) :
  acquired (measuredLog μ log) = (acquired log).map (Resource.measured μ)
  := by
  induction log with
  | nil => rfl
  | cons deal log ih =>
      cases deal with
      | acquire r =>
          rw [acquired, Multiset.map_cons, ← ih]
          rfl
      | use r => apply ih
      | release r => apply ih

theorem released_measuredLog (μ : ℤ → ℤ) (log : List (Deal Resource)) :
  released (measuredLog μ log) = (released log).map (Resource.measured μ)
  := by
  induction log with
  | nil => rfl
  | cons deal log ih =>
      cases deal with
      | acquire r => apply ih
      | use r => apply ih
      | release r =>
          rw [released, Multiset.map_cons, ← ih]
          rfl

theorem nonNull_append (log log' : List (Deal Resource)) :
  NonNull (log ++ log') ↔ NonNull log ∧ NonNull log'
  := by
  simp only [NonNull, acquired_append, Multiset.mem_add]
  constructor
  · intro h
    exact ⟨fun r hr => h r (Or.inl hr), fun r hr => h r (Or.inr hr)⟩
  · rintro ⟨h, h'⟩ r (hr | hr)
    · apply h r hr
    · apply h' r hr

/-! ### Steps that keep the books -/

section Steps

variable {α β : Type} {μ : ℤ → ℤ} {F H : Fields → Prop}

/-- A step of the program itself that writes no field. -/
theorem lift_keeps {m : Cmd α} (h : Inert fields m) :
  Keeps μ F (lift m) fun _ => F
  := by
  apply (Inert.lift h).keeps (P := fun p => Accounts μ (p.1 p.2) p.2.log ∧ F (p.1 p.2))
  intro _ _
  trivial

/-- Calls that concern what is held in one place, and the write of its field. -/
theorem commit_keeps
    {deals : Sys × Record → List (Deal Resource)} {D : Fields → List (Deal Resource)}
    {g : Sys → Sys} {G : Fields → Fields} (p : Place)
    (hdeals : ∀ s w, deals (s, w) = D (fields s w)) (hg : ∀ s w, fields (g s) w = G (fields s w))
    (hG : ∀ v P, G (v.known P) = (G v).known P)
    (hothers : ∀ v, F v → ∀ q, q ≠ p → content μ (G v) q = content μ v q)
    (hplace : ∀ v, F v → ∃ lost : Multiset Resource, (∀ r ∈ lost, r.IsNull)
      ∧ heldFrom (content μ v p) (measuredLog μ (D v)) = some (content μ (G v) p + lost))
    (hF : ∀ v, F v → H ((G v).known (v.nonNull ∧ NonNull (D v)))) :
  Keeps μ F (Traced.commit deals (Prog.modify g)) fun _ => H
  := by
  rintro ⟨s, w⟩ ⟨⟨lost, hlost, hheld⟩, hs⟩
  have hfields : fields (g s) { w with log := w.log ++ deals (s, w) }
      = (G (fields s w)).known ((fields s w).nonNull ∧ NonNull (D (fields s w))) := by
    rw [hg, hdeals, ← hG]
    congr 1
    simp only [fields, Fields.known, nonNull_append]
  have howned : owned μ (fields (g s) { w with log := w.log ++ deals (s, w) })
      = owned μ (G (fields s w)) := by
    rw [hfields]
    rfl
  obtain ⟨lost', hlost', hcontent⟩ := hplace _ hs
  have hplaces := heldFrom_place p (hothers _ hs) hcontent
  have hbooks : Books μ H (g s, { w with log := w.log ++ deals (s, w) }) := by
    refine ⟨⟨lost' + lost, ?_, ?_⟩, ?_⟩
    · intro r hr
      obtain hr | hr := Multiset.mem_add.mp hr
      · apply hlost' r hr
      · apply hlost r hr
    · rw [howned, measuredLog_append, held, heldFrom_append, ← held, hheld, hdeals, ← add_assoc]
      apply heldFrom_frame lost hplaces
    · rw [hfields]
      apply hF _ hs
  exact ⟨fun _ _ => trivial, hbooks⟩

theorem known_of_nonNull {v v' : Fields} {deals : List (Deal Resource)}
    (hv : v'.nonNull = v.nonNull) (h : NonNull deals) :
  v'.known (v.nonNull ∧ NonNull deals) = v'
  := by
  have heq : (v.nonNull ∧ NonNull deals) = v'.nonNull := by simp [h, hv]
  rw [heq]
  rfl

/-- A release of what a place holds, if it holds something. -/
theorem release_keeps
    {deals : Sys × Record → List (Deal Resource)} {r : Fields → Resource} {b : Prop} [Decidable b]
    {g : Sys → Sys} {G : Fields → Fields} (p : Place)
    (hdeals : ∀ s w, deals (s, w) = if b then [.release (r (fields s w))] else [])
    (hg : ∀ s w, fields (g s) w = G (fields s w)) (hG : ∀ v P, G (v.known P) = (G v).known P)
    (hothers : ∀ v, F v → ∀ q, q ≠ p → content μ (G v) q = content μ v q)
    (hheld : ∀ v, F v → content μ v p = if b then {(r v).measured μ} else 0)
    (hempty : ∀ v, F v → content μ (G v) p = 0)
    (hnonNull : ∀ v, (G v).nonNull = v.nonNull) (hF : ∀ v, F v → H (G v)) :
  Keeps μ F (Traced.commit deals (Prog.modify g)) fun _ => H
  := by
  apply commit_keeps p (D := fun v => if b then [.release (r v)] else []) hdeals hg hG hothers
  · intro v hv
    refine ⟨0, by simp, ?_⟩
    rw [hheld v hv, hempty v hv]
    split
    · simp [measuredLog, heldFrom, Deal.map, Deal.perform]
    · rfl
  · intro v hv
    rw [known_of_nonNull (hnonNull v)]
    · apply hF v hv
    · split
      · simp [NonNull, acquired]
      · simp [NonNull, acquired]

/-- An acquisition into an empty place, if there is one; a name that stands for nothing is
lost. -/
theorem acquire_keeps
    {deals : Sys × Record → List (Deal Resource)} {r : Fields → Resource} {b : Prop} [Decidable b]
    {g : Sys → Sys} {G : Fields → Fields} (p : Place)
    (hdeals : ∀ s w, deals (s, w) = if b then [.acquire (r (fields s w))] else [])
    (hg : ∀ s w, fields (g s) w = G (fields s w)) (hG : ∀ v P, G (v.known P) = (G v).known P)
    (hothers : ∀ v, F v → ∀ q, q ≠ p → content μ (G v) q = content μ v q)
    (hempty : ∀ v, F v → content μ v p = 0)
    (hheld : ∀ v, F v → b → ¬ (r v).IsNull → content μ (G v) p = {(r v).measured μ})
    (hnothing : ∀ v, F v → (b → (r v).IsNull) → content μ (G v) p = 0)
    (hF : ∀ v P, F v → (P → v.nonNull ∧ (b → ¬ (r v).IsNull)) → H ((G v).known P)) :
  Keeps μ F (Traced.commit deals (Prog.modify g)) fun _ => H
  := by
  apply commit_keeps p (D := fun v => if b then [.acquire (r v)] else []) hdeals hg hG hothers
  · intro v hv
    rw [hempty v hv]
    by_cases hb : b
    · by_cases hnull : (r v).IsNull
      · refine ⟨{(r v).measured μ}, ?_, ?_⟩
        · intro r' hr'
          rw [Multiset.mem_singleton.mp hr']
          apply Resource.isNull_measured.mpr hnull
        · rw [hnothing v hv (fun _ => hnull), if_pos hb, zero_add]
          rfl
      · refine ⟨0, by simp, ?_⟩
        rw [hheld v hv hb hnull, if_pos hb]
        rfl
    · refine ⟨0, by simp, ?_⟩
      rw [hnothing v hv (fun h => absurd h hb), if_neg hb]
      rfl
  · intro v hv
    apply hF v _ hv
    rintro ⟨hknown, hnew⟩
    refine ⟨hknown, ?_⟩
    intro hb
    apply hnew
    rw [if_pos hb]
    apply Multiset.mem_singleton_self

/-- A field that has a descriptor says it is held. -/
theorem mem_owned_of_open {v : Fields} {f : Fd} (h : 0 ≤ v.fd f) :
  .descriptor f (v.fd f) ∈ owned μ v
  := by
  apply Multiset.mem_sum.mpr
  refine ⟨.fd f, Finset.mem_univ _, ?_⟩
  rw [content, if_pos h]
  apply Multiset.mem_singleton_self

/-- Calls that use descriptors in fields that have one. -/
theorem enter_keeps {deals : Sys × Record → List (Deal Resource)}
    (h : ∀ s w, F (fields s w) → ∀ deal ∈ deals (s, w),
      ∃ f : Fd, deal = .use (.descriptor f (f.value s)) ∧ 0 ≤ f.value s) :
  Keeps μ F (Traced.enter deals) fun _ => F
  := by
  rintro ⟨s, w⟩ ⟨⟨lost, hlost, hheld⟩, hs⟩
  have hacquired : acquired (deals (s, w)) = 0 := by
    apply acquired_uses
    intro deal hdeal
    obtain ⟨f, rfl, -⟩ := h s w hs deal hdeal
    exact ⟨_, rfl⟩
  have hfields : fields s { w with log := w.log ++ deals (s, w) } = fields s w := by
    have hnonNull : NonNull (w.log ++ deals (s, w)) = NonNull w.log := by
      simp [NonNull, acquired_append, hacquired]
    simp only [fields, hnonNull]
  have huses : heldFrom (owned μ (fields s w) + lost) (measuredLog μ (deals (s, w)))
      = some (owned μ (fields s w) + lost) := by
    apply heldFrom_uses
    intro deal hdeal
    obtain ⟨use, huse, rfl⟩ := List.mem_map.mp hdeal
    obtain ⟨f, rfl, hopen⟩ := h s w hs use huse
    exact ⟨_, Multiset.mem_add.mpr (Or.inl (mem_owned_of_open (v := fields s w) hopen)), rfl⟩
  have hbooks : Books μ F (s, { w with log := w.log ++ deals (s, w) }) := by
    refine ⟨⟨lost, hlost, ?_⟩, ?_⟩
    · simp only [hfields]
      rw [measuredLog_append, held, heldFrom_append, ← held, hheld]
      apply huses
    · simp only [hfields]
      apply hs
  exact ⟨fun _ _ => trivial, hbooks⟩

/-- What is not read from the books is known afterwards too. -/
theorem Keeps.pure {a : α} {H : α → Fields → Prop} (h : ∀ v, F v → H a v) :
  Keeps μ F (Pure.pure a : Traced.Cmd α) H
  := by
  apply Spec.pure
  intro t ht
  exact ⟨ht.1, h _ ht.2⟩

theorem Keeps.strengthen {F₀ : Fields → Prop} {H : α → Fields → Prop} {m : Traced.Cmd α}
    (h : Keeps μ F m H) (hF : ∀ v, F₀ v → F v) :
  Keeps μ F₀ m H
  := by
  apply Spec.strengthen h
  intro t ht
  exact ⟨ht.1, hF _ ht.2⟩

theorem Keeps.weaken {H K : α → Fields → Prop} {m : Traced.Cmd α}
    (h : Keeps μ F m H) (hF : ∀ a v, H a v → K a v) :
  Keeps μ F m K
  := by
  apply Spec.weaken h
  intro a t ht
  exact ⟨ht.1, hF _ _ ht.2⟩

theorem checked_keeps
    {F₁ : Fields → Prop} {H : α → Fields → Prop} {m : Traced.Cmd ℤ} {good : ℤ → Bool}
    {otherwise : Traced.Cmd α} {next : ℤ → Traced.Cmd α} (hm : Keeps μ F m fun _ => F₁)
    (hotherwise : Keeps μ F₁ otherwise H) (hnext : ∀ r, Keeps μ F₁ (next r) H) :
  Keeps μ F (Traced.checked m good otherwise next) H
  := by
  apply Spec.bind hm
  intro r
  split
  · apply hnext
  · apply hotherwise

end Steps

/-! ### Steps that write no field -/

theorem ask_fields :
  Inert fields ask
  := by
  apply Inert.step
  intro s
  rfl

theorem call_fields :
  Inert fields call
  := by
  apply Inert.bind ask_fields
  intro _
  apply Inert.pure

theorem callIf_fields (b : Bool) :
  Inert fields (callIf b)
  := by
  unfold callIf
  split
  · apply call_fields
  · apply Inert.pure

theorem read_fields {α : Type} (f : Sys → α) :
  Inert fields (Prog.read f)
  := by
  apply Inert.step
  intro s
  rfl

theorem setDrm_fields {f : Drm → Drm}
    (h : ∀ d, (f d).drmFd = d.drmFd ∧ (f d).handle = d.handle ∧ (f d).fbId = d.fbId
      ∧ (f d).buffer = d.buffer ∧ (f d).doubleBuffered = d.doubleBuffered) :
  Inert fields (setDrm f)
  := by
  apply Inert.step
  intro s
  obtain ⟨hfd, hhandle, hfb, hbuffer, hdouble⟩ := h s.drm
  have hvalue : ∀ g : Fd, g.value { s with drm := f s.drm } = g.value s := by
    intro g
    cases g with
    | tty => rfl
    | rescueTty => rfl
    | drm => exact hfd
  funext w
  simp only [fields, hvalue, hhandle, hfb, hbuffer, hdouble]

theorem setCore_fields {f : Core → Core}
    (h : ∀ c, (f c).journal.ttyFd = c.journal.ttyFd
      ∧ (f c).journal.rescueTtyFd = c.journal.rescueTtyFd ∧ (f c).vtRestored = c.vtRestored) :
  Inert fields (setCore f)
  := by
  apply Inert.step
  intro s
  obtain ⟨htty, hrescue, hrestored⟩ := h s.core
  have hvalue : ∀ g : Fd, g.value { s with core := f s.core } = g.value s := by
    intro g
    cases g with
    | tty => exact htty
    | rescueTty => exact hrescue
    | drm => rfl
  funext w
  simp only [fields, hvalue, hrestored]

theorem vtActivate_fields (vt : Journal → ℤ) :
  Inert fields (vtActivate vt)
  := by
  apply Inert.step
  intro s
  rfl

theorem klogctl_fields (type : ℕ) :
  Inert fields (klogctl type)
  := by
  apply setCore_fields
  intro c
  exact ⟨rfl, rfl, rfl⟩

theorem writeSysrq_fields (v : ℤ) :
  Inert fields (writeSysrq v)
  := by
  apply setCore_fields
  intro c
  exact ⟨rfl, rfl, rfl⟩

theorem writeBrightness_fields (name : Bytes) (v : ℤ) :
  Inert fields (writeBrightness name v)
  := by
  apply setCore_fields
  intro c
  exact ⟨rfl, rfl, rfl⟩

theorem check_fields {α : Type} {good : ℤ → Bool} {otherwise : Cmd α} {next : ℤ → Cmd α}
    (hotherwise : Inert fields otherwise) (hnext : ∀ r, Inert fields (next r)) :
  Inert fields (checked good otherwise next)
  := by
  apply Inert.bind ask_fields
  intro r
  split
  · apply hnext
  · apply hotherwise

theorem firstCrtc_fields (countCrtcs : ℤ) :
  Inert fields (firstCrtc countCrtcs)
  := by
  unfold firstCrtc
  split
  · apply Inert.bind ask_fields
    intro first
    refine Inert.bind (setDrm_fields ?_) ?_
    · intro d
      exact ⟨rfl, rfl, rfl, rfl, rfl⟩
    · intro _
      apply Inert.pure
  · apply Inert.pure

theorem restoreBacklight_fields :
  Inert fields restoreBacklight
  := by
  apply Inert.bind (read_fields _)
  intro backlights
  apply Inert.forEach
  intro b _
  apply writeBrightness_fields

theorem restoreSysrq_fields :
  Inert fields restoreSysrq
  := by
  apply Inert.bind (read_fields _)
  intro saved
  split
  · apply Inert.bind (writeSysrq_fields _)
    intro _
    apply setCore_fields
    intro c
    exact ⟨rfl, rfl, rfl⟩
  · apply Inert.pure

theorem arm_fields (e : Env) :
  Inert fields (arm e)
  := by
  apply Inert.bind (klogctl_fields 6)
  intro _
  unfold disableSysrq
  split
  · refine Inert.bind (setCore_fields ?_) ?_
    · intro c
      exact ⟨rfl, rfl, rfl⟩
    · intro _
      apply writeSysrq_fields
  · apply Inert.pure

theorem recordBacklight_fields (name : Bytes) (maxB curB : ℤ) :
  Inert fields (recordBacklight name maxB curB)
  := by
  have hset : ∀ b : Backlight,
      Inert fields (setCore fun c => { c with backlights := c.backlights ++ [b] }) := by
    intro b
    apply setCore_fields
    intro c
    exact ⟨rfl, rfl, rfl⟩
  unfold recordBacklight
  split
  · apply Inert.bind (writeBrightness_fields _ _)
    intro _
    apply hset
  · apply hset

theorem forceBacklight_fields (e : Env) :
  Inert fields (forceBacklight e)
  := by
  apply check_fields (Inert.pure _)
  intro _
  apply Inert.forEach
  intro name _
  apply Inert.bind (read_fields _)
  intro num
  split
  · apply Inert.pure
  · apply check_fields (Inert.pure _)
    intro _
    apply Inert.bind ask_fields
    intro maxB
    apply check_fields (Inert.pure _)
    intro _
    apply Inert.bind (read_fields _)
    intro curB
    apply recordBacklight_fields

theorem maintainOne_fields (b : Backlight) :
  Inert fields (maintainOne b)
  := by
  unfold maintainOne
  split
  · apply check_fields (Inert.pure _)
    intro _
    apply Inert.bind (read_fields _)
    intro curB
    split
    · apply check_fields (Inert.pure _)
      intro _
      apply writeBrightness_fields
    · apply Inert.pure
  · apply Inert.pure

theorem performEvent_fields (ev : Event) :
  Inert fields (performEvent ev)
  := by
  unfold performEvent
  split
  · apply Inert.bind (read_fields _)
    intro backlights
    apply Inert.forEach
    intro b _
    apply maintainOne_fields
  · apply setCore_fields
    intro c
    exact ⟨rfl, rfl, rfl⟩
  · apply Inert.pure

theorem uiLoop_fields (e : Env) :
  Inert fields (uiLoop e)
  := by
  apply Inert.bind (read_fields _)
  intro s
  apply Inert.bind
  · apply Inert.forEach
    intro ev _
    apply performEvent_fields
  · intro _
    apply Inert.pure

end Vt

end LnxCad
