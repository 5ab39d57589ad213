import LnxCad.Vt.Takeover

/-!
# The display goes back

From the moment the rescue terminal is brought to the front, the program can always bring
back the original one: until `restore_vt` has done so, the journal holds a descriptor to do
it with.  So the last request, however the process ends, is for the original terminal.
-/

namespace LnxCad

namespace Vt

open Prog

/-- The terminal requested last. -/
def lastVt (c : Core) : Option ℤ := c.kernel.activations.getLast?.map Prod.fst

/-- No terminal was requested, or the original one was requested last. -/
def Returned (c : Core) : Prop :=
  c.kernel.activations = [] ∨ lastVt c = some c.journal.originalVt

/-- The program knows the original terminal, and has a descriptor to request it with. -/
def CanReturn (c : Core) : Prop := 0 ≤ c.journal.ttyFd ∧ 1 ≤ c.journal.originalVt

/-- Before the display is taken. -/
def Untaken (c : Core) : Prop := c.kernel.activations = [] ∧ c.vtRestored = false

/-- Once the terminal is opened, before the display is taken. -/
def Opened (fd : ℤ) (c : Core) : Prop := Untaken c ∧ c.journal.ttyFd = fd

/-- Once the original terminal is known, before the display is taken. -/
def Ready (c : Core) : Prop := Untaken c ∧ CanReturn c

/-- While the display is taken. -/
def Taken (c : Core) : Prop :=
  (c.kernel.activations = [] ∨ CanReturn c) ∧ c.vtRestored = false

/-- While the display is being given back. -/
def Returning (c : Core) : Prop :=
  (c.kernel.activations = [] ∨ CanReturn c) ∧ c.vtRestored = true

/-- Once the display is given back. -/
def GivenBack (c : Core) : Prop := Returned c ∧ c.vtRestored = true

/-- What a signal finds at any time. -/
def Safe (c : Core) : Prop := Returned c ∨ CanReturn c

theorem safe_of_away {c : Core} (h : c.kernel.activations = [] ∨ CanReturn c) :
  Safe c
  := by
  obtain h | h := h
  · exact .inl (.inl h)
  · exact .inr h

theorem returned_activate (c : Core) (accepted : Bool) :
  Returned { c with
    kernel.activations := c.kernel.activations ++ [(c.journal.originalVt, accepted)] }
  := by
  right
  simp [lastVt]

/-! ### The operations -/

theorem switchToRescue_display :
  Spec (fun s => Ready s.core) switchToRescue (fun _ s => Taken s.core) (fun s => Safe s.core)
  := by
  have hD : ∀ c, Ready c → Safe c := fun c hc => .inr hc.2
  have hask : Spec (fun s => Ready s.core) ask (fun _ s => Ready s.core) (fun s => Safe s.core) :=
    ask_still.core.keeps fun s => hD s.core
  have hset : ∀ {f : Journal → Journal},
      (∀ j, (f j).ttyFd = j.ttyFd ∧ (f j).originalVt = j.originalVt) →
      Spec (fun s => Ready s.core) (setJournal f) (fun _ s => Ready s.core)
        (fun s => Safe s.core) := by
    intro f hf
    apply setCore_spec hD
    intro c hc
    refine ⟨hc.1, ?_⟩
    simp only [CanReturn, hf]
    apply hc.2
  have hactivate : Spec (fun s => Ready s.core) (vtActivate Journal.rescueVt)
      (fun _ s => Taken s.core) (fun s => Safe s.core) := by
    apply vtActivate_spec hD
    intro c accepted hc
    exact ⟨.inr hc.2, hc.1.2⟩
  have hcall : Spec (fun s => Taken s.core) call (fun _ s => Taken s.core) (fun s => Safe s.core) :=
    call_still.core.keeps fun s hs => safe_of_away hs.1
  have hdone : ∀ r : ℤ, Spec (fun s => Taken s.core) (pure r : Cmd ℤ) (fun _ s => Taken s.core)
      (fun s => Safe s.core) := by
    intro r
    apply Spec.pure
    intro s hs
    apply hs
  apply Spec.bind hask
  intro query
  apply Spec.bind hask
  intro free
  refine Spec.bind (hset ?_) ?_
  · intro j
    exact ⟨rfl, rfl⟩
  intro _
  apply Spec.bind hask
  intro fd
  refine Spec.bind (hset ?_) ?_
  · intro j
    exact ⟨rfl, rfl⟩
  intro _
  apply Spec.bind hactivate
  intro activated
  split
  · apply Spec.bind hcall
    intro _
    apply Spec.bind hcall
    intro _
    apply hdone
  · apply Spec.bind hcall
    intro _
    apply Spec.bind hcall
    intro _
    apply Spec.bind hcall
    intro _
    apply hdone

theorem stealVt_display (e : Env) :
  Spec (fun s => Untaken s.core) (stealVt e) (fun _ s => Taken s.core) (fun s => Safe s.core)
  := by
  have hD : ∀ c, Opened e.ttyOpen c → Safe c := fun c hc => .inl (.inl hc.1.1)
  have hgiveUp : Spec (fun s => Opened e.ttyOpen s.core) (pure (-1) : Cmd ℤ)
      (fun _ s => Taken s.core) (fun s => Safe s.core) := by
    apply Spec.pure
    intro s hs
    exact ⟨.inl hs.1.1, hs.1.2⟩
  have htty : Spec (fun s => Untaken s.core) (setJournal fun j => { j with ttyFd := e.ttyOpen })
      (fun _ s => Opened e.ttyOpen s.core) (fun s => Safe s.core) := by
    apply setCore_spec (Q := Opened e.ttyOpen)
    · intro c hc
      exact .inl (.inl hc.1)
    · intro c hc
      exact ⟨hc, rfl⟩
  apply Spec.bind htty
  intro _
  split
  case isTrue => apply hgiveUp
  case isFalse hopen =>
    apply Spec.bind (ask_still.core.keeps fun s => hD s.core)
    intro state
    split
    · apply Spec.bind (call_still.core.keeps fun s => hD s.core)
      intro _
      apply hgiveUp
    · apply Spec.bind (ask_still.core.keeps fun s => hD s.core)
      intro active
      have hset : Spec (fun s => Opened e.ttyOpen s.core)
          (setJournal fun j => { j with originalVt := active.toNat + 1 })
          (fun _ s => Ready s.core) (fun s => Safe s.core) := by
        apply setCore_spec hD
        intro c hc
        have hfd := hc.2
        refine ⟨hc.1, ?_, ?_⟩
        · simp only
          omega
        · simp only
          omega
      apply Spec.bind hset
      intro _
      apply switchToRescue_display

theorem releaseTty_display :
  Spec (fun s => Returning s.core) releaseTty (fun _ s => GivenBack s.core) (fun s => Safe s.core)
  := by
  have hD : ∀ c, Returning c → Safe c := fun c hc => safe_of_away hc.1
  have hD' : ∀ c, GivenBack c → Safe c := fun c hc => .inl hc.1
  apply Spec.bind (readCore_spec (fun c => c.journal.ttyFd) hD)
  intro fd
  split
  case isTrue =>
    apply Spec.strengthen (p := fun s => Returning s.core) _ (fun s hs => hs.1)
    have hklog : Spec (fun s => Returning s.core) (klogctl 7) (fun _ s => Returning s.core)
        (fun s => Safe s.core) := by
      apply setCore_spec hD
      intro c hc
      apply hc
    have hactivate : Spec (fun s => Returning s.core) (vtActivate Journal.originalVt)
        (fun _ s => GivenBack s.core) (fun s => Safe s.core) := by
      apply vtActivate_spec hD
      intro c accepted hc
      exact ⟨returned_activate c accepted, hc.2⟩
    have hcall : Spec (fun s => GivenBack s.core) call (fun _ s => GivenBack s.core)
        (fun s => Safe s.core) := call_still.core.keeps fun s => hD' s.core
    apply Spec.bind hklog
    intro _
    apply Spec.bind hactivate
    intro _
    apply Spec.bind hcall
    intro _
    apply Spec.bind (restoreBacklight_spec hD' (fun c f hc => hc))
    intro _
    apply Spec.bind (restoreSysrq_spec hD' (fun c v hc => hc) (fun c hc => hc))
    intro _
    apply Spec.bind hcall
    intro _
    apply setCore_spec hD'
    intro c hc
    apply hc
  case isFalse hneg =>
    apply Spec.pure
    rintro s ⟨⟨hs | hs, hrestored⟩, rfl⟩
    · exact ⟨.inl hs, hrestored⟩
    · exact absurd hs.1 hneg

theorem takeover_display (e : Env) :
  Takeover e Untaken Untaken Taken GivenBack Safe
  := by
  have htaken : ∀ c, Taken c → Safe c := fun c hc => safe_of_away hc.1
  have hback : ∀ c, GivenBack c → Safe c := fun c hc => .inl hc.1
  have hrescue : Spec (fun s => Returning s.core) releaseRescueTty (fun _ s => Returning s.core)
      (fun s => Safe s.core) := by
    apply releaseRescueTty_spec
    · intro c hc
      apply safe_of_away hc.1
    · intro c hc
      apply hc
  constructor
  · apply forceBacklight_spec e
    · intro c hc
      exact .inl (.inl hc.1)
    · intro c f hc
      apply hc
    · intro c bs hc
      apply hc
  · apply stealVt_display
  · apply performEvent_spec htaken
    · intro c f hc
      apply hc
    · intro c vt hvt hc
      refine ⟨?_, hc.2⟩
      obtain h | h := hc.1
      · exact .inl h
      · exact .inr ⟨h.1, hvt⟩
  · apply restoreVt_spec htaken _ _ hrescue releaseTty_display
    · intro c hc _
      exact ⟨hc.1, rfl⟩
    · intro c hc hr
      rw [hc.2] at hr
      cases hr
  · apply restoreVt_spec hback _ _ hrescue releaseTty_display
    · intro c hc hr
      rw [hc.2] at hr
      cases hr
    · intro c hc _
      exact ⟨hc.1, rfl⟩
  · apply htaken
  · apply hback

/-- The handler brings back the original terminal from wherever a signal finds the
program. -/
theorem emergencyRestore_display :
  Spec (fun s => Safe s.core) emergencyRestore (fun _ s => Returned s.core) (fun s => Safe s.core)
  := by
  have hcall : Spec (fun s => Safe s.core) call (fun _ s => Safe s.core) (fun s => Safe s.core) :=
    call_still.core.keeps fun _ hs => hs
  have hD : ∀ c, Returned c → Safe c := fun c hc => .inl hc
  have hswitch : Spec (fun s => Safe s.core) emergencySwitch (fun _ s => Returned s.core)
      (fun s => Safe s.core) := by
    apply Spec.bind (readCore_spec (fun c => c.journal) (fun _ hc => hc))
    intro j
    split
    case isTrue =>
      apply Spec.strengthen (p := fun s => Safe s.core) _ (fun s hs => hs.1)
      have hactivate : Spec (fun s => Safe s.core) (vtActivate Journal.originalVt)
          (fun _ s => Returned s.core) (fun s => Safe s.core) := by
        apply vtActivate_spec (fun _ hc => hc)
        intro c accepted _
        apply returned_activate
      apply Spec.bind hactivate
      intro _
      apply Spec.pure
      intro s hs
      apply hs
    case isFalse hno =>
      apply Spec.pure
      rintro s ⟨hs | hs, rfl⟩
      · apply hs
      · exact absurd ⟨.inl hs.1, by have := hs.2; omega⟩ hno
  apply Spec.bind hcall
  intro _
  apply Spec.bind hcall
  intro _
  apply Spec.bind hswitch
  intro _
  apply Spec.bind ((read_still _).core.keeps fun s => hD s.core)
  intro saved
  split
  · apply setCore_spec hD
    intro c hc
    apply hc
  · apply Spec.pure
    intro s hs
    apply hs

/-! ### Every way to the end -/

/-- The ways a process ends: it runs to its end, or a signal stops it. -/
inductive Ends (m : Cmd Unit) (s : Sys) : Sys → Prop
  | exit : Ends m s (m.final s)
  | signal {t : Sys} : SignalPoint m s t → Ends m s (emergencyRestore.final t)

theorem process_display (e : Env) :
  Spec (fun s => Untaken s.core) (process e) (fun _ s => GivenBack s.core) (fun s => Safe s.core)
  := by
  have hD : ∀ c, Untaken c → Safe c := fun c hc => .inl (.inl hc.1)
  have hset : ∀ {f : Core → Core}, (∀ c, Untaken c → Untaken (f c)) →
      Spec (fun s => Untaken s.core) (setCore f) (fun _ s => Untaken s.core)
        (fun s => Safe s.core) := by
    intro f hf
    apply setCore_spec hD hf
  have harm : Spec (fun s => Untaken s.core) (arm e) (fun _ s => Untaken s.core)
      (fun s => Safe s.core) := by
    refine Spec.bind (hset ?_) ?_
    · intro c hc
      apply hc
    intro _
    unfold disableSysrq
    split
    · refine Spec.bind (hset ?_) ?_
      · intro c hc
        apply hc
      intro _
      apply hset
      intro c hc
      apply hc
    · apply Spec.pure
      intro s hs
      apply hs
  apply Spec.bind harm
  intro _
  apply (takeover_display e).armed

theorem signalPoint_safe
    {e : Env} {s t : Sys} (hs : Untaken s.core) (h : SignalPoint (process e) s t) :
  Safe t.core
  := by
  obtain ⟨hvisited, hfinal⟩ := process_display e s hs
  induction h with
  | during ht => apply hvisited _ ht
  | atEnd => exact .inl hfinal.1
  | nested _ hu ih => apply (emergencyRestore_display _ ih).1 _ hu

/-- In every run, if the rescue terminal was brought to the front, then however the process
ends, whatever calls failed and wherever a signal arrived, its last request is for the
terminal the journal names as the original one at that time. -/
theorem display_goes_back
    (e : Env) (sysrq : Int32) (brightness : Bytes → Int32) (answers : ℕ → ℤ) (s : Sys)
    (hend : Ends (process e) (boot sysrq brightness answers) s)
    (haccepted : (s.core.journal.rescueVt, true) ∈ s.core.kernel.activations) :
  lastVt s.core = some s.core.journal.originalVt
  := by
  have huntaken : Untaken (boot sysrq brightness answers).core := ⟨rfl, rfl⟩
  have hreturned : Returned s.core := by
    cases hend with
    | exit => exact (process_display e _ huntaken).2.1
    | signal ht => exact (emergencyRestore_display _ (signalPoint_safe huntaken ht)).2
  obtain hnone | hlast := hreturned
  · rw [hnone] at haccepted
    cases haccepted
  · apply hlast

theorem display_goes_back_laptop :
  ((process laptop).final (laptopBoot 176)).core.kernel.activations = [(8, true), (7, true)]
    ∧ lastVt ((process laptop).final (laptopBoot 176)).core
      = some ((process laptop).final (laptopBoot 176)).core.journal.originalVt
  := by
  refine ⟨by decide +kernel, ?_⟩
  apply display_goes_back laptop 176 (fun _ => 50) laptopAnswers _ .exit
  decide +kernel

end Vt

end LnxCad
