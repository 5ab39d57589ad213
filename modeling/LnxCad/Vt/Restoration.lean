import LnxCad.Vt.Takeover

/-!
# What is put back

`restore_vt` puts back the SysRq setting, the brightness of the backlights and the messages
on the console, but only in the branch in which it has a terminal to give back.  The handler
of fatal signals puts back the SysRq setting on its own, by a single digit.
-/

namespace LnxCad

namespace Vt

open Prog

/-! ### Numbers survive a file -/

theorem strToInt_intText (v : Int32) :
  strToInt (intText v) = v.toInt
  := by
  have hlo := v.le_toInt
  have hhi := v.toInt_lt
  apply strToInt_intToStr
  · omega
  · omega

theorem intOfText_intToStr (v : Int32) :
  intOfText (intToStr v.toInt ++ [10]) = v
  := by
  have h := strToInt_intText v
  unfold intText at h
  rw [intOfText, h, Int32.ofInt_toInt]

/-- The handler writes the last digit of the setting. -/
theorem toInt_intOfText_sysrqDigit (saved : ℤ) :
  (intOfText [sysrqDigit saved]).toInt = saved % 10
  := by
  have hdigit : ∀ d : ℕ, d < 10 → (intOfText [48 + UInt8.ofNat d]).toInt = d := by
    intro d hd
    interval_cases d
    all_goals decide
  rw [sysrqDigit, hdigit _ (by omega)]
  omega

/-! ### Properties of the SysRq setting -/

section Sysrq

variable {R : ℤ → Int32 → Prop}

/-- A property of the saved setting and the one in force. -/
def OfSysrq (R : ℤ → Int32 → Prop) (c : Core) : Prop := R c.savedSysrq c.kernel.sysrq

/-- A switch of the terminal does not touch the settings. -/
theorem vtActivate_ofSysrq (R : ℤ → Int32 → Prop) :
  Spec (fun s => OfSysrq R s.core) (vtActivate Journal.originalVt) (fun _ s => OfSysrq R s.core)
    (fun s => OfSysrq R s.core)
  := by
  apply vtActivate_spec (fun _ hc => hc)
  intro c accepted hc
  apply hc

theorem releaseTty_ofSysrq
    (h : Spec (fun s => OfSysrq R s.core) restoreSysrq (fun _ s => OfSysrq R s.core)
      (fun s => OfSysrq R s.core)) :
  Spec (fun s => OfSysrq R s.core) releaseTty (fun _ s => OfSysrq R s.core)
    (fun s => OfSysrq R s.core)
  := by
  have hD : ∀ c, OfSysrq R c → OfSysrq R c := fun _ hc => hc
  have hset : ∀ {f : Core → Core}, (∀ c, OfSysrq R c → OfSysrq R (f c)) →
      Spec (fun s => OfSysrq R s.core) (setCore f) (fun _ s => OfSysrq R s.core)
        (fun s => OfSysrq R s.core) := by
    intro f hf
    apply setCore_spec hD hf
  apply Spec.bind ((read_still _).core.keeps fun s => hD s.core)
  intro fd
  split
  · refine Spec.bind (hset ?_) ?_
    · intro c hc
      apply hc
    intro _
    apply Spec.bind (vtActivate_ofSysrq R)
    intro _
    apply Spec.bind (call_still.core.keeps fun s => hD s.core)
    intro _
    apply Spec.bind (restoreBacklight_spec hD (fun _ _ hc => hc))
    intro _
    apply Spec.bind h
    intro _
    apply Spec.bind (call_still.core.keeps fun s => hD s.core)
    intro _
    apply hset
    intro c hc
    apply hc
  · apply Spec.pure
    intro s hs
    apply hs

theorem stealVt_ofSysrq (e : Env) (R : ℤ → Int32 → Prop) :
  Spec (fun s => OfSysrq R s.core) (stealVt e) (fun _ s => OfSysrq R s.core)
    (fun s => OfSysrq R s.core)
  := by
  apply stealVt_spec
  · intro c hc
    apply hc
  · intro c hc
    apply hc
  · intro c hc
    apply hc
  · intro c j _ hc
    apply hc
  · intro c a hc
    apply hc

/-- A property of the SysRq setting that `restore_sysrq` keeps is kept by the process. -/
theorem takeover_ofSysrq (e : Env)
    (h : Spec (fun s => OfSysrq R s.core) restoreSysrq (fun _ s => OfSysrq R s.core)
      (fun s => OfSysrq R s.core)) :
  Takeover e (OfSysrq R) (OfSysrq R) (OfSysrq R) (OfSysrq R) (OfSysrq R)
  := by
  have hD : ∀ c, OfSysrq R c → OfSysrq R c := fun _ hc => hc
  have hrestore : Spec (fun s => OfSysrq R s.core) restoreVt (fun _ s => OfSysrq R s.core)
      (fun s => OfSysrq R s.core) := by
    refine restoreVt_spec hD (fun _ hc _ => hc) (fun _ hc _ => hc) ?_ (releaseTty_ofSysrq h)
    apply releaseRescueTty_spec hD
    intro c hc
    apply hc
  constructor
  · apply forceBacklight_spec e hD
    · intro c f hc
      apply hc
    · intro c bs hc
      apply hc
  · apply stealVt_ofSysrq
  · apply performEvent_spec hD
    · intro c f hc
      apply hc
    · intro c vt _ hc
      apply hc
  · apply hrestore
  · apply hrestore
  · apply hD
  · apply hD

/-- The handler writes one digit of a saved setting, and nothing if none is saved. -/
theorem emergencyRestore_ofSysrq
    {T : ℤ → Int32 → Prop}
    (hsaved : ∀ saved sysrq, R saved sysrq → 0 ≤ saved → T saved (intOfText [sysrqDigit saved]))
    (hnone : ∀ saved sysrq, R saved sysrq → saved < 0 → T saved sysrq) :
  Spec (fun s => OfSysrq R s.core) emergencyRestore (fun _ s => OfSysrq T s.core)
    (fun s => OfSysrq R s.core)
  := by
  have hD : ∀ c, OfSysrq R c → OfSysrq R c := fun _ hc => hc
  have hswitch : Spec (fun s => OfSysrq R s.core) emergencySwitch (fun _ s => OfSysrq R s.core)
      (fun s => OfSysrq R s.core) := by
    apply Spec.bind ((read_still _).core.keeps fun s => hD s.core)
    intro j
    split
    · apply Spec.bind (vtActivate_ofSysrq R)
      intro _
      apply Spec.pure
      intro s hs
      apply hs
    · apply Spec.pure
      intro s hs
      apply hs
  apply Spec.bind (call_still.core.keeps fun s => hD s.core)
  intro _
  apply Spec.bind (call_still.core.keeps fun s => hD s.core)
  intro _
  apply Spec.bind hswitch
  intro _
  apply Spec.bind (readCore_spec Core.savedSysrq hD)
  intro saved
  split
  case isTrue hpos =>
    apply setCore_spec (P := fun c => OfSysrq R c ∧ c.savedSysrq = saved)
    · intro c hc
      apply hc.1
    · rintro c ⟨hc, rfl⟩
      apply hsaved _ _ hc hpos
  case isFalse hneg =>
    apply Spec.pure
    rintro s ⟨hs, rfl⟩
    apply hnone _ _ hs (by omega)

end Sysrq

/-! ### The SysRq setting under a signal -/

/-- The setting `v` is saved, or put back. -/
def Kept (v : Int32) (saved : ℤ) (sysrq : Int32) : Prop :=
  saved = v.toInt ∨ saved = -1 ∧ sysrq = v

variable {v : Int32}

theorem restoreSysrq_kept (v : Int32) :
  Spec (fun s => OfSysrq (Kept v) s.core) restoreSysrq (fun _ s => OfSysrq (Kept v) s.core)
    (fun s => OfSysrq (Kept v) s.core)
  := by
  apply Spec.bind (readCore_spec Core.savedSysrq (fun _ hc => hc))
  intro saved
  split
  case isTrue hpos =>
    have hwrite : Spec (fun s => OfSysrq (Kept v) s.core ∧ s.core.savedSysrq = saved)
        (writeSysrq saved) (fun _ s => s.core.savedSysrq = v.toInt ∧ s.core.kernel.sysrq = v)
        (fun s => OfSysrq (Kept v) s.core) := by
      apply setCore_spec (P := fun c => OfSysrq (Kept v) c ∧ c.savedSysrq = saved)
        (Q := fun c => c.savedSysrq = v.toInt ∧ c.kernel.sysrq = v)
      · intro c hc
        apply hc.1
      · rintro c ⟨hc | hc, rfl⟩
        · refine ⟨hc, ?_⟩
          simp only [hc]
          apply intOfText_intToStr
        · have := hc.1
          omega
    apply Spec.bind hwrite
    intro _
    apply setCore_spec (P := fun c => c.savedSysrq = v.toInt ∧ c.kernel.sysrq = v)
    · intro c hc
      exact .inl hc.1
    · intro c hc
      exact .inr ⟨rfl, hc.2⟩
  case isFalse =>
    apply Spec.pure
    intro s hs
    apply hs.1

/-- Once SysRq is disabled, the setting is saved or put back wherever a signal arrives. -/
theorem signalPoint_kept
    {e : Env} {s t : Sys} (hs : OfSysrq (Kept v) s.core)
    (h : SignalPoint (armed e) s t) :
  OfSysrq (Kept v) t.core
  := by
  obtain ⟨hvisited, hfinal⟩ := (takeover_ofSysrq e (restoreSysrq_kept v)).armed s hs
  have hhandler : Spec (fun s => OfSysrq (Kept v) s.core) emergencyRestore
      (fun _ s => OfSysrq (Kept v) s.core) (fun s => OfSysrq (Kept v) s.core) := by
    apply emergencyRestore_ofSysrq
    · rintro saved sysrq (hkept | hkept) hpos
      · exact .inl hkept
      · omega
    · intro saved sysrq hkept _
      apply hkept
  induction h with
  | during ht => apply hvisited _ ht
  | atEnd => apply hfinal
  | nested _ hu ih => apply (hhandler _ ih).1 _ hu

/-- What is changed before the initialisation: kernel messages go off the console, and a
setting that can be read is saved and replaced by `0`. -/
theorem arm_core (e : Env) (v : Int32) (brightness : Bytes → Int32) (answers : ℕ → ℤ) :
  ((arm e).final (boot v brightness answers)).core
    = { kernel :=
          { sysrq := if e.sysrqReads then 0 else v, brightness := brightness, consoleLog := false }
        savedSysrq := if e.sysrqReads then v.toInt else -1 }
  := by
  have hzero : intOfText (intToStr 0 ++ [10]) = 0 := intOfText_intToStr 0
  unfold arm disableSysrq
  cases e.sysrqReads with
  | false => rfl
  | true =>
      have hsaved := strToInt_intText v
      simp only [final_bind, if_true]
      simp only [final, klogctl, setCore, writeSysrq, Prog.modify, Prog.step, boot, hzero, hsaved]
      rfl

theorem arm_kept
    (e : Env) (hreads : e.sysrqReads) (v : Int32) (brightness : Bytes → Int32)
    (answers : ℕ → ℤ) :
  OfSysrq (Kept v) ((arm e).final (boot v brightness answers)).core
  := by
  rw [arm_core, hreads]
  left
  rfl

/-- When a signal arrives after SysRq was disabled, the handler leaves the setting as it was
read exactly if that has a single digit, or the ordinary restoration was over. -/
theorem emergency_sysrq_iff
    (e : Env) (v : Int32) (brightness : Bytes → Int32) (answers : ℕ → ℤ) (t : Sys)
    (hreads : e.sysrqReads) (hv : 0 ≤ v.toInt)
    (ht : SignalPoint (armed e) ((arm e).final (boot v brightness answers)) t) :
  (emergencyRestore.final t).core.kernel.sysrq = v ↔ v.toInt ≤ 9 ∨ t.core.savedSysrq = -1
  := by
  obtain hsaved | ⟨hnone, hback⟩ :=
    signalPoint_kept (arm_kept e hreads v brightness answers) ht
  · have hspec := emergencyRestore_ofSysrq
      (R := fun saved _ => saved = v.toInt)
      (T := fun _ sysrq => sysrq = intOfText [sysrqDigit v.toInt])
      (by rintro saved sysrq rfl _; rfl) (by rintro saved sysrq rfl hneg; omega)
    have hfinal : (emergencyRestore.final t).core.kernel.sysrq = intOfText [sysrqDigit v.toInt] :=
      (hspec t hsaved).2
    rw [hfinal, ← Int32.toInt_inj, toInt_intOfText_sysrqDigit]
    omega
  · have hspec := emergencyRestore_ofSysrq
      (R := fun saved sysrq => saved = -1 ∧ sysrq = v) (T := fun _ sysrq => sysrq = v)
      (by rintro saved sysrq ⟨rfl, _⟩ hpos; omega) (by rintro saved sysrq ⟨_, rfl⟩ _; rfl)
    have hfinal : (emergencyRestore.final t).core.kernel.sysrq = v :=
      (hspec t ⟨hnone, hback⟩).2
    simp [hfinal, hnone]

/-- The state in which the laptop begins its initialisation. -/
def laptopArmed (sysrq : Int32) : Sys := (arm laptop).final (laptopBoot sysrq)

theorem laptopArmed_signalPoint (sysrq : Int32) :
  SignalPoint (armed laptop) (laptopArmed sysrq) (laptopArmed sysrq)
  := .during (List.mem_of_mem_head? rfl)

theorem emergency_sysrq_iff_laptop :
  (emergencyRestore.final (laptopArmed 1)).core.kernel.sysrq = 1
  := by
  apply (emergency_sysrq_iff laptop 1 (fun _ => 50) laptopAnswers _ rfl (by decide)
    (laptopArmed_signalPoint 1)).mpr
  decide

/-- The setting `176` becomes `6`. -/
theorem emergency_sysrq_laptop :
  SignalPoint (armed laptop) ((arm laptop).final (laptopBoot 176)) (laptopArmed 176)
    ∧ (laptopArmed 176).core.savedSysrq = 176
    ∧ (emergencyRestore.final (laptopArmed 176)).core.kernel.sysrq ≠ 176
  := by
  refine ⟨laptopArmed_signalPoint 176, ?_, ?_⟩
  · decide +kernel
  · decide +kernel

/-! ### The end of the process -/

/-- The machine is as it was found: the SysRq setting is `v`, the recorded backlights have
their brightness back, and kernel messages go to the console. -/
structure Restored (v : Int32) (c : Core) : Prop where
  sysrq : c.kernel.sysrq = v
  backlights : ∀ b ∈ c.backlights, (c.kernel.brightness b.name).toInt = b.savedBrightness
  consoleLog : c.kernel.consoleLog = true

/-- What the program has to remember to put the machine back. -/
structure Remembers (v : Int32) (c : Core) : Prop where
  saved : 0 ≤ c.savedSysrq → c.savedSysrq = v.toInt
  unsaved : c.savedSysrq < 0 → c.kernel.sysrq = v
  names : (c.backlights.map Backlight.name).Nodup
  ints : ∀ b ∈ c.backlights, ∃ w : Int32, b.savedBrightness = w.toInt

/-- Before `restore_vt` has run, with the terminal open. -/
def Pending (v : Int32) (restored : Bool) (c : Core) : Prop :=
  Remembers v c ∧ 0 ≤ c.journal.ttyFd ∧ c.vtRestored = restored

/-- Once `restore_vt` has run. -/
def Settled (v : Int32) (c : Core) : Prop := Restored v c ∧ c.vtRestored = true

/-- The backlights recorded so far are not among those still to come. -/
def Recording (v : Int32) (rest : List Bytes) (c : Core) : Prop :=
  Remembers v c ∧ c.vtRestored = false ∧ ∀ b ∈ c.backlights, b.name ∉ rest

/-- No condition on the states in between. -/
def Any (_ : Core) : Prop := True

theorem recordBacklight_recording
    {name : Bytes} {rest : List Bytes} (hname : name ∉ rest) (maxB : ℤ) (w : Int32) :
  Spec (fun s => Recording v (name :: rest) s.core) (recordBacklight name maxB w.toInt)
    (fun _ s => Recording v rest s.core) (fun s => Any s.core)
  := by
  have hadd : ∀ enforced, Spec (fun s => Recording v (name :: rest) s.core)
      (setCore fun c => { c with
        backlights := c.backlights ++ [⟨name, w.toInt, enforced, true⟩] })
      (fun _ s => Recording v rest s.core) (fun s => Any s.core) := by
    intro enforced
    apply setCore_spec (P := Recording v (name :: rest)) (Q := Recording v rest)
    · intro c _
      trivial
    · rintro c ⟨hmem, hrestored, hfresh⟩
      refine ⟨⟨hmem.saved, hmem.unsaved, ?_, ?_⟩, hrestored, ?_⟩
      · simp only [List.map_append, List.map_cons, List.map_nil]
        apply List.Nodup.append hmem.names (by simp)
        simp only [List.disjoint_singleton, List.mem_map]
        rintro ⟨b, hb, rfl⟩
        apply hfresh b hb
        simp
      · intro b hb
        obtain hb | hb := List.mem_append.mp hb
        · apply hmem.ints b hb
        · rw [List.mem_singleton.mp hb]
          use w
      · intro b hb
        obtain hb | hb := List.mem_append.mp hb
        · intro hrest
          apply hfresh b hb
          simp [hrest]
        · rw [List.mem_singleton.mp hb]
          apply hname
  unfold recordBacklight
  split
  · have hlight : ∀ safeB, Spec (fun s => Recording v (name :: rest) s.core)
        (writeBrightness name safeB) (fun _ s => Recording v (name :: rest) s.core)
        (fun s => Any s.core) := by
      intro safeB
      apply writeBrightness_spec
      · intro c _
        trivial
      · rintro c f ⟨hmem, hrestored, hfresh⟩
        exact ⟨⟨hmem.saved, hmem.unsaved, hmem.names, hmem.ints⟩, hrestored, hfresh⟩
    apply Spec.bind (hlight _)
    intro _
    apply hadd
  · apply hadd

theorem forceBacklight_recording (e : Env) (v : Int32) :
  Spec (fun s => Recording v e.listing s.core) (forceBacklight e)
    (fun _ s => Recording v [] s.core) (fun s => Any s.core)
  := by
  have hD : ∀ rest c, Recording v rest c → Any c := fun _ _ _ => trivial
  have hskip : ∀ {name : Bytes} {rest : List Bytes},
      Spec (fun s => Recording v (name :: rest) s.core) (pure () : Cmd Unit)
        (fun _ s => Recording v rest s.core) (fun s => Any s.core) := by
    intro name rest
    apply Spec.pure
    rintro s ⟨hmem, hrestored, hfresh⟩
    refine ⟨hmem, hrestored, ?_⟩
    intro b hb hrest
    apply hfresh b hb
    simp [hrest]
  apply Spec.bind (ask_still.core.keeps fun s => hD _ s.core)
  intro dirFd
  split
  case isFalse =>
    apply Spec.pure
    rintro s ⟨hmem, hrestored, -⟩
    exact ⟨hmem, hrestored, by simp⟩
  case isTrue =>
    apply Spec.forEach_rest (I := fun rest (s : Sys) => Recording v rest s.core)
    intro name rest hsuffix
    have hname : name ∉ rest := by
      have hnodup := e.nodup_listing.sublist hsuffix.sublist
      simp only [List.nodup_cons] at hnodup
      apply hnodup.1
    apply Spec.bind ((read_still _).core.keeps fun s => hD _ s.core)
    intro num
    split
    · apply hskip
    apply Spec.bind (ask_still.core.keeps fun s => hD _ s.core)
    intro maxRead
    split
    case isFalse => apply hskip
    apply Spec.bind (ask_still.core.keeps fun s => hD _ s.core)
    intro maxB
    apply Spec.bind (ask_still.core.keeps fun s => hD _ s.core)
    intro curRead
    split
    case isFalse => apply hskip
    have hread : Spec (fun s => Recording v (name :: rest) s.core) (readBrightness name)
        (fun curB s => Recording v (name :: rest) s.core ∧ ∃ w : Int32, curB = w.toInt)
        (fun s => Any s.core) := by
      apply Spec.step
      · intro s _
        trivial
      · intro s hs
        exact ⟨hs, _, strToInt_intText _⟩
    apply Spec.bind hread
    intro curB s hs
    obtain ⟨w, rfl⟩ := hs.2
    apply recordBacklight_recording hname maxB w s hs.1

/-- `restore_backlight` gives every recorded backlight its brightness back. -/
theorem restoreBacklight_restores (v : Int32) :
  Spec (fun s => Pending v true s.core) restoreBacklight
    (fun _ s => Pending v true s.core
      ∧ ∀ b ∈ s.core.backlights, (s.core.kernel.brightness b.name).toInt = b.savedBrightness)
    (fun s => Any s.core)
  := by
  apply Spec.bind (readCore_spec Core.backlights (fun _ _ => trivial))
  intro backlights
  refine Spec.strengthen (Spec.weaken (Spec.forEach_rest
    (I := fun rest (s : Sys) => (Pending v true s.core ∧ s.core.backlights = backlights)
      ∧ ∀ b ∈ backlights, b ∈ rest
        ∨ (s.core.kernel.brightness b.name).toInt = b.savedBrightness) ?_) ?_) ?_
  · intro b rest hsuffix
    apply Spec.step
    · intro s _
      trivial
    · rintro s ⟨⟨⟨hmem, htty, hrestored⟩, rfl⟩, hdone⟩
      refine ⟨⟨⟨⟨hmem.saved, hmem.unsaved, hmem.names, hmem.ints⟩, htty, hrestored⟩, rfl⟩, ?_⟩
      have hb : b ∈ s.core.backlights := hsuffix.subset (by simp)
      intro b' hb'
      obtain heq | hne := eq_or_ne b'.name b.name
      · have hsame : b' = b := List.inj_on_of_nodup_map hmem.names hb' hb heq
        obtain ⟨w, hw⟩ := hmem.ints b hb
        right
        simp only [hsame, Function.update_self, hw, intOfText_intToStr]
      · obtain hin | hdone := hdone b' hb'
        · obtain rfl | hin := List.mem_cons.mp hin
          · exact absurd rfl hne
          · exact .inl hin
        · right
          simp only [Function.update_of_ne hne]
          apply hdone
  · rintro _ s ⟨⟨hpending, rfl⟩, hdone⟩
    refine ⟨hpending, ?_⟩
    intro b hb
    obtain hin | hdone := hdone b hb
    · cases hin
    · apply hdone
  · rintro s ⟨hpending, rfl⟩
    exact ⟨⟨hpending, rfl⟩, fun b hb => .inl hb⟩

/-- The backlights have their brightness back, and kernel messages go to the console. -/
def Lit (v : Int32) (c : Core) : Prop :=
  Remembers v c ∧ c.vtRestored = true ∧ c.kernel.consoleLog = true
    ∧ ∀ b ∈ c.backlights, (c.kernel.brightness b.name).toInt = b.savedBrightness

theorem restoreSysrq_settles (v : Int32) :
  Spec (fun s => Lit v s.core) restoreSysrq (fun _ s => Settled v s.core) (fun s => Any s.core)
  := by
  apply Spec.bind (readCore_spec Core.savedSysrq (fun _ _ => trivial))
  intro saved
  split
  case isTrue hpos =>
    have hwrite : Spec (fun s => Lit v s.core ∧ s.core.savedSysrq = saved) (writeSysrq saved)
        (fun _ s => Settled v s.core) (fun s => Any s.core) := by
      apply setCore_spec (P := fun c => Lit v c ∧ c.savedSysrq = saved) (fun _ _ => trivial)
      rintro c ⟨⟨hmem, hrestored, hlog, hlit⟩, rfl⟩
      refine ⟨⟨?_, hlit, hlog⟩, hrestored⟩
      simp only [hmem.saved hpos]
      apply intOfText_intToStr
    apply Spec.bind hwrite
    intro _
    apply setCore_spec (fun _ _ => trivial)
    rintro c ⟨hc, hrestored⟩
    exact ⟨⟨hc.sysrq, hc.backlights, hc.consoleLog⟩, hrestored⟩
  case isFalse hneg =>
    apply Spec.pure
    rintro s ⟨⟨hmem, hrestored, hlog, hlit⟩, rfl⟩
    exact ⟨⟨hmem.unsaved (by omega), hlit, hlog⟩, hrestored⟩

/-- With the terminal open, the second part of `restore_vt` puts everything back. -/
theorem releaseTty_settles (v : Int32) :
  Spec (fun s => Pending v true s.core) releaseTty (fun _ s => Settled v s.core)
    (fun s => Any s.core)
  := by
  apply Spec.bind (readCore_spec (fun c => c.journal.ttyFd) (fun _ _ => trivial))
  intro fd
  split
  case isFalse hneg =>
    rintro s ⟨⟨-, htty, -⟩, rfl⟩
    exact absurd htty hneg
  case isTrue =>
    have hklog : Spec (fun s => Pending v true s.core ∧ s.core.journal.ttyFd = fd) (klogctl 7)
        (fun _ s => Pending v true s.core ∧ s.core.kernel.consoleLog = true)
        (fun s => Any s.core) := by
      apply setCore_spec (P := fun c => Pending v true c ∧ c.journal.ttyFd = fd)
        (Q := fun c => Pending v true c ∧ c.kernel.consoleLog = true) (fun _ _ => trivial)
      rintro c ⟨⟨hmem, htty, hrestored⟩, -⟩
      exact ⟨⟨⟨hmem.saved, hmem.unsaved, hmem.names, hmem.ints⟩, htty, hrestored⟩, rfl⟩
    have hactivate : Spec (fun s => Pending v true s.core ∧ s.core.kernel.consoleLog = true)
        (vtActivate Journal.originalVt)
        (fun _ s => Pending v true s.core ∧ s.core.kernel.consoleLog = true)
        (fun s => Any s.core) := by
      apply vtActivate_spec (P := fun c => Pending v true c ∧ c.kernel.consoleLog = true)
        (Q := fun c => Pending v true c ∧ c.kernel.consoleLog = true) (fun _ _ => trivial)
      rintro c accepted ⟨⟨hmem, htty, hrestored⟩, hlog⟩
      exact ⟨⟨⟨hmem.saved, hmem.unsaved, hmem.names, hmem.ints⟩, htty, hrestored⟩, hlog⟩
    have hlight : Spec (fun s => Pending v true s.core ∧ s.core.kernel.consoleLog = true)
        restoreBacklight (fun _ s => Lit v s.core) (fun s => Any s.core) := by
      have hlog : Spec (fun s => s.core.kernel.consoleLog = true) restoreBacklight
          (fun _ s => s.core.kernel.consoleLog = true) (fun s => Any s.core) :=
        restoreBacklight_spec (P := fun c => c.kernel.consoleLog = true) (fun _ _ => trivial)
          (fun _ _ hc => hc)
      intro s hs
      obtain ⟨hvisited, ⟨hmem, -, hrestored⟩, hlit⟩ := restoreBacklight_restores v s hs.1
      exact ⟨hvisited, hmem, hrestored, (hlog s hs.2).2, hlit⟩
    apply Spec.bind hklog
    intro _
    apply Spec.bind hactivate
    intro _
    apply Spec.bind (call_still.core.keeps
      (P := fun c => Pending v true c ∧ c.kernel.consoleLog = true) fun _ _ => trivial)
    intro _
    apply Spec.bind hlight
    intro _
    apply Spec.bind (restoreSysrq_settles v)
    intro _
    apply Spec.bind (call_still.core.keeps (P := Settled v) fun _ _ => trivial)
    intro _
    apply setCore_spec (fun _ _ => trivial)
    rintro c ⟨hc, hrestored⟩
    exact ⟨⟨hc.sysrq, hc.backlights, hc.consoleLog⟩, hrestored⟩

/-- With the terminal open, the process ends with the machine put back. -/
theorem takeover_restores (e : Env) (v : Int32) (htty : 0 ≤ e.ttyOpen) :
  Takeover e (Recording v e.listing) (Recording v []) (Pending v false) (Settled v) Any
  := by
  have hrescue : Spec (fun s => Pending v true s.core) releaseRescueTty
      (fun _ s => Pending v true s.core) (fun s => Any s.core) := by
    apply releaseRescueTty_spec (fun _ _ => trivial)
    rintro c ⟨hmem, htty, hrestored⟩
    exact ⟨⟨hmem.saved, hmem.unsaved, hmem.names, hmem.ints⟩, htty, hrestored⟩
  have hmem : ∀ {c : Core}, Remembers v c → ∀ {c' : Core}, c'.savedSysrq = c.savedSysrq →
      c'.kernel.sysrq = c.kernel.sysrq → c'.backlights = c.backlights → Remembers v c' := by
    intro c hc c' hsaved hsysrq hlights
    constructor
    · rw [hsaved]
      apply hc.saved
    · rw [hsaved, hsysrq]
      apply hc.unsaved
    · rw [hlights]
      apply hc.names
    · rw [hlights]
      apply hc.ints
  constructor
  · apply forceBacklight_recording
  · apply stealVt_spec e (fun _ _ => trivial) (fun _ _ => trivial)
    · rintro c ⟨hc, hrestored, -⟩
      exact ⟨hmem hc rfl rfl rfl, htty, hrestored⟩
    · rintro c j hj ⟨hc, htty, hrestored⟩
      refine ⟨hmem hc rfl rfl rfl, ?_, hrestored⟩
      rw [hj]
      apply htty
    · rintro c a ⟨hc, htty, hrestored⟩
      exact ⟨hmem hc rfl rfl rfl, htty, hrestored⟩
  · apply performEvent_spec (fun _ _ => trivial)
    · rintro c f ⟨hc, htty, hrestored⟩
      exact ⟨hmem hc rfl rfl rfl, htty, hrestored⟩
    · rintro c vt _ ⟨hc, htty, hrestored⟩
      exact ⟨hmem hc rfl rfl rfl, htty, hrestored⟩
  · apply restoreVt_spec (fun _ _ => trivial) _ _ hrescue (releaseTty_settles v)
    · rintro c ⟨hc, htty, -⟩ _
      exact ⟨hmem hc rfl rfl rfl, htty, rfl⟩
    · rintro c ⟨-, -, hfalse⟩ htrue
      rw [hfalse] at htrue
      cases htrue
  · apply restoreVt_spec (fun _ _ => trivial) _ _ hrescue (releaseTty_settles v)
    · rintro c ⟨-, htrue⟩ hfalse
      rw [htrue] at hfalse
      cases hfalse
    · rintro c ⟨hc, -⟩ _
      exact ⟨⟨hc.sysrq, hc.backlights, hc.consoleLog⟩, rfl⟩
  · intro c _
    trivial
  · intro c _
    trivial

/-- Without the terminal `restore_vt` does nothing, and kernel messages stay off the
console. -/
def Silenced (c : Core) : Prop := c.journal.ttyFd < 0 ∧ c.kernel.consoleLog = false

/-- Kernel messages are off the console. -/
def Quiet (c : Core) : Prop := c.kernel.consoleLog = false

theorem takeover_silenced (e : Env) (htty : e.ttyOpen < 0) :
  Takeover e Quiet Quiet Silenced Silenced Any
  := by
  have hany : ∀ {P : Core → Prop}, ∀ c, P c → Any c := fun _ _ => trivial
  have htty : Spec (fun s => Silenced s.core) releaseTty (fun _ s => Silenced s.core)
      (fun s => Any s.core) := by
    apply Spec.bind (readCore_spec (fun c => c.journal.ttyFd) hany)
    intro fd
    split
    case isTrue hpos =>
      rintro s ⟨⟨hneg, -⟩, rfl⟩
      omega
    case isFalse =>
      apply Spec.pure
      rintro s ⟨hs, -⟩
      apply hs
  have hrestore : Spec (fun s => Silenced s.core) restoreVt (fun _ s => Silenced s.core)
      (fun s => Any s.core) := by
    refine restoreVt_spec hany (fun _ hc _ => hc) (fun _ hc _ => hc) ?_ htty
    apply releaseRescueTty_spec hany
    intro c hc
    apply hc
  constructor
  · apply forceBacklight_spec e hany
    · intro c f hc
      apply hc
    · intro c bs hc
      apply hc
  · apply stealVt_spec e hany hany
    · intro c hc
      exact ⟨by assumption, hc⟩
    · rintro c j hj ⟨hneg, hlog⟩
      refine ⟨?_, hlog⟩
      rw [hj]
      apply hneg
    · intro c a hc
      apply hc
  · apply performEvent_spec hany
    · intro c f hc
      apply hc
    · intro c vt _ hc
      apply hc
  · apply hrestore
  · apply hrestore
  · apply hany
  · apply hany

/-- A negative setting is taken for none at all: it is not put back. -/
theorem restoreSysrq_lost :
  Spec (fun s => OfSysrq (fun saved sysrq => saved < 0 ∧ sysrq = 0) s.core) restoreSysrq
    (fun _ s => OfSysrq (fun saved sysrq => saved < 0 ∧ sysrq = 0) s.core)
    (fun s => OfSysrq (fun saved sysrq => saved < 0 ∧ sysrq = 0) s.core)
  := by
  apply Spec.bind (readCore_spec Core.savedSysrq (fun _ hc => hc))
  intro saved
  split
  case isTrue hpos =>
    rintro s ⟨⟨hneg, -⟩, rfl⟩
    omega
  case isFalse =>
    apply Spec.pure
    rintro s ⟨hs, -⟩
    apply hs

theorem process_final (e : Env) (s : Sys) :
  (process e).final s = (armed e).final ((arm e).final s)
  := rfl

section Exit

variable (e : Env) (v : Int32) (brightness : Bytes → Int32) (answers : ℕ → ℤ)

theorem restored_of_open (htty : 0 ≤ e.ttyOpen) (hv : e.sysrqReads → 0 ≤ v.toInt) :
  Restored v ((process e).final (boot v brightness answers)).core
  := by
  have hstart : Recording v e.listing ((arm e).final (boot v brightness answers)).core := by
    rw [arm_core]
    refine ⟨⟨?_, ?_, List.nodup_nil, by simp⟩, rfl, by simp⟩
    · cases e.sysrqReads with
      | false => simp
      | true => simp
    · cases hreads : e.sysrqReads with
      | false => simp
      | true =>
          intro hneg
          have := hv hreads
          simp only [if_true] at hneg
          omega
  rw [process_final]
  exact ((takeover_restores e v htty).armed _ hstart).2.1

theorem not_restored_of_closed (htty : e.ttyOpen < 0) :
  ¬ Restored v ((process e).final (boot v brightness answers)).core
  := by
  have hstart : Quiet ((arm e).final (boot v brightness answers)).core := by
    rw [arm_core]
    rfl
  intro h
  have hquiet := ((takeover_silenced e htty).armed _ hstart).2.2
  rw [← process_final, h.consoleLog] at hquiet
  cases hquiet

theorem not_restored_of_neg (hreads : e.sysrqReads) (hv : v.toInt < 0) :
  ¬ Restored v ((process e).final (boot v brightness answers)).core
  := by
  have hstart : OfSysrq (fun saved sysrq => saved < 0 ∧ sysrq = 0)
      ((arm e).final (boot v brightness answers)).core := by
    rw [arm_core, hreads]
    exact ⟨hv, rfl⟩
  intro h
  have hzero := ((takeover_ofSysrq e restoreSysrq_lost).armed _ hstart).2.2
  rw [← process_final, h.sysrq] at hzero
  rw [hzero] at hv
  exact absurd hv (by decide)

/-- However the calls of the initialisation fail and whatever the main loop does, the process
ends with the machine put back exactly if `/dev/tty0` could be opened and the SysRq setting,
if it could be read, was not negative. -/
theorem exit_restores_iff :
  Restored v ((process e).final (boot v brightness answers)).core
    ↔ 0 ≤ e.ttyOpen ∧ (e.sysrqReads → 0 ≤ v.toInt)
  := by
  constructor
  · intro h
    constructor
    · by_contra hneg
      apply not_restored_of_closed e v brightness answers (by omega) h
    · intro hreads
      by_contra hneg
      apply not_restored_of_neg e v brightness answers hreads (by omega) h
  · intro h
    apply restored_of_open e v brightness answers h.1 h.2

end Exit

/-- On the laptop without access to the terminal, SysRq stays disabled and the console
silent. -/
theorem not_restored_laptop :
  ¬ Restored 176 ((process { laptop with ttyOpen := -1 }).final (laptopBoot 176)).core
    ∧ ((process { laptop with ttyOpen := -1 }).final (laptopBoot 176)).core.kernel.sysrq = 0
  := by
  refine ⟨?_, by decide +kernel⟩
  intro h
  exact absurd h.sysrq (by decide +kernel)

end Vt

end LnxCad
