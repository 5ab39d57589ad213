import LnxCad.Gui.Keyboard

/-!
# Ctrl+Alt+Del

`listen_for_cad` reads the events of the keyboard and keeps one flag for the two Ctrl keys,
one for Alt and one for Delete.  When all three are set it starts the graphical program,
unless the screen is locked, and clears them.

A flag that stands for two keys follows the one of them that was used last.  So the
combination is missed exactly when one Ctrl key is released while the other is held down.
-/

namespace LnxCad.Watchdog

/-- `KEY_LEFTALT`. -/
def keyLeftAlt : ℕ := 56

/-! ### The loop -/

/-- The flags of `listen_for_cad`. -/
structure CadFlags where
  ctrlPressed : Bool := false
  altPressed : Bool := false
  delPressed : Bool := false
deriving DecidableEq

/-- Either Ctrl key. -/
def isCtrl (code : ℕ) : Bool := code == keyLeftCtrl || code == keyRightCtrl

/-- What an event of the keyboard does to the flags. -/
def cadEvent (f : CadFlags) (ev : InputEvent) : CadFlags :=
  if ev.type ≠ evKey then f
  else if isCtrl ev.code then { f with ctrlPressed := ev.down }
  else if ev.code == keyLeftAlt then { f with altPressed := ev.down }
  else if ev.code == keyDelete then { f with delPressed := ev.down }
  else f

/-- Whether an event completes the combination. -/
def cadDetected (f : CadFlags) (ev : InputEvent) : Bool :=
  ev.type == evKey && (cadEvent f ev).ctrlPressed && (cadEvent f ev).altPressed
    && (cadEvent f ev).delPressed

/-- What is done about the combination. -/
inductive CadAct where
  | launch
  | refused
deriving DecidableEq

/-- An event that is read, and whether the screen is locked if it is asked for then. -/
structure CadInput where
  ev : InputEvent
  screenLocked : Bool
deriving DecidableEq

/-- The state of the loop: the flags, and what has been done. -/
structure Listener where
  flags : CadFlags := {}
  acts : List CadAct := []
deriving DecidableEq

/-- One turn of the loop. -/
def listenStep (l : Listener) (i : CadInput) : Listener :=
  if cadDetected l.flags i.ev then
    ⟨{}, l.acts ++ [if i.screenLocked then .refused else .launch]⟩
  else { l with flags := cadEvent l.flags i.ev }

/-- `listen_for_cad`, up to the event that is read last. -/
def listenForCad (inputs : List CadInput) : Listener := inputs.foldl listenStep {}

/-- The combination is recognised at an event behind others: something is done about it. -/
def TriggersAt (inputs : List CadInput) (i : CadInput) : Prop :=
  (listenForCad (inputs ++ [i])).acts ≠ (listenForCad inputs).acts

/-! ### Keys that are held -/

/-- Whether the latest event of some keys was a press or a repetition. -/
def latestDown (keys : ℕ → Bool) (evs : List InputEvent) : Bool :=
  match (evs.filter (fun ev => ev.type == evKey && keys ev.code)).getLast? with
  | some ev => ev.down
  | none => false

/-- A key is held. -/
def Held (code : ℕ) (evs : List InputEvent) : Prop := latestDown (· == code) evs = true

/-- Ctrl, Alt and Delete are held. -/
def CadHeld (evs : List InputEvent) : Prop :=
  (Held keyLeftCtrl evs ∨ Held keyRightCtrl evs) ∧ Held keyLeftAlt evs ∧ Held keyDelete evs

/-- The latest event of the Ctrl keys is the release of one while the other is held, and so
are Alt and Delete. -/
def CtrlMasked (evs : List InputEvent) : Prop :=
  CadHeld evs ∧ latestDown isCtrl evs = false

/-- The events since the flags were last cleared, behind some others. -/
def eventsSince (f : CadFlags) (evs : List InputEvent) : List CadInput → List InputEvent
  | [] => evs
  | i :: inputs =>
      if cadDetected f i.ev then eventsSince {} [] inputs
      else eventsSince (cadEvent f i.ev) (evs ++ [i.ev]) inputs

/-- The events since the flags were last cleared. -/
def sinceReset (inputs : List CadInput) : List InputEvent := eventsSince {} [] inputs

theorem latestDown_concat (keys : ℕ → Bool) (evs : List InputEvent) (ev : InputEvent) :
  latestDown keys (evs ++ [ev])
    = if ev.type == evKey && keys ev.code then ev.down else latestDown keys evs
  := by
  simp only [latestDown, List.filter_append, List.filter_cons, List.filter_nil]
  by_cases h : (ev.type == evKey && keys ev.code) = true
  · simp only [if_pos h]
    simp
  · simp only [if_neg h]
    simp

/-- If the latest event of the Ctrl keys is no release, one of them is held. -/
theorem held_of_latestDown_isCtrl {evs : List InputEvent} (h : latestDown isCtrl evs = true) :
  Held keyLeftCtrl evs ∨ Held keyRightCtrl evs
  := by
  induction evs using List.reverseRecOn with
  | nil => cases h
  | append_singleton evs ev ih =>
      unfold Held
      rw [latestDown_concat] at h ⊢
      rw [latestDown_concat]
      by_cases htype : ev.type = evKey
      · by_cases hleft : ev.code = keyLeftCtrl
        · left
          simpa [htype, hleft, isCtrl] using h
        · by_cases hright : ev.code = keyRightCtrl
          · right
            simpa [htype, hright, isCtrl] using h
          · simp only [htype, isCtrl, beq_eq_false_iff_ne.mpr hleft,
              beq_eq_false_iff_ne.mpr hright, Bool.or_false, Bool.and_false] at h ⊢
            exact ih h
      · simp only [beq_eq_false_iff_ne.mpr htype, Bool.false_and] at h ⊢
        exact ih h

/-! ### The flags -/

/-- The flags after some events, counted from when they were cleared. -/
def flagsOf (evs : List InputEvent) : CadFlags :=
  ⟨latestDown isCtrl evs, latestDown (· == keyLeftAlt) evs, latestDown (· == keyDelete) evs⟩

/-- An event does to the flags what it does to the keys they stand for. -/
theorem cadEvent_flagsOf (evs : List InputEvent) (ev : InputEvent) :
  cadEvent (flagsOf evs) ev = flagsOf (evs ++ [ev])
  := by
  simp only [flagsOf, latestDown_concat]
  unfold cadEvent
  by_cases htype : ev.type = evKey
  · simp only [htype, ne_eq, not_true_eq_false, if_false, beq_self_eq_true, Bool.true_and]
    by_cases hctrl : isCtrl ev.code = true
    · have halt : (ev.code == keyLeftAlt) = false := by
        obtain h | h : ev.code = keyLeftCtrl ∨ ev.code = keyRightCtrl := by simpa [isCtrl] using hctrl
        · rw [h]
          rfl
        · rw [h]
          rfl
      have hdel : (ev.code == keyDelete) = false := by
        obtain h | h : ev.code = keyLeftCtrl ∨ ev.code = keyRightCtrl := by simpa [isCtrl] using hctrl
        · rw [h]
          rfl
        · rw [h]
          rfl
      simp [hctrl, halt, hdel]
    · by_cases halt : ev.code = keyLeftAlt
      · have hdel : (keyLeftAlt == keyDelete) = false := rfl
        have hctrl' : isCtrl keyLeftAlt = false := rfl
        simp [halt, hdel, hctrl']
      · by_cases hdel : ev.code = keyDelete
        · have hctrl' : isCtrl keyDelete = false := rfl
          have halt' : (keyDelete == keyLeftAlt) = false := rfl
          simp [hdel, hctrl', halt']
        · simp [hctrl, halt, hdel]
  · simp [htype]

/-- All three flags are set. -/
def CadFlags.All (f : CadFlags) : Prop :=
  f.ctrlPressed = true ∧ f.altPressed = true ∧ f.delPressed = true

theorem cadDetected_iff (f : CadFlags) (ev : InputEvent) :
  cadDetected f ev = true ↔ ev.type = evKey ∧ (cadEvent f ev).All
  := by
  simp only [cadDetected, CadFlags.All, Bool.and_eq_true, beq_iff_eq]
  tauto

/-- The flags are those of the events since they were cleared, and are not all set. -/
theorem foldl_listenStep
    (inputs : List CadInput) {l : Listener} {evs : List InputEvent} (hflags : l.flags = flagsOf evs)
    (hnot : ¬ l.flags.All) :
  (inputs.foldl listenStep l).flags = flagsOf (eventsSince l.flags evs inputs)
    ∧ ¬ (inputs.foldl listenStep l).flags.All
  := by
  induction inputs generalizing l evs with
  | nil => exact ⟨hflags, hnot⟩
  | cons i inputs ih =>
      rw [List.foldl_cons, eventsSince, listenStep]
      split
      case isTrue =>
        apply ih
        · rfl
        · simp [CadFlags.All]
      case isFalse hquiet =>
        apply ih
        · dsimp only
          rw [hflags, cadEvent_flagsOf]
        · by_cases htype : i.ev.type = evKey
          · intro hall
            exact hquiet ((cadDetected_iff _ _).mpr ⟨htype, hall⟩)
          · dsimp only
            rw [cadEvent, if_pos htype]
            exact hnot

/-- The combination is recognised when the latest event of the Ctrl keys is no release, and
Alt and Delete are held. -/
theorem triggersAt_iff_all (inputs : List CadInput) (i : CadInput) :
  TriggersAt inputs i ↔ (flagsOf (sinceReset inputs ++ [i.ev])).All
  := by
  have hstart : ({} : Listener).flags = flagsOf [] := rfl
  obtain ⟨hflags, hnot⟩ := foldl_listenStep inputs (l := {}) hstart (by simp [CadFlags.All])
  have hlisten : (listenForCad inputs).flags = flagsOf (sinceReset inputs) := hflags
  have hdetected : TriggersAt inputs i ↔ cadDetected (flagsOf (sinceReset inputs)) i.ev = true := by
    have hstep : listenForCad (inputs ++ [i]) = listenStep (listenForCad inputs) i := by
      rw [listenForCad, List.foldl_append]
      rfl
    rw [TriggersAt, hstep, ← hlisten, listenStep]
    split
    case isTrue h => simp [h]
    case isFalse h => simp [h]
  rw [hdetected, cadDetected_iff, cadEvent_flagsOf]
  constructor
  · rintro ⟨-, hall⟩
    exact hall
  · intro hall
    refine ⟨?_, hall⟩
    -- an event of another kind leaves the flags alone, and they are not all set before it
    by_contra htype
    rw [← cadEvent_flagsOf, cadEvent, if_pos htype, ← hlisten] at hall
    exact hnot hall

/-! ### When the combination is recognised -/

/-- At every event, the combination is recognised exactly when its keys are held, unless
the latest event of the Ctrl keys is the release of one of them while the other is held. -/
theorem triggersAt_iff_cadHeld_iff (inputs : List CadInput) (i : CadInput) :
  (TriggersAt inputs i ↔ CadHeld (sinceReset inputs ++ [i.ev]))
    ↔ ¬ CtrlMasked (sinceReset inputs ++ [i.ev])
  := by
  rw [triggersAt_iff_all]
  generalize sinceReset inputs ++ [i.ev] = evs
  cases hctrl : latestDown isCtrl evs with
  | true =>
      have hheld := held_of_latestDown_isCtrl hctrl
      simp only [CadFlags.All, flagsOf, CtrlMasked, CadHeld, Held, hctrl] at hheld ⊢
      tauto
  | false =>
      simp only [CadFlags.All, flagsOf, CtrlMasked, hctrl]
      tauto

/-- The press of a key, with the screen not locked. -/
def down (code : ℕ) : CadInput := ⟨⟨evKey, code, 1⟩, false⟩

/-- The release of a key. -/
def up (code : ℕ) : CadInput := ⟨⟨evKey, code, 0⟩, false⟩

/-- Both Ctrl keys are pressed and the right one is released again: the left one is still
held, but Alt and Delete are not answered. -/
theorem not_triggersAt_right_released :
  ¬ (TriggersAt [down keyLeftCtrl, down keyRightCtrl, up keyRightCtrl, down keyLeftAlt] (down keyDelete)
    ↔ CadHeld (sinceReset [down keyLeftCtrl, down keyRightCtrl, up keyRightCtrl, down keyLeftAlt]
      ++ [(down keyDelete).ev]))
  := by
  have htrigger : ¬ TriggersAt [down keyLeftCtrl, down keyRightCtrl, up keyRightCtrl, down keyLeftAlt]
      (down keyDelete) := by
    unfold TriggersAt
    decide
  have hheld : CadHeld (sinceReset [down keyLeftCtrl, down keyRightCtrl, up keyRightCtrl,
      down keyLeftAlt] ++ [(down keyDelete).ev]) := by
    unfold CadHeld Held
    decide
  tauto

end LnxCad.Watchdog
