import LnxCad.Gui.Touches

/-!
# A password check needs a submission

The root prompt is submitted by a key, by its button or by its field; a key only leaves a
request behind, in `pwd_enter_pressed`, which is met where the prompt is drawn.  A prompt
that is dismissed in between leaves the request for the next prompt.  As long as no prompt
is opened with such a request pending, every check of a password follows a submission of
the prompt that is open.
-/

namespace LnxCad

/-- A check of a password. -/
def Event.IsVerify (e : Event) : Prop := ∃ password verified, e = .verifyRootPassword password verified

/-- An opening of the prompt. -/
def Event.IsOpening (e : Event) : Prop := ∃ source, e = .openPrompt source

/-- The prompt has been submitted since it was last opened, and the submission has not been
used up by a check. -/
def SubmittedSince (log : List Event) : Prop :=
  ∃ pre post, log = pre ++ .submitPrompt :: post ∧ ∀ e ∈ post, ¬ e.IsOpening ∧ ¬ e.IsVerify

/-- The openings of the prompt. -/
def openings (log : List Event) : List PromptSource :=
  log.filterMap fun e =>
    match e with
    | .openPrompt source => some source
    | _ => none

theorem openings_append (log es : List Event) :
  openings (log ++ es) = openings log ++ openings es
  := List.filterMap_append

theorem not_isOpening_of_openings_eq_nil {es : List Event} (h : openings es = []) :
  ∀ e ∈ es, ¬ e.IsOpening
  := by
  rintro e hmem ⟨source, rfl⟩
  have hnone := List.filterMap_eq_nil_iff.mp h _ hmem
  simp at hnone

theorem SubmittedSince.append {log es : List Event} (h : SubmittedSince log)
    (hes : ∀ e ∈ es, ¬ e.IsOpening ∧ ¬ e.IsVerify) :
  SubmittedSince (log ++ es)
  := by
  obtain ⟨pre, post, rfl, hpost⟩ := h
  refine ⟨pre, post ++ es, by simp, ?_⟩
  intro e hmem
  obtain hmem | hmem := List.mem_append.mp hmem
  · exact hpost e hmem
  · exact hes e hmem

theorem openings_eq_of_touches {A : List Aspect} {g g' : Gui} (h : Touches A g g')
    (hprompt : .prompt ∉ A) :
  openings g'.log = openings g.log
  := by
  apply h.emits.filterMap_eq
  intro e he
  cases e <;> first | rfl | exact absurd he hprompt

namespace Gui

/-! ### Requests -/

/-- Every check follows a submission of the prompt that is open. -/
def ChecksSubmitted (g : Gui) : Prop :=
  Recorded (fun pre e => e.IsVerify → SubmittedSince pre) g.log

/-- Every check so far was submitted, and so is a request that is pending. -/
structure Requested (g : Gui) : Prop where
  checks : ChecksSubmitted g
  pending : g.prompt.pwdEnterPressed = true → SubmittedSince g.log

/-- The request stays as it is, and no password is checked. -/
structure Passive (g g' : Gui) : Prop where
  pending : g'.prompt.pwdEnterPressed = g.prompt.pwdEnterPressed
  emits : Emits (fun e => ¬ e.IsVerify) g.log g'.log

namespace Passive

variable {g g' g'' : Gui}

theorem refl (g : Gui) :
  Passive g g
  := ⟨rfl, Emits.refl _ _⟩

theorem trans {u : Gui} (h : Passive g u) (h' : Passive u g') :
  Passive g g'
  := ⟨h'.pending.trans h.pending, h.emits.trans h'.emits⟩

instance isPreorder : IsPreorder Gui Passive where
  refl := refl
  trans _ _ _ := trans

/-- A change that emits nothing. -/
theorem silent (hpending : g'.prompt.pwdEnterPressed = g.prompt.pwdEnterPressed)
    (hlog : g'.log = g.log) :
  Passive g g'
  := by
  refine ⟨hpending, ?_⟩
  rw [hlog]
  apply Emits.refl

theorem touches {as : List Aspect} (h : Touches as g g') (hprompt : .prompt ∉ as) (hroot : .root ∉ as) :
  Passive g g'
  := by
  have hsame : g'.prompt = g.prompt := h.same .prompt hprompt
  refine ⟨by rw [hsame], ?_⟩
  apply h.emits.mono
  rintro e he ⟨password, verified, rfl⟩
  exact hroot he

theorem openPrompt (g : Gui) (source : PromptSource) :
  Passive g (g.openPrompt source)
  := by
  refine ⟨rfl, Emits.single ?_⟩
  rintro ⟨_, _, h⟩
  cases h

end Passive

namespace Requested

variable {g g' : Gui}

/-- Nothing is checked and no prompt opened. -/
theorem passive (h : Requested g) (hpassive : Passive g g') (hopen : openings g'.log = openings g.log) :
  Requested g'
  := by
  obtain ⟨es, hlog, hes⟩ := hpassive.emits
  have hnone : openings es = [] := by
    rw [hlog, openings_append] at hopen
    simpa using hopen
  refine ⟨?_, ?_⟩
  · apply h.checks.emits _ hpassive.emits
    intro pre e he hverify
    exact absurd hverify he
  · intro hpending
    rw [hlog]
    apply SubmittedSince.append
    · apply h.pending
      rw [← hpassive.pending, hpending]
    · intro e he
      exact ⟨not_isOpening_of_openings_eq_nil hnone e he, hes e he⟩

theorem touches {as : List Aspect} (h : Requested g) (ht : Touches as g g') (hprompt : .prompt ∉ as)
    (hroot : .root ∉ as) :
  Requested g'
  := by
  exact h.passive (Passive.touches ht hprompt hroot) (openings_eq_of_touches ht hprompt)

theorem silent (h : Requested g) (hpending : g'.prompt.pwdEnterPressed = g.prompt.pwdEnterPressed)
    (hlog : g'.log = g.log) :
  Requested g'
  := by
  apply h.passive (Passive.silent hpending hlog)
  rw [hlog]

end Requested

/-! ### The keyboard -/

variable {c : Cfg} {i : FrameIn} {g : Gui}

/-- The root toggle of the terminal is drawn and pressed, with the root mode off. -/
def terminalAsks (c : Cfg) (i : FrameIn) (g : Gui) : Bool :=
  g.panels.showTerminal && c.termVte && i.nkBegin .terminalTitle && i.nkButton .terminalRoot
    && !g.root.terminalRootMode

/-- The root toggle of the task manager is drawn and pressed, with the root mode off. -/
def taskManagerAsks (i : FrameIn) (g : Gui) : Bool :=
  g.panels.showTaskManager && i.nkBegin .taskManagerTitle && i.nkButton .taskManagerRoot
    && !g.root.taskmgrRootMode

/-- The checkbox of the Run dialog is drawn and pressed, while it is not set. -/
def runAsks (i : FrameIn) (g : Gui) : Bool :=
  g.panels.showRun && g.locals.snap.showRun && i.nkBegin .runCommand && i.nkButton .runAsRoot
    && !g.root.runAsRoot

/-- A toggle is pressed that opens the prompt, in the state in which the panels behind the
main menu are drawn. -/
def opensPrompt (c : Cfg) (i : FrameIn) (g : Gui) : Bool :=
  !g.panels.showPasswordPrompt && !g.root.rootAuthorized
    && (terminalAsks c i g || taskManagerAsks i g || runAsks i g)

/-- No prompt is opened, and `asks`, which tells what the panels still to come ask for, is as
before. -/
structure Unasked {β : Type} (asks : Gui → β) (g g' : Gui) : Prop where
  openings : openings g'.log = openings g.log
  prompt : g'.panels.showPasswordPrompt = g.panels.showPasswordPrompt
  authorized : g'.root.rootAuthorized = g.root.rootAuthorized
  asks : asks g' = asks g

namespace Unasked

variable {β : Type} {asks : Gui → β} {g g' g'' : Gui}

theorem refl (asks : Gui → β) (g : Gui) :
  Unasked asks g g
  := ⟨rfl, rfl, rfl, rfl⟩

theorem trans {u : Gui} (h : Unasked asks g u) (h' : Unasked asks u g') :
  Unasked asks g g'
  := ⟨h'.openings.trans h.openings, h'.prompt.trans h.prompt, h'.authorized.trans h.authorized,
    h'.asks.trans h.asks⟩

instance isPreorder (asks : Gui → β) : IsPreorder Gui (Unasked asks) where
  refl := refl asks
  trans _ _ _ := trans

theorem touches {as : List Aspect} (h : Touches as g g') (hprompt : .prompt ∉ as)
    (hpanels : .panels ∉ as) (hroot : .root ∉ as) (hasks : asks g' = asks g) :
  Unasked asks g g'
  := by
  have hp : g'.panels = g.panels := h.same .panels hpanels
  have hr : g'.root = g.root := h.same .root hroot
  exact ⟨openings_eq_of_touches h hprompt, by rw [hp], by rw [hr], hasks⟩

end Unasked

/-- A frame opens no prompt while a request is pending. -/
def OpensClean (c : Cfg) (i : FrameIn) (g : Gui) : Prop :=
  (handOver c i g).prompt.pwdEnterPressed = true →
    opensPrompt c i (mainMenu c i (handOver c i g)) = false

instance OpensClean.decidable (c : Cfg) (i : FrameIn) (g : Gui) : Decidable (OpensClean c i g) :=
  inferInstanceAs (Decidable (_ → _))

end Gui

end LnxCad
