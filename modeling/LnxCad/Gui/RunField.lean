import LnxCad.Gui.Touches

/-!
# The command a Run dialog executes

The dialog shows the text below the length of its field, and copies the string stored in
the field's buffer.  The toolkit writes no terminating zero, so the two agree exactly as
long as the text is as long as it ever was.
-/

namespace LnxCad

/-! ### The history of the field -/

/-- The edits of the command field an event reports. -/
def Event.runEdits : Event → List NkEdit
  | .editRun edits => edits
  | _ => []

/-- The edits of the command field so far. -/
def runEdits (log : List Event) : List NkEdit := log.flatMap Event.runEdits

/-- The command field after a sequence of edits. -/
def commandAfter (edits : List NkEdit) : Field := edits.foldl (Field.apply 255) (.zero 256)

/-- The length of the text after a sequence of edits. -/
def commandLen (edits : List NkEdit) : ℕ := edits.foldl (NkEdit.lenAfter 255) 0

theorem commandAfter_len (edits : List NkEdit) :
  (commandAfter edits).len = commandLen edits
  := by
  have hfold : ∀ f : Field,
      (edits.foldl (Field.apply 255) f).len = edits.foldl (NkEdit.lenAfter 255) f.len := by
    induction edits with
    | nil =>
        intro f
        rfl
    | cons e es ih =>
        intro f
        rw [List.foldl_cons, ih, apply_len, List.foldl_cons]
  apply hfold

theorem commandAfter_highWater (edits : List NkEdit) :
  HighWater 255 (commandAfter edits) (peak 255 edits)
  := by
  have h := HighWater.foldl edits (HighWater.zero (show 0 < 255 by omega) (show 255 ≤ 256 by omega))
  rw [Nat.zero_max] at h
  exact h

/-- What the toolkit does in a frame continues the history: the length is never cut. -/
theorem nkEditString_commandAfter (edits edits' : List NkEdit) :
  nkEditString 255 edits' (commandAfter edits) = commandAfter (edits ++ edits')
  := by
  have h := commandAfter_highWater edits
  have hlen := h.len_le
  have hcap := h.lt_cap
  have hcut : min (commandAfter edits).len (255 - 1) = (commandAfter edits).len := by omega
  rw [nkEditString, hcut, commandAfter, commandAfter, List.foldl_append]

/-- The string copied from the field is the text shown exactly if the text is as long as
it ever was. -/
theorem copied_eq_text_iff (edits : List NkEdit) (dst : Bytes) :
  cstr (safeCopy dst (commandAfter edits).memory 256) = (commandAfter edits).text
    ↔ commandLen edits = peak 255 edits
  := by
  have h := commandAfter_highWater edits
  have hcap := h.lt_cap
  have huncut : (cstr (commandAfter edits).memory).take (256 - 1)
      = cstr (commandAfter edits).memory := by
    apply List.take_of_length_le
    rw [h.cstr_eq, List.length_take]
    omega
  rw [cstr_safeCopy _ _ (by omega), huncut, h.cstr_eq_text_iff, commandAfter_len]

/-! ### Runs -/

/-- What a copy of the command looks like, given the history: it is the string stored in the
field, beside the text the field shows. -/
def CopiesField (pre : List Event) (e : Event) : Prop :=
  ∀ runCmd shown, e = .runReady runCmd shown →
    (∃ dst, runCmd = cstr (safeCopy dst (commandAfter (runEdits pre)).memory 256))
      ∧ shown = (commandAfter (runEdits pre)).text

namespace Gui

variable {c : Cfg} {i : FrameIn} {g g' : Gui}

/-- The field is what its history makes it, every copy was of the field as it was then, a
command that is ready was copied, and none was executed yet. -/
structure RunInv (g : Gui) : Prop where
  field : g.run.command = commandAfter (runEdits g.log)
  copies : Recorded CopiesField g.log
  ready : g.run.runCommandReady → ∃ shown, .runReady (cstr g.run.runCmd) shown ∈ g.log
  unexecuted : ∀ e ∈ g.log, e.aspect ≠ .execute

theorem runEdits_append (log es : List Event) :
  runEdits (log ++ es) = runEdits log ++ runEdits es
  := List.flatMap_append

theorem RunInv.touches {as : List Aspect} (h : RunInv g) (ht : Touches as g g')
    (has : .run ∉ as ∧ .execute ∉ as) :
  RunInv g'
  := by
  have hrun : g'.run = g.run := ht.same .run has.1
  have hother : ∀ e : Event, e.aspect ∈ as → e.runEdits = [] ∧ ∀ pre, CopiesField pre e := by
    intro e he
    have hne : e.aspect ≠ .run := by
      intro heq
      apply has.1 (heq ▸ he)
    cases e with
    | editRun edits => exact absurd rfl hne
    | runReady runCmd shown => exact absurd rfl hne
    | _ => exact ⟨rfl, fun _ _ _ heq => by cases heq⟩
  have hedits : runEdits g'.log = runEdits g.log := by
    obtain ⟨es, hlog, hes⟩ := ht.emits
    have hnil : runEdits es = [] := by
      apply List.flatMap_eq_nil_iff.mpr
      intro e he
      apply (hother e (hes e he)).1
    rw [hlog, runEdits_append, hnil, List.append_nil]
  constructor
  · rw [hrun, hedits]
    apply h.field
  · apply h.copies.emits _ ht.emits
    intro pre e he
    apply (hother e he).2
  · rw [hrun]
    intro hready
    obtain ⟨shown, hmem⟩ := h.ready hready
    use shown
    apply ht.emits.subset hmem
  · obtain ⟨es, hlog, hes⟩ := ht.emits
    rw [hlog]
    intro e he
    obtain he | he := List.mem_append.mp he
    · apply h.unexecuted e he
    · intro heq
      apply has.2 (heq ▸ hes e he)

theorem editCommand_runInv (h : RunInv g) :
  RunInv (editCommand i g)
  := by
  constructor
  · have hedits : runEdits (editCommand i g).log = runEdits g.log ++ (i.nkEdit .command).edits := by
      simp [editCommand, emit, runEdits, Event.runEdits]
    rw [hedits, ← nkEditString_commandAfter, ← h.field]
    rfl
  · apply h.copies.concat
    intro _ _ heq
    cases heq
  · intro hready
    obtain ⟨shown, hmem⟩ := h.ready hready
    use shown
    apply List.mem_append_left _ hmem
  · intro e he
    obtain he | he := List.mem_append.mp he
    · apply h.unexecuted e he
    · rw [List.mem_singleton.mp he]
      simp [Event.aspect]

theorem runButton_runInv {isEnterPressed : Bool} (h : RunInv g) :
  RunInv (runButton i isEnterPressed g)
  := by
  unfold runButton
  split
  · dsimp only
    constructor
    · have hedits : ∀ runCmd shown,
          runEdits (g.log ++ [.runReady runCmd shown]) = runEdits g.log := by
        intro runCmd shown
        simp [runEdits, Event.runEdits]
      simp only [stop, emit, hedits]
      apply h.field
    · apply h.copies.concat
      intro runCmd shown heq
      cases heq
      rw [← h.field]
      exact ⟨⟨_, rfl⟩, rfl⟩
    · intro _
      use g.run.command.text
      simp [stop, emit]
    · intro e he
      obtain he | he := List.mem_append.mp he
      · apply h.unexecuted e he
      · rw [List.mem_singleton.mp he]
        simp [Event.aspect]
  · apply h

theorem runPanel_runInv (h : RunInv g) :
  RunInv (runPanel i g)
  := by
  refine runPanel_rel (R := Carries RunInv) ?_ ?_ ?_ ?_ h
  · intro g h
    apply h.touches (setPanels_touches g _)
    simp
  · intro g h
    apply editCommand_runInv h
  · intro _ _ g _ _ h
    apply h.touches (runAsRootToggle_touches i g)
    simp [toggleAspects]
  · intro isEnterPressed g h
    apply runButton_runInv h

theorem frame_runInv (h : RunInv g) :
  RunInv (frame c i g)
  := by
  have hinput := h.touches (handOver_touches c i g) (by simp [inputAspects, keyAspects])
  have hearly := hinput.touches (beforeTaskManager_touches c i g)
    (by simp [earlyAspects, menuAspects, toggleAspects])
  have hpanel := hearly.touches (taskManagerPanel_touches c i _) (by simp [taskManagerAspects])
  have hrun := runPanel_runInv (i := i) hpanel
  have hclosing := hrun.touches (closingStages_touches c i _) (by simp [closingAspects])
  rw [frame_eq, lateStages, runStages_cons]
  apply hclosing.touches (endFrame_touches i _)
  simp

theorem reachable_runInv (h : Reachable c g) :
  RunInv g
  := by
  apply h.invariant
  · intro s
    have hinit : ∀ {g : Gui}, g.log = [] → g.run = {} → RunInv g := by
      intro g hlog hrun
      constructor
      · rw [hlog, hrun]
        rfl
      · rw [hlog]
        apply Recorded.nil
      · rw [hrun]
        intro hready
        cases hready
      · rw [hlog]
        simp
    unfold start
    dsimp only
    split
    · refine RunInv.touches ?_ (launchTerminalShell_touches _ _ _ _) (by simp)
      exact hinit rfl rfl
    · exact hinit rfl rfl
  · intro i g _ hg
    apply frame_runInv hg

/-- Whenever the command is copied, the copy is the text shown exactly if the text is as long
as it ever was; and what is executed in the end is such a copy. -/
theorem copied_eq_shown_iff (c : Cfg) (g : Gui) (h : Reachable c g) :
  (∀ pre runCmd shown post, g.log = pre ++ .runReady runCmd shown :: post →
      shown = (commandAfter (runEdits pre)).text
        ∧ (runCmd = shown ↔ commandLen (runEdits pre) = peak 255 (runEdits pre)))
    ∧ ∀ cmd asRoot, .executeCommand cmd asRoot ∈ g.afterLoop.log →
      ∃ pre shown post, g.log = pre ++ .runReady cmd shown :: post
  := by
  have hinv := reachable_runInv h
  constructor
  · intro pre runCmd shown post hlog
    obtain ⟨⟨dst, hcmd⟩, hshown⟩ := hinv.copies pre _ post hlog runCmd shown rfl
    refine ⟨hshown, ?_⟩
    rw [hcmd, hshown]
    apply copied_eq_text_iff
  · intro cmd asRoot hmem
    have hclosed := hinv.touches (closeCurrentPty_touches g) (by simp)
    have hrun : g.closeCurrentPty.run = g.run := (closeCurrentPty_touches g).same .run (by simp)
    unfold afterLoop at hmem
    dsimp only at hmem
    split at hmem
    case isTrue hready =>
      obtain hmem | hmem := List.mem_append.mp hmem
      · exact absurd rfl (hclosed.unexecuted _ hmem)
      · obtain ⟨rfl, -⟩ := Event.executeCommand.inj (List.mem_singleton.mp hmem)
        rw [hrun] at hready ⊢
        simp only [Bool.and_eq_true] at hready
        obtain ⟨shown, hshown⟩ := hinv.ready hready.1
        obtain ⟨pre, post, hlog⟩ := List.append_of_mem hshown
        exact ⟨pre, shown, post, hlog⟩
    case isFalse => exact absurd rfl (hclosed.unexecuted _ hmem)

/-- A character typed. -/
def typed (pos : ℕ) (c : Char) : NkEdit :=
  if h : UInt8.ofNat c.toNat ≠ 0 then .insert pos ⟨_, h⟩ else .delete 0 0

/-- `ls` is typed and run. -/
def runLs : FrameIn :=
  { nkEdit := fun _ => { edits := [typed 0 'l', typed 1 's'], commited := true } }

/-- `lsx` is typed, the last character is taken back, and the command is run. -/
def runLsx : FrameIn :=
  { nkEdit := fun _ =>
      { edits := [typed 0 'l', typed 1 's', typed 2 'x', .delete 2 1], commited := true } }

theorem copied_eq_shown_iff_desktop :
  .executeCommand (chars ['l', 's']) false
      ∈ (runFrames desktop [openRun, runLs] desktopStart).afterLoop.log
    ∧ ∃ pre shown post, (runFrames desktop [openRun, runLs] desktopStart).log
      = pre ++ .runReady (chars ['l', 's']) shown :: post
  := by
  have hmem : .executeCommand (chars ['l', 's']) false
      ∈ (runFrames desktop [openRun, runLs] desktopStart).afterLoop.log := by decide +kernel
  exact ⟨hmem, (copied_eq_shown_iff desktop _ (desktop_reachable _)).2 _ _ hmem⟩

/-- The dialog shows `ls` and copies and executes `lsx`. -/
theorem copied_ne_shown_desktop :
  Reachable desktop (runFrames desktop [openRun, runLsx] desktopStart)
    ∧ ¬ (∀ runCmd shown,
      .runReady runCmd shown ∈ (runFrames desktop [openRun, runLsx] desktopStart).log →
        runCmd = shown)
    ∧ .executeCommand (chars ['l', 's', 'x']) false
      ∈ (runFrames desktop [openRun, runLsx] desktopStart).afterLoop.log
  := by
  refine ⟨desktop_reachable _, ?_, by decide +kernel⟩
  intro h
  have hmem : .runReady (chars ['l', 's', 'x']) (chars ['l', 's'])
      ∈ (runFrames desktop [openRun, runLsx] desktopStart).log := by decide +kernel
  exact absurd (h _ _ hmem) (by decide)

end Gui

end LnxCad
