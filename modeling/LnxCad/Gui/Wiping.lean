import LnxCad.Gui.Residue
import LnxCad.Gui.Trigger

/-!
# Passwords that outlive their dialog

At the top of a frame the passwords of a dialog that is not open are wiped, but only if one of
its texts is not empty.  A text that was deleted at once leaves its bytes behind and is then not
wiped.  To say when this happens, a record is kept of the edits made since each field was last
cleared: the passwords of a dialog that was closed with empty texts are gone exactly if the
edits went back through every length they had reached.
-/

namespace LnxCad

/-- The edits of each password field since it was last cleared, oldest first. -/
structure Trails where
  old : List Stroke := []
  new : List Stroke := []
  confirm : List Stroke := []
  root : List Stroke := []

namespace Gui

/-! ### The record -/

def noteClearing (g : Gui) (t : Trails) : Trails :=
  let t :=
    if !g.panels.showChangePassword
        && (0 < g.cp.oldPwd.len || 0 < g.cp.newPwd.len || 0 < g.cp.confirmPwd.len) then
      { t with old := [], new := [], confirm := [] }
    else t
  if !g.panels.showPasswordPrompt && 0 < g.prompt.rootPwd.len then { t with root := [] } else t

/-- The Change Password button clears the fields of its dialog. -/
def noteMenu (i : FrameIn) (g : Gui) (t : Trails) : Trails :=
  if menuDrawn i g && g.menuPressed i .changePassword 3 then
    { t with old := [], new := [], confirm := [] }
  else t

/-- A panel that opens the root prompt clears its field. -/
def noteOpening (panel : Gui → Gui) (g : Gui) (t : Trails) : Trails :=
  if !g.panels.showPasswordPrompt && (panel g).panels.showPasswordPrompt then { t with root := [] }
  else t

/-- The prompt is submitted where it is drawn. -/
def promptChecked (i : FrameIn) (g : Gui) : Bool :=
  i.nkBegin .rootPasswordClose && (i.nkButton .authenticate || g.prompt.pwdEnterPressed
    || i.nkBegin .rootPassword && (i.nkEdit .rootPwd).commited)

/-- The field of the prompt is edited, and cleared by a check. -/
def notePrompt (i : FrameIn) (g : Gui) (t : Trails) : Trails :=
  if g.panels.showPasswordPrompt then
    let t :=
      if i.nkBegin .rootPassword then
        { t with root := t.root ++ [pwdStroke false g.prompt.rootPwd.len (i.nkEdit .rootPwd)] }
      else t
    if promptChecked i g then { t with root := [] } else t
  else t

/-- The fields of the change-password dialog are edited. -/
def noteChangePassword (i : FrameIn) (g : Gui) (t : Trails) : Trails :=
  if g.panels.showChangePassword && g.locals.snap.showChangePassword
      && !g.panels.showPasswordPrompt && i.nkBegin .changePassword then
    { t with
      old := t.old ++ [pwdStroke g.cp.showPasswords g.cp.oldPwd.len (i.nkEdit .oldPwd)]
      new := t.new ++ [pwdStroke g.cp.showPasswords g.cp.newPwd.len (i.nkEdit .newPwd)]
      confirm :=
        t.confirm ++ [pwdStroke g.cp.showPasswords g.cp.confirmPwd.len (i.nkEdit .confirmPwd)] }
  else t

/-- Nothing to note. -/
def noteNothing (_ : Gui) (t : Trails) : Trails := t

/-- The stages of a frame, each with what it adds to the record. -/
def trackedStages (c : Cfg) (i : FrameIn) : List ((Gui → Gui) × (Gui → Trails → Trails)) :=
  [(beginFrame i, noteNothing), (periodic c i, noteNothing), (readMouse c, noteNothing),
    (filterMouse, noteNothing), (cornerIcons c, noteNothing), (clearPasswords, noteClearing),
    (readKeyboard c i, noteNothing), (mainMenu c i, noteMenu i),
    (terminalPanel c i, noteOpening (terminalPanel c i)),
    (taskManagerPanel c i, noteOpening (taskManagerPanel c i)),
    (runPanel i, noteOpening (runPanel i)), (promptPanel i, notePrompt i),
    (changePasswordPanel i, noteChangePassword i), (switchUserPanel i, noteNothing),
    (powerMenu i, noteNothing), (terminalIcon c i, noteNothing), (powerIcon, noteNothing),
    (armCooldown, noteNothing), (endFrame i, noteNothing)]

/-- A frame, with the record. -/
def trackedFrame (c : Cfg) (i : FrameIn) (x : Gui × Trails) : Gui × Trails :=
  runStages ((trackedStages c i).map tracked) x

theorem trackedFrame_fst (c : Cfg) (i : FrameIn) (x : Gui × Trails) :
  (trackedFrame c i x).1 = frame c i x.1
  := by
  have hstages : stages c i = (trackedStages c i).map Prod.fst := rfl
  rw [frame, hstages]
  apply runStages_tracked_fst

/-! ### The record tells what is left in the fields -/

/-- The bytes of a field are those its trail leaves. -/
structure FieldTracks (f : Field) (trail : List Stroke) : Prop where
  sound : f.Sound
  stains : f.stains = trail.foldl Stroke.stain ∅

namespace FieldTracks

variable {f : Field} {trail : List Stroke}

theorem clear (h : FieldTracks f trail) :
  FieldTracks f.clear []
  := ⟨h.sound.clear, Field.stains_clear f⟩

theorem edit (h : FieldTracks f trail) (showPasswords : Bool) (r : EditResult) :
  FieldTracks (editPwd showPasswords f r) (trail ++ [pwdStroke showPasswords f.len r])
  := by
  obtain ⟨hsound, hstains, -⟩ := h.sound.editPwd showPasswords r
  refine ⟨hsound, ?_⟩
  rw [hstains, h.stains, List.foldl_append]
  rfl

theorem blank_iff (h : FieldTracks f trail) :
  f.Blank ↔ Retraced trail
  := by
  rw [Field.blank_iff, h.stains, foldl_stain_eq_empty_iff]

end FieldTracks

/-- The record tells what is left in all fields. -/
structure Tracks (x : Gui × Trails) : Prop where
  old : FieldTracks x.1.cp.oldPwd x.2.old
  new : FieldTracks x.1.cp.newPwd x.2.new
  confirm : FieldTracks x.1.cp.confirmPwd x.2.confirm
  root : FieldTracks x.1.prompt.rootPwd x.2.root

/-- The password fields. -/
def passwords (g : Gui) : Field × Field × Field × Field :=
  (g.cp.oldPwd, g.cp.newPwd, g.cp.confirmPwd, g.prompt.rootPwd)

theorem Tracks.keep {g g' : Gui} {t : Trails} (h : Tracks (g, t)) (hp : passwords g' = passwords g) :
  Tracks (g', t)
  := by
  simp only [passwords, Prod.mk.injEq] at hp
  obtain ⟨hold, hnew, hconfirm, hroot⟩ := hp
  obtain ⟨h1, h2, h3, h4⟩ := h
  refine ⟨?_, ?_, ?_, ?_⟩
  · rw [← hold] at h1
    exact h1
  · rw [← hnew] at h2
    exact h2
  · rw [← hconfirm] at h3
    exact h3
  · rw [← hroot] at h4
    exact h4

theorem passwords_eq_of_touches {as : List Aspect} {g g' : Gui} (h : Touches as g g')
    (hcp : .cp ∉ as) (hprompt : .prompt ∉ as) :
  passwords g' = passwords g
  := by
  have hc : g'.cp = g.cp := h.same .cp hcp
  have hp : g'.prompt = g.prompt := h.same .prompt hprompt
  unfold passwords
  rw [hc, hp]

/-! ### The keyboard -/

variable {c : Cfg} {i : FrameIn}

theorem pressKey_passwords (g : Gui) (code unicode : ℕ) :
  passwords (pressKey code unicode g) = passwords g
  := by
  apply pressKey_cases (P := fun g' => passwords g' = passwords g)
  · rfl
  · unfold escape dismissPrompt
    dsimp only
    split_ifs
    all_goals rfl
  · intro _ _
    unfold promptActivate dismissPrompt
    dsimp only
    split_ifs
    all_goals rfl
  · unfold changePasswordActivate
    dsimp only
    split_ifs
    all_goals rfl
  · rfl
  · exact passwords_eq_of_touches (menuActivate_touches g code) (by simp) (by simp)
  · exact fun _ _ _ _ _ _ _ => rfl
  · rfl

theorem passwords_keyStable (v : Field × Field × Field × Field) :
  KeyStable fun g => passwords g = v
  := by
  constructor
  case press =>
    intro g code unicode h
    rw [pressKey_passwords, h]
  case terminal => exact fun _ h => h
  case emit => exact fun _ _ _ h => h
  case shift => exact fun _ _ h => h
  case ctrl => exact fun _ _ h => h
  case dev => exact fun _ _ h => h

theorem readKeyboard_passwords (g : Gui) :
  passwords (readKeyboard c i g) = passwords g
  := by
  unfold readKeyboard
  split
  · apply (passwords_keyStable _).kbdLoop
    exact passwords_eq_of_touches (ptyDispatch_touches i g) (by simp) (by simp)
  · rfl

/-! ### The clearing step -/

theorem clearPasswords_tracks {x : Gui × Trails} (h : Tracks x) :
  Tracks (tracked (clearPasswords, noteClearing) x)
  := by
  obtain ⟨g, t⟩ := x
  have hcp : Tracks ({ g with cp := { g.cp with
        oldPwd := g.cp.oldPwd.clear
        newPwd := g.cp.newPwd.clear
        confirmPwd := g.cp.confirmPwd.clear } },
      { t with old := [], new := [], confirm := [] }) :=
    ⟨h.old.clear, h.new.clear, h.confirm.clear, h.root⟩
  unfold tracked clearPasswords noteClearing
  dsimp only
  split_ifs
  · exact ⟨hcp.old, hcp.new, hcp.confirm, hcp.root.clear⟩
  · exact hcp
  · exact ⟨h.old, h.new, h.confirm, h.root.clear⟩
  · exact h

/-! ### The main menu -/

theorem menuPressed_menuSwitchUser (g : Gui) :
  (menuSwitchUser c i g).menuPressed i .changePassword 3 = g.menuPressed i .changePassword 3
  := by
  unfold menuSwitchUser
  split
  · unfold used menuPressed
    dsimp only
    split
    case isTrue h => simp [trigger, h]
    case isFalse => rfl
  · rfl

theorem menuPressed_eq_of_touches {as : List Aspect} {g g' : Gui} (h : Touches as g g')
    (hmenu : .menu ∉ as) (b : Button) (action : ℤ) :
  g'.menuPressed i b action = g.menuPressed i b action
  := by
  have hm : g'.menu = g.menu := h.same .menu hmenu
  unfold menuPressed
  rw [hm]

/-- The buttons before Change Password. -/
theorem menuUp_pressed (g : Gui) :
  (menuSignOut i (menuSwitchUser c i (menuLock c i g))).menuPressed i .changePassword 3
    = g.menuPressed i .changePassword 3
  := by
  rw [menuPressed_eq_of_touches (menuSignOut_touches i _) (by simp), menuPressed_menuSwitchUser,
    menuPressed_eq_of_touches (menuLock_touches c i g) (by simp)]

theorem menuChangePassword_tracks {g : Gui} {t : Trails} (h : Tracks (g, t)) :
  Tracks (menuChangePassword i g,
    if g.menuPressed i .changePassword 3 then { t with old := [], new := [], confirm := [] } else t)
  := by
  unfold menuChangePassword
  split
  case isTrue hpressed =>
    refine Tracks.keep ?_ (passwords_eq_of_touches (used_touches _ 3) (by simp) (by simp))
    exact ⟨h.old.clear, h.new.clear, h.confirm.clear, h.root⟩
  case isFalse hpressed => exact h

theorem mainMenu_tracks {x : Gui × Trails} (h : Tracks x) :
  Tracks (tracked (mainMenu c i, noteMenu i) x)
  := by
  obtain ⟨g, t⟩ := x
  have hup : Tracks (menuSignOut i (menuSwitchUser c i (menuLock c i g)), t) := by
    apply h.keep
    rw [passwords_eq_of_touches (menuSignOut_touches i _) (by simp) (by simp),
      passwords_eq_of_touches (menuSwitchUser_touches c i _) (by simp) (by simp),
      passwords_eq_of_touches (menuLock_touches c i g) (by simp) (by simp)]
  have hbuttons := menuChangePassword_tracks (i := i) hup
  rw [menuUp_pressed] at hbuttons
  unfold tracked noteMenu
  cases hmenu : menuDrawn i g with
  | true =>
      simp only [hmenu, Bool.true_and]
      rw [mainMenu_of_drawn hmenu]
      refine hbuttons.keep ?_
      simp only [menuStages, runStages_cons, runStages_nil]
      rw [passwords_eq_of_touches (menuCancel_touches i _) (by simp) (by simp),
        passwords_eq_of_touches (menuRunCommand_touches i _) (by simp) (by simp),
        passwords_eq_of_touches (menuTaskManager_touches c i _) (by simp) (by simp)]
  | false =>
      simp only [hmenu, Bool.false_and, Bool.false_eq_true, if_false]
      obtain heq | heq := mainMenu_of_not_drawn (c := c) hmenu
      · rw [heq]
        exact h.keep rfl
      · rw [heq]
        exact h

/-! ### The panels that open the prompt -/

/-- The prompt is left alone, or opened over a cleared field. -/
inductive Prompts (g g' : Gui) : Prop where
  | idle (hprompt : g'.panels.showPasswordPrompt = g.panels.showPasswordPrompt)
      (hcp : g'.cp = g.cp) (hroot : g'.prompt.rootPwd = g.prompt.rootPwd)
  | opened (hbefore : g.panels.showPasswordPrompt = false)
      (hafter : g'.panels.showPasswordPrompt = true)
      (hcp : g'.cp = g.cp) (hroot : g'.prompt.rootPwd = g.prompt.rootPwd.clear)

namespace Prompts

variable {g g' g'' : Gui}

theorem refl (g : Gui) :
  Prompts g g
  := .idle rfl rfl rfl

theorem trans {u : Gui} (h : Prompts g u) (h' : Prompts u g') :
  Prompts g g'
  := by
  cases h with
  | idle hprompt hcp hroot =>
      cases h' with
      | idle hprompt' hcp' hroot' =>
          exact .idle (hprompt'.trans hprompt) (hcp'.trans hcp) (hroot'.trans hroot)
      | opened hbefore hafter hcp' hroot' =>
          refine .opened (hprompt.symm.trans hbefore) hafter (hcp'.trans hcp) ?_
          rw [hroot', hroot]
  | opened hbefore hafter hcp hroot =>
      cases h' with
      | idle hprompt' hcp' hroot' =>
          exact .opened hbefore (hprompt'.trans hafter) (hcp'.trans hcp) (hroot'.trans hroot)
      | opened hbefore' hafter' hcp' hroot' =>
          rw [hafter] at hbefore'
          cases hbefore'

instance isPreorder : IsPreorder Gui Prompts where
  refl := refl
  trans _ _ _ := trans

theorem touches {as : List Aspect} (h : Touches as g g') (hpanels : .panels ∉ as) (hcp : .cp ∉ as)
    (hprompt : .prompt ∉ as) :
  Prompts g g'
  := by
  have hpan : g'.panels = g.panels := h.same .panels hpanels
  have hpr : g'.prompt = g.prompt := h.same .prompt hprompt
  exact .idle (by rw [hpan]) (h.same .cp hcp) (by rw [hpr])

theorem openPrompt (h : g.panels.showPasswordPrompt = false) (source : PromptSource) :
  Prompts g (g.openPrompt source)
  := .opened h rfl rfl rfl

theorem tracks {panel : Gui → Gui} (hpanel : ∀ g, Prompts g (panel g)) {x : Gui × Trails}
    (h : Tracks x) :
  Tracks (tracked (panel, noteOpening panel) x)
  := by
  obtain ⟨g, t⟩ := x
  unfold tracked noteOpening
  cases hpanel g with
  | idle hprompt hcp hroot =>
      simp only [hprompt, Bool.not_and_self, Bool.false_eq_true, if_false]
      apply h.keep
      unfold passwords
      rw [hcp, hroot]
  | opened hbefore hafter hcp hroot =>
      simp only [hbefore, hafter, Bool.not_false, Bool.and_self, if_true]
      refine ⟨?_, ?_, ?_, ?_⟩
      · simpa only [hcp] using h.old
      · simpa only [hcp] using h.new
      · simpa only [hcp] using h.confirm
      · simpa only [hroot] using h.root.clear

end Prompts

theorem terminalPanel_prompts (g : Gui) :
  Prompts g (terminalPanel c i g)
  := by
  have hshell : ∀ b : Bool, Prompts g { g.closeCurrentPty with root.terminalRootMode := b } := by
    intro b
    exact Prompts.touches (closeCurrentPty_setRoot_touches g _) (by simp) (by simp) (by simp)
  apply terminalPanel_rel
  · intro hdrawn _
    simp only [terminalDrawn, Bool.and_eq_true, Bool.not_eq_true'] at hdrawn
    apply terminalToggle_rel
    · apply hshell
    · intro _
      apply hshell
    · intro g mode
      exact Prompts.touches (launchTerminalShell_touches i g _ mode) (by simp) (by simp) (by simp)
    · exact fun _ _ _ => Prompts.openPrompt hdrawn.1.2 .terminal
  · exact fun g => Prompts.touches (terminalModes_touches c i g) (by simp) (by simp) (by simp)
  · exact fun g => .idle rfl rfl rfl

theorem taskManagerPanel_prompts (g : Gui) :
  Prompts g (taskManagerPanel c i g)
  := by
  apply taskManagerPanel_rel
  · intro hdrawn _
    simp only [taskManagerDrawn, Bool.and_eq_true, Bool.not_eq_true'] at hdrawn
    apply taskManagerToggle_rel
    · exact .idle rfl rfl rfl
    · exact fun _ => .idle rfl rfl rfl
    · exact fun _ _ _ => Prompts.openPrompt hdrawn.2 .taskManager
  · exact fun g => Prompts.touches (taskManagerBody_touches c i g) (by simp) (by simp) (by simp)
  · exact fun g => .idle rfl rfl rfl
  · exact fun g => Prompts.touches (consume_touches g) (by simp) (by simp) (by simp)

theorem runPanel_prompts (g : Gui) :
  Prompts g (runPanel i g)
  := by
  apply runPanel_rel
  · exact fun g => .idle rfl rfl rfl
  · exact fun g => Prompts.touches (editCommand_touches i g) (by simp) (by simp) (by simp)
  · intro hdrawn _ g' _ hprompt
    simp only [runDrawn, Bool.and_eq_true, Bool.not_eq_true'] at hdrawn
    apply runAsRootToggle_rel
    · exact .idle rfl rfl rfl
    · exact fun _ => .idle rfl rfl rfl
    · exact fun _ _ _ => Prompts.openPrompt (hprompt.trans hdrawn.2) .runCommand
  · intro isEnterPressed g
    exact Prompts.touches (runButton_touches i g isEnterPressed) (by simp) (by simp) (by simp)

/-! ### The dialogs -/

theorem editRootPwd_prompt (g : Gui) :
  (editRootPwd i g).prompt.rootPwd = editPwd false g.prompt.rootPwd (i.nkEdit .rootPwd)
    ∧ (editRootPwd i g).prompt.pwdEnterPressed
      = (g.prompt.pwdEnterPressed || (i.nkEdit .rootPwd).commited)
  := by
  unfold editRootPwd
  dsimp only
  split
  case isTrue h => simp [submitPrompt, emit, editPwd, h]
  case isFalse h => simp [editPwd, h]

theorem authenticate_tracks {g : Gui} {t : Trails} (h : Tracks (g, t)) :
  Tracks (authenticate i g,
    if i.nkButton .authenticate || g.prompt.pwdEnterPressed then { t with root := [] } else t)
  := by
  have hverify : ∀ {g : Gui}, Tracks (g, t) → Tracks (verify i g, { t with root := [] }) := by
    intro g h
    have hcheck : Tracks (checkPassword i g, { t with root := [] }) :=
      ⟨h.old, h.new, h.confirm, h.root.clear⟩
    unfold verify
    dsimp only
    split
    · refine Tracks.keep (g := (checkPassword i g).authorize) ?_
        (passwords_eq_of_touches (grant_touches i _) (by simp) (by simp))
      exact hcheck.keep rfl
    · exact hcheck
  unfold authenticate
  split
  · apply hverify
    apply h.keep
    unfold submitClicked
    split <;> rfl
  · exact h

/-- The field of the prompt, where its window is shown. -/
theorem rootPassword_tracks {g : Gui} {t : Trails} (h : Tracks (g, t)) :
  Tracks (window i .rootPassword (editRootPwd i) g,
      if i.nkBegin .rootPassword then
        { t with root := t.root ++ [pwdStroke false g.prompt.rootPwd.len (i.nkEdit .rootPwd)] }
      else t)
    ∧ (window i .rootPassword (editRootPwd i) g).prompt.pwdEnterPressed
      = (g.prompt.pwdEnterPressed || i.nkBegin .rootPassword && (i.nkEdit .rootPwd).commited)
  := by
  obtain ⟨hroot, hpending⟩ := editRootPwd_prompt (i := i) g
  have hcp : (editRootPwd i g).cp = g.cp := (editRootPwd_touches i g).same .cp (by simp)
  unfold window
  split
  case isTrue hbegin =>
    refine ⟨⟨?_, ?_, ?_, ?_⟩, ?_⟩
    · simpa only [hcp] using h.old
    · simpa only [hcp] using h.new
    · simpa only [hcp] using h.confirm
    · simpa only [hroot] using h.root.edit false (i.nkEdit .rootPwd)
    · rw [hpending, hbegin, Bool.true_and]
  case isFalse hbegin => simp [h, hbegin]

theorem promptPanel_tracks {x : Gui × Trails} (h : Tracks x) :
  Tracks (tracked (promptPanel i, notePrompt i) x)
  := by
  obtain ⟨g, t⟩ := x
  have hcancel : ∀ b g, passwords (cancelPrompt i b g) = passwords g
      ∧ (cancelPrompt i b g).prompt = g.prompt := by
    intro b g
    unfold cancelPrompt dismissPrompt
    dsimp only
    split_ifs
    all_goals exact ⟨rfl, rfl⟩
  have htitle : passwords (window i .rootPasswordTitle (cancelPrompt i .promptTitleClose) g)
        = passwords g
      ∧ (window i .rootPasswordTitle (cancelPrompt i .promptTitleClose) g).prompt = g.prompt := by
    unfold window
    split
    · apply hcancel
    · exact ⟨rfl, rfl⟩
  unfold tracked promptPanel notePrompt
  dsimp only
  split
  case isTrue =>
    obtain ⟨hedit, hpending⟩ := rootPassword_tracks (i := i) (h.keep htitle.1)
    rw [htitle.2] at hedit hpending
    simp only [runStages_cons, runStages_nil]
    unfold promptChecked
    rw [Bool.or_assoc, ← hpending]
    generalize window i .rootPassword _ _ = g' at hedit ⊢
    cases hbegin : i.nkBegin .rootPasswordClose with
    | true =>
        simp only [window, hbegin, Bool.true_and, if_true]
        exact (authenticate_tracks hedit).keep (hcancel _ _).1
    | false =>
        simp only [window, hbegin, Bool.false_and, Bool.false_eq_true, if_false]
        exact hedit
  case isFalse => exact h

theorem changePasswordBody_tracks {g : Gui} {t : Trails} (h : Tracks (g, t)) :
  Tracks (changePasswordBody i g,
    { t with
      old := t.old ++ [pwdStroke g.cp.showPasswords g.cp.oldPwd.len (i.nkEdit .oldPwd)]
      new := t.new ++ [pwdStroke g.cp.showPasswords g.cp.newPwd.len (i.nkEdit .newPwd)]
      confirm :=
        t.confirm ++ [pwdStroke g.cp.showPasswords g.cp.confirmPwd.len (i.nkEdit .confirmPwd)] })
  := by
  have hedits : Tracks (editConfirmPwd i (editNewPwd i (editOldPwd i g)),
      { t with
        old := t.old ++ [pwdStroke g.cp.showPasswords g.cp.oldPwd.len (i.nkEdit .oldPwd)]
        new := t.new ++ [pwdStroke g.cp.showPasswords g.cp.newPwd.len (i.nkEdit .newPwd)]
        confirm :=
          t.confirm ++ [pwdStroke g.cp.showPasswords g.cp.confirmPwd.len (i.nkEdit .confirmPwd)] }) :=
    ⟨h.old.edit _ _, h.new.edit _ _, h.confirm.edit _ _, h.root⟩
  apply hedits.keep
  unfold changePasswordBody showPasswordsToggle
  split <;> rfl

theorem changePasswordPanel_tracks {x : Gui × Trails} (h : Tracks x) :
  Tracks (tracked (changePasswordPanel i, noteChangePassword i) x)
  := by
  obtain ⟨g, t⟩ := x
  have hclose : ∀ b g, passwords (closeChangePassword i b g) = passwords g
      ∧ (closeChangePassword i b g).cp = g.cp := by
    intro b g
    unfold closeChangePassword
    split <;> exact ⟨rfl, rfl⟩
  have hbar : ∀ g, passwords (window i .changePasswordClose (changePasswordBar i) g) = passwords g := by
    intro g
    unfold window
    split
    · unfold changePasswordBar
      rw [(hclose _ _).1]
      unfold applyPassword
      dsimp only
      split_ifs
      all_goals rfl
    · rfl
  have htitle : passwords (window i .changePasswordTitle
          (closeChangePassword i .changePasswordTitleClose) g) = passwords g
      ∧ (window i .changePasswordTitle
          (closeChangePassword i .changePasswordTitleClose) g).cp = g.cp := by
    unfold window
    split
    · apply hclose
    · exact ⟨rfl, rfl⟩
  unfold tracked changePasswordPanel noteChangePassword
  dsimp only
  generalize (g.panels.showChangePassword && g.locals.snap.showChangePassword
    && !g.panels.showPasswordPrompt) = drawn
  cases drawn with
  | true =>
      simp only [if_true, Bool.true_and, runStages_cons, runStages_nil]
      refine Tracks.keep ?_ (hbar _)
      have hbody := changePasswordBody_tracks (i := i) (h.keep htitle.1)
      rw [htitle.2] at hbody
      generalize window i .changePasswordTitle _ g = g' at hbody htitle ⊢
      cases hbegin : i.nkBegin .changePassword with
      | true =>
          simp only [window, hbegin, if_true]
          exact hbody
      | false =>
          simp only [window, hbegin, Bool.false_eq_true, if_false]
          exact h.keep htitle.1
  | false => exact h

/-! ### Frames and runs -/

theorem trackedFrame_tracks {x : Gui × Trails} (h : Tracks x) :
  Tracks (trackedFrame c i x)
  := by
  have hquiet : ∀ {f : Gui → Gui} {as : List Aspect}, (∀ g, Touches as g (f g)) → .cp ∉ as →
      .prompt ∉ as → ∀ x, Tracks x → Tracks (tracked (f, noteNothing) x) := by
    intro f as ht hcp hprompt x hx
    exact hx.keep (passwords_eq_of_touches (ht x.1) hcp hprompt)
  apply runStages_invariant _ h
  simp only [trackedStages, List.map_cons, List.map_nil, List.forall_mem_cons]
  refine ⟨hquiet (beginFrame_touches i) (by simp) (by simp),
    hquiet (periodic_touches c i) (by simp) (by simp),
    hquiet (readMouse_touches c) (by simp) (by simp),
    hquiet filterMouse_touches (by simp) (by simp),
    hquiet (cornerIcons_touches c) (by simp) (by simp),
    fun x hx => clearPasswords_tracks hx,
    fun x hx => hx.keep (readKeyboard_passwords x.1),
    fun x hx => mainMenu_tracks hx,
    fun x hx => Prompts.tracks terminalPanel_prompts hx,
    fun x hx => Prompts.tracks taskManagerPanel_prompts hx,
    fun x hx => Prompts.tracks runPanel_prompts hx,
    fun x hx => promptPanel_tracks hx,
    fun x hx => changePasswordPanel_tracks hx,
    hquiet (switchUserPanel_touches i) (by simp [switchAspects]) (by simp [switchAspects]),
    hquiet (powerMenu_touches i) (by simp) (by simp),
    hquiet (terminalIcon_touches c i) (by simp) (by simp),
    hquiet powerIcon_touches (by simp) (by simp),
    hquiet armCooldown_touches (by simp) (by simp),
    hquiet (endFrame_touches i) (by simp) (by simp), by simp⟩

/-- The state in which a frame looks after the passwords. -/
def beforeClearing (c : Cfg) (i : FrameIn) (g : Gui) : Gui :=
  runStages [beginFrame i, periodic c i, readMouse c, filterMouse, cornerIcons c] g

/-- Behind the clearing step of a frame, the passwords of a dialog that is not open are
gone. -/
def Wipes (c : Cfg) (i : FrameIn) (g : Gui) : Prop :=
  let g := clearPasswords (beforeClearing c i g)
  (g.panels.showChangePassword = false →
      g.cp.oldPwd.Blank ∧ g.cp.newPwd.Blank ∧ g.cp.confirmPwd.Blank)
    ∧ (g.panels.showPasswordPrompt = false → g.prompt.rootPwd.Blank)

instance Wipes.decidable (c : Cfg) (i : FrameIn) (g : Gui) : Decidable (Wipes c i g) :=
  inferInstanceAs (Decidable (_ ∧ _))

/-- A dialog that the clearing step of a frame finds closed has a text left, or the edits of its
fields went back through every length they had reached. -/
def ClosedClean (c : Cfg) (i : FrameIn) (x : Gui × Trails) : Prop :=
  let g := beforeClearing c i x.1
  (g.panels.showChangePassword = false →
      g.cp.oldPwd.len = 0 → g.cp.newPwd.len = 0 → g.cp.confirmPwd.len = 0 →
      Retraced x.2.old ∧ Retraced x.2.new ∧ Retraced x.2.confirm)
    ∧ (g.panels.showPasswordPrompt = false → g.prompt.rootPwd.len = 0 → Retraced x.2.root)

theorem beforeClearing_touches (g : Gui) :
  Touches [.locals, .dev, .screen, .tm, .power, .frameCount, .mouse, .keys, .panels, .menu] g
    (beforeClearing c i g)
  := by
  apply runStages_rel
  simp only [List.forall_mem_cons]
  refine ⟨?_, ?_, ?_, ?_, ?_, by simp⟩
  · exact fun g => (beginFrame_touches i g).mono (by simp)
  · exact fun g => (periodic_touches c i g).mono (by simp)
  · exact fun g => (readMouse_touches c g).mono (by simp)
  · exact fun g => (filterMouse_touches g).mono (by simp)
  · exact fun g => (cornerIcons_touches c g).mono (by simp)

/-- The clearing step empties all fields of the change-password dialog, or none. -/
theorem clearPasswords_cp (g : Gui) :
  (clearPasswords g).cp
    = if !g.panels.showChangePassword
          && (0 < g.cp.oldPwd.len || 0 < g.cp.newPwd.len || 0 < g.cp.confirmPwd.len) then
        { g.cp with
          oldPwd := g.cp.oldPwd.clear
          newPwd := g.cp.newPwd.clear
          confirmPwd := g.cp.confirmPwd.clear }
      else g.cp
  := by
  unfold clearPasswords
  dsimp only
  split_ifs
  all_goals rfl

theorem clearPasswords_rootPwd (g : Gui) :
  (clearPasswords g).prompt.rootPwd
    = if !g.panels.showPasswordPrompt && 0 < g.prompt.rootPwd.len then g.prompt.rootPwd.clear
      else g.prompt.rootPwd
  := by
  unfold clearPasswords
  dsimp only
  split_ifs
  all_goals simp_all

theorem blank_clear (f : Field) :
  f.clear.Blank
  := by
  rw [Field.blank_iff, Field.stains_clear]

theorem wipes_cp_iff {g : Gui} {t : Trails} (h : Tracks (g, t))
    (hclosed : g.panels.showChangePassword = false) :
  ((clearPasswords g).cp.oldPwd.Blank ∧ (clearPasswords g).cp.newPwd.Blank
      ∧ (clearPasswords g).cp.confirmPwd.Blank)
    ↔ (g.cp.oldPwd.len = 0 → g.cp.newPwd.len = 0 → g.cp.confirmPwd.len = 0 →
      Retraced t.old ∧ Retraced t.new ∧ Retraced t.confirm)
  := by
  rw [clearPasswords_cp, hclosed]
  split
  case isTrue htext =>
    refine iff_of_true ⟨blank_clear _, blank_clear _, blank_clear _⟩ ?_
    intro h1 h2 h3
    simp [h1, h2, h3] at htext
  case isFalse htext =>
    rw [h.old.blank_iff, h.new.blank_iff, h.confirm.blank_iff]
    simp only [Bool.not_false, Bool.true_and, Bool.or_eq_true, decide_eq_true_eq, not_or,
      Nat.not_lt, Nat.le_zero] at htext
    simp [htext]

theorem wipes_root_iff {g : Gui} {t : Trails} (h : Tracks (g, t))
    (hclosed : g.panels.showPasswordPrompt = false) :
  (clearPasswords g).prompt.rootPwd.Blank ↔ (g.prompt.rootPwd.len = 0 → Retraced t.root)
  := by
  rw [clearPasswords_rootPwd, hclosed]
  split
  case isTrue htext =>
    refine iff_of_true (blank_clear _) ?_
    intro hlen
    simp [hlen] at htext
  case isFalse htext =>
    rw [h.root.blank_iff]
    simp only [Bool.not_false, Bool.true_and, decide_eq_true_eq, Nat.not_lt, Nat.le_zero] at htext
    simp [htext]

theorem wipes_iff {x : Gui × Trails} (h : Tracks x) :
  Wipes c i x.1 ↔ ClosedClean c i x
  := by
  obtain ⟨g, t⟩ := x
  have hbefore : Tracks (beforeClearing c i g, t) :=
    h.keep (passwords_eq_of_touches (beforeClearing_touches g) (by simp) (by simp))
  have hpanels : ∀ g, (clearPasswords g).panels = g.panels :=
    fun g => (clearPasswords_touches g).same .panels (by simp)
  unfold Wipes ClosedClean
  dsimp only
  rw [hpanels]
  exact and_congr (forall_congr' fun hclosed => wipes_cp_iff hbefore hclosed)
    (forall_congr' fun hclosed => wipes_root_iff hbefore hclosed)

theorem start_tracks (c : Cfg) (s : Start) :
  Tracks (start c s, {})
  := by
  have hfield : FieldTracks (.zero 256) [] := ⟨Field.Sound.zero, Field.stains_zero 256⟩
  unfold start
  dsimp only
  split
  · refine Tracks.keep ?_ (passwords_eq_of_touches (launchTerminalShell_touches _ _ _ _) (by simp)
      (by simp))
    exact ⟨hfield, hfield, hfield, hfield⟩
  · exact ⟨hfield, hfield, hfield, hfield⟩

/-- The passwords of a closed dialog are gone behind the clearing step of every frame of a run,
exactly if every dialog was closed with a text left, or after edits that went back through every
length they had reached. -/
theorem runMeets_wipes_iff (c : Cfg) (s : Start) (is : List FrameIn) :
  RunMeets Gui.running (frame c) (Wipes c) is (start c s)
    ↔ RunMeets (fun x => x.1.running) (trackedFrame c) (ClosedClean c) is (start c s, {})
  := by
  apply runMeets_iff_of_simulates (v := Prod.fst) (P := Tracks) _ _ _ is (start_tracks c s)
  · exact trackedFrame_fst c
  · exact fun i x h => trackedFrame_tracks h
  · exact fun i x h => wipes_iff h

/-- The toolkit edits the field of the new password. -/
def editNew (edits : List NkEdit) : FrameIn :=
  { nkEdit := fun f => if f == .newPwd then { edits := edits } else {} }

/-- A password is typed, deleted as a whole, and the dialog closed. -/
def typeAndDelete : List FrameIn :=
  [openChangePassword,
    editNew [.insert 0 ⟨97, by decide⟩, .insert 1 ⟨98, by decide⟩, .insert 2 ⟨99, by decide⟩],
    editNew [.delete 0 3], { keys := [press keyEsc] }, {}]

/-- The second and third character of the password are still there. -/
theorem not_wipes_deleted :
  ¬ RunMeets Gui.running (frame desktop) (Wipes desktop) typeAndDelete desktopStart
  := by decide +kernel

end Gui

end LnxCad
