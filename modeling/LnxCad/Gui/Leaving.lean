import LnxCad.Gui.OnePanel

/-!
# Escape leads out

Whatever is open, Escape closes one panel or leaves the program, and a frame in which nothing is
clicked opens none.  So from any state the program can be left with the keyboard alone: one press
for every open panel, and one more.
-/

namespace LnxCad

namespace Panels

/-- The number of panels open, the root prompt included. -/
def openCount (p : Panels) : ℕ :=
  p.showTerminal.toNat + p.showRun.toNat + p.showTaskManager.toNat + p.showPowerMenu.toNat
    + p.showChangePassword.toNat + p.showSwitchUser.toNat + p.showPasswordPrompt.toNat

theorem toNat_le_of_imp {b b' : Bool} (h : b' = true → b = true) :
  b'.toNat ≤ b.toNat
  := by
  cases b' with
  | false => exact Nat.zero_le _
  | true => rw [h rfl]

theorem openCount_le {p p' : Panels} (h : Shrinks p p')
    (hprompt : p'.showPasswordPrompt = true → p.showPasswordPrompt = true) :
  p'.openCount ≤ p.openCount
  := by
  have hterminal := toNat_le_of_imp (h .terminal)
  have hrun := toNat_le_of_imp (h .run)
  have htaskManager := toNat_le_of_imp (h .taskManager)
  have hpower := toNat_le_of_imp (h .powerMenu)
  have hchange := toNat_le_of_imp (h .changePassword)
  have hswitch := toNat_le_of_imp (h .switchUser)
  have hprompt := toNat_le_of_imp hprompt
  simp only [shows] at hterminal hrun htaskManager hpower hchange hswitch
  unfold openCount
  omega

end Panels

open Panels

/-- Escape is the only key that is pressed, repeated or released, and nothing is clicked. -/
structure EscapeOnly (i : FrameIn) : Prop where
  keys : ∀ ev ∈ i.keys, ev.type = evKey ∧ ev.code = keyEsc
  few : i.keys.length ≤ 64
  mouse : i.mouse = []
  buttons : ∀ b, i.nkButton b = false

/-- The presses and repetitions among some events. -/
def presses (evs : List InputEvent) : ℕ := evs.countP InputEvent.down

/-- The presses in some frames. -/
def allPresses (is : List FrameIn) : ℕ := (is.map fun i => presses i.keys).sum

namespace Gui

variable {c : Cfg} {i : FrameIn} {g : Gui}

/-! ### The key -/

/-- The program is being left, or `n` of the panels that were open are closed. -/
def LeavesOr (m n : ℕ) (g : Gui) : Prop := g.running = false ∨ g.panels.openCount + n ≤ m

theorem escape_leavesOr {m n : ℕ} (h : LeavesOr m n g) :
  LeavesOr m (n + 1) g.escape
  := by
  have hrunning : g.running = false → g.escape.running = false := by
    intro hstopped
    unfold escape dismissPrompt
    dsimp only
    split_ifs
    all_goals first | exact hstopped | rfl
  have hcount : g.escape.running = false ∨ g.escape.panels.openCount + 1 ≤ g.panels.openCount := by
    unfold escape dismissPrompt openCount
    dsimp only
    split_ifs
    all_goals
      first
        | exact Or.inl rfl
        | right
          simp only [*, Bool.toNat_true, Bool.toNat_false]
          omega
  obtain hstopped | hn := h
  · exact Or.inl (hrunning hstopped)
  · obtain hstopped | hclosed := hcount
    · exact Or.inl hstopped
    · right
      omega

theorem keyEvent_escape {ev : InputEvent} (htype : ev.type = evKey) (hcode : ev.code = keyEsc) :
  keyEvent c ev g =
    if ev.down then
      if g.panels.showTerminal && c.termVte && !g.locals.isModal then
        { g with panels.showTerminal := false }
      else g.escape
    else g
  := by
  have hedit : editKey keyEsc ev.down g = g := by
    unfold editKey
    dsimp only
    split_ifs
    all_goals first | rfl | contradiction
  unfold keyEvent
  rw [hcode, if_neg (by simpa using htype), if_neg (by decide), if_neg (by decide), hedit]
  cases ev.down with
  | true =>
      dsimp only
      rw [Bool.true_and, if_pos rfl, if_pos rfl]
      rfl
  | false => rfl

/-- An event of the key. -/
theorem keyEvent_leavesOr {m n : ℕ} {ev : InputEvent} (htype : ev.type = evKey)
    (hcode : ev.code = keyEsc) (h : LeavesOr m n g) :
  LeavesOr m (n + presses [ev]) (keyEvent c ev g)
    ∧ (keyEvent c ev g).menu = g.menu
  := by
  rw [keyEvent_escape htype hcode, presses, List.countP_singleton]
  split
  case isTrue =>
    split
    case isTrue hterminal =>
      rw [Bool.and_eq_true, Bool.and_eq_true] at hterminal
      refine ⟨?_, rfl⟩
      apply h.imp_right
      intro hn
      simp only [openCount, hterminal.1.1, Bool.toNat_true, Bool.toNat_false] at hn ⊢
      omega
    case isFalse =>
      refine ⟨escape_leavesOr h, ?_⟩
      exact (escape_touches g).same .menu (by simp)
  case isFalse => exact ⟨h, rfl⟩

theorem kbdLoop_leavesOr {m n : ℕ} {pending : List InputEvent} {kbdLimit : ℕ}
    (hkeys : ∀ ev ∈ pending, ev.type = evKey ∧ ev.code = keyEsc)
    (hlimit : kbdLimit + pending.length ≤ 64) (h : LeavesOr m n g) :
  LeavesOr m (n + presses pending) (kbdLoop c pending kbdLimit g)
    ∧ (kbdLoop c pending kbdLimit g).menu = g.menu
    ∧ (kbdLoop c pending kbdLimit g).dev = { g.dev with kbd := [] }
  := by
  induction pending generalizing n kbdLimit g with
  | nil => exact ⟨h, rfl, rfl⟩
  | cons ev rest ih =>
      obtain ⟨htype, hcode⟩ := hkeys ev List.mem_cons_self
      rw [List.length_cons] at hlimit
      let g' := (g.emit (.kbdRead ev)).emit (.kbdDispatch ev)
      have hdev : (keyEvent c ev g').dev = g.dev :=
        (keyEvent_touches c g' ev).same .dev (by simp [keyAspects])
      obtain ⟨hstep, hmenu⟩ := keyEvent_leavesOr (c := c) (g := g') htype hcode (by exact h)
      have hlimit' : kbdLimit + 1 + rest.length ≤ 64 := by omega
      obtain ⟨hrest, hmenu', hdev'⟩ :=
        ih (fun ev hev => hkeys ev (List.mem_cons_of_mem _ hev)) hlimit' hstep
      unfold kbdLoop
      dsimp only
      rw [if_pos (by omega)]
      refine ⟨?_, hmenu'.trans hmenu, by rw [hdev', hdev]⟩
      rw [add_assoc, presses, presses, ← List.countP_append] at hrest
      exact hrest

/-! ### The input of a frame -/

theorem readMouse_idle (h : g.dev.mouse = []) :
  readMouse c g = { g with mouse.prevMouseBtnLeft := g.mouse.mouseBtnLeft }
  := by
  have hdev : ({ g.dev with mouse := [] } : Devices) = g.dev := by rw [← h]
  unfold readMouse
  dsimp only
  rw [h]
  split
  · unfold mouseLoop
    dsimp only
    rw [hdev]
  · rfl

/-- The button is not seen to go down. -/
def NoPress (m : Mouse) : Prop := m.mouseBtnLeft = true → m.prevMouseBtnLeft = true

/-- The filters let no press appear. -/
theorem filterMouse_noPress (h : g.mouse.prevMouseBtnLeft = g.mouse.mouseBtnLeft) :
  NoPress (filterMouse g).mouse
  := by
  have hidle : NoPress (mouseIdle g.locals.bytesReadThisFrame g.mouse) := by
    unfold mouseIdle NoPress
    dsimp only
    split_ifs
    all_goals simp [h]
  have hmoved : ∀ g : Gui, NoPress g.mouse → NoPress (mouseMoved g).mouse := by
    intro g hg
    unfold mouseMoved
    split
    · exact hg
    · exact hg
  have hignore : ∀ m, NoPress m → NoPress (ignoreClick m) := by
    intro m hm
    unfold ignoreClick
    split_ifs
    · simp [NoPress]
    · exact hm
    · exact hm
  have hcool : ∀ m, NoPress m → NoPress (coolDown m) := by
    intro m hm
    unfold coolDown
    split
    · simp [NoPress]
    · exact hm
  exact hcool _ (hignore _ (hmoved _ hidle))

theorem cornerIcons_idle (h : NoPress g.mouse) :
  cornerIcons c g = g.trigger (-1)
  := by
  have hpress : (g.mouse.mouseBtnLeft && !g.mouse.prevMouseBtnLeft) = false := by
    cases hbtn : g.mouse.mouseBtnLeft with
    | true => simp [h hbtn]
    | false => rfl
  unfold cornerIcons
  dsimp only
  rw [Bool.and_assoc, if_neg]
  simp [trigger, hpress]

/-- In a frame with nothing but Escape every press closes a panel, or the program is left. -/
theorem handOver_leavesOr (hkbd : c.kbdFd = true) (hdev : g.dev = {}) (hi : EscapeOnly i) :
  LeavesOr g.panels.openCount (presses i.keys) (handOver c i g)
    ∧ (handOver c i g).menu.triggerAction = -1 ∧ (handOver c i g).dev = {}
  := by
  have hdev1 : (beginFrame i g).dev = ⟨i.keys, []⟩ := by simp [beginFrame, hdev, hi.mouse]
  let g2 := periodic c i (beginFrame i g)
  have ht2 := periodic_touches c i (beginFrame i g)
  have hdev2 : g2.dev = ⟨i.keys, []⟩ := (ht2.same .dev (by simp)).trans hdev1
  have hpanels2 : g2.panels = g.panels := ht2.same .panels (by simp)
  let g4 := filterMouse (readMouse c g2)
  have ht4 := (readMouse_touches c g2).seq (filterMouse_touches _)
    (C := [.mouse, .dev, .locals, .keys]) (by simp) (by simp)
  have hmouse : readMouse c g2 = { g2 with mouse.prevMouseBtnLeft := g2.mouse.mouseBtnLeft } :=
    readMouse_idle (by rw [hdev2])
  have hpress : NoPress g4.mouse := by
    apply filterMouse_noPress
    rw [hmouse]
  have hdev4 : g4.dev = ⟨i.keys, []⟩ := by
    have hsame : g4.dev = (readMouse c g2).dev := (filterMouse_touches _).same .dev (by simp)
    rw [hsame, hmouse, ← hdev2]
  have hpanels4 : g4.panels = g.panels := (ht4.same .panels (by simp)).trans hpanels2
  let g6 := clearPasswords (cornerIcons c g4)
  have hcorner : cornerIcons c g4 = g4.trigger (-1) := cornerIcons_idle hpress
  have ht6 := clearPasswords_touches (cornerIcons c g4)
  have hdev6 : g6.dev = ⟨i.keys, []⟩ := by
    have hsame : g6.dev = (cornerIcons c g4).dev := ht6.same .dev (by simp)
    rw [hsame, hcorner]
    exact hdev4
  have hpanels6 : g6.panels = g.panels := by
    have hsame : g6.panels = (cornerIcons c g4).panels := ht6.same .panels (by simp)
    rw [hsame, hcorner]
    exact hpanels4
  have hmenu6 : g6.menu.triggerAction = -1 := by
    have hsame : g6.menu = (cornerIcons c g4).menu := ht6.same .menu (by simp)
    rw [hsame, hcorner]
    rfl
  have hpty : LeavesOr g.panels.openCount 0 (ptyDispatch i g6)
      ∧ (ptyDispatch i g6).menu = g6.menu ∧ (ptyDispatch i g6).dev = g6.dev := by
    unfold ptyDispatch
    split
    · refine ⟨Or.inr ?_, rfl, rfl⟩
      rw [add_zero, ← hpanels6]
      apply openCount_le
      · intro a
        cases a <;> simp [shows]
      · exact fun h => h
    · refine ⟨Or.inr ?_, rfl, rfl⟩
      rw [add_zero, hpanels6]
  obtain ⟨hleaves, hmenu, hdevp⟩ := hpty
  have hkeys : (ptyDispatch i g6).dev.kbd = i.keys := by rw [hdevp, hdev6]
  have hfew : 0 + i.keys.length ≤ 64 := by simpa using hi.few
  obtain ⟨hloop, hmenu', hdev'⟩ := kbdLoop_leavesOr (c := c) hi.keys hfew hleaves
  have hover : handOver c i g = kbdLoop c i.keys 0 (ptyDispatch i g6) := by
    show readKeyboard c i g6 = _
    unfold readKeyboard
    rw [if_pos hkbd]
    dsimp only
    rw [hkeys]
  rw [hover]
  refine ⟨by simpa using hloop, ?_, ?_⟩
  · rw [hmenu', hmenu, hmenu6]
  · rw [hdev', hdevp, hdev6]

/-! ### The panels, with nothing clicked -/

/-- No panel is opened, the prompt included, no action is chosen, and a program that is being
left stays so. -/
structure Subsides (g g' : Gui) : Prop where
  closes : Closes g g'
  prompt : g'.panels.showPasswordPrompt = true → g.panels.showPasswordPrompt = true
  running : g.running = false → g'.running = false

namespace Subsides

variable {g' g'' : Gui}

theorem refl (g : Gui) :
  Subsides g g
  := ⟨Closes.refl g, id, id⟩

theorem trans (h : Subsides g g') (h' : Subsides g' g'') :
  Subsides g g''
  := ⟨h.closes.trans h'.closes, h.prompt ∘ h'.prompt, h'.running ∘ h.running⟩

instance isPreorder : IsPreorder Gui Subsides where
  refl := refl
  trans _ _ _ := trans

/-- The panels stay as they are. -/
theorem touches {as : List Aspect} (h : Touches as g g')
    (has : .panels ∉ as ∧ .menu ∉ as ∧ .running ∉ as) :
  Subsides g g'
  := by
  have hpanels : g'.panels = g.panels := h.same .panels has.1
  have hrunning : g'.running = g.running := h.same .running has.2.2
  refine ⟨Closes.touches h has.1 has.2.1, ?_, ?_⟩
  · rw [hpanels]
    exact id
  · rw [hrunning]
    exact id

/-- What touches neither the menu nor the running of the program opens no panel, if it opens no
prompt. -/
theorem of_closes {as : List Aspect} (hcloses : Closes g g')
    (hprompt : Carries (fun g : Gui => g.panels.showPasswordPrompt = false) g g')
    (h : Touches as g g') (has : .running ∉ as) :
  Subsides g g'
  := by
  have hrunning : g'.running = g.running := h.same .running has
  refine ⟨hcloses, ?_, ?_⟩
  · intro hopen
    by_contra hclosed
    rw [hprompt (by simpa using hclosed)] at hopen
    cases hopen
  · rw [hrunning]
    exact id

end Subsides

theorem mainMenu_unclicked (hi : ∀ b, i.nkButton b = false) (hmenu : g.menu.triggerAction = -1) :
  mainMenu c i g = g
  := by
  have hbuttons : runStages [menuLock c i, menuSwitchUser c i, menuSignOut i, menuChangePassword i,
      menuTaskManager c i, menuRunCommand i, menuCancel i] g = g := by
    simp [menuLock, menuSwitchUser, menuSignOut, menuChangePassword, menuTaskManager,
      menuRunCommand, menuCancel, menuPressed, hi, hmenu]
  unfold mainMenu window menuButtons
  rw [hbuttons, hmenu, if_neg (by decide : ¬((0 : ℤ) ≤ -1 ∧ (-1 : ℤ) ≤ 6))]
  simp

theorem terminalPanel_unclicked (hi : ∀ b, i.nkButton b = false) :
  terminalPanel c i g = g
  := by
  simp [terminalPanel, window, terminalTitle, closeTerminal, terminalToggle, terminalModes,
    terminalModeButton, hi]

theorem taskManagerPanel_subsides (hi : ∀ b, i.nkButton b = false) (g : Gui) :
  Subsides g (taskManagerPanel c i g)
  := by
  apply Subsides.of_closes (taskManagerPanel_closes g) _ (taskManagerPanel_touches c i g)
  · simp [taskManagerAspects]
  · apply taskManagerPanel_rel
    · intro _ _
      apply taskManagerToggle_rel
      · exact id
      · exact fun _ => id
      · intro hbutton
        rw [hi] at hbutton
        cases hbutton
    · intro g h
      have hpanels : (taskManagerBody c i g).panels = g.panels :=
        (taskManagerBody_touches c i g).same .panels (by simp)
      rw [hpanels, h]
    · exact fun _ => id
    · intro g h
      have hpanels : g.consume.panels = g.panels := (consume_touches g).same .panels (by simp)
      rw [hpanels, h]

theorem runPanel_subsides (hi : ∀ b, i.nkButton b = false) (g : Gui) :
  Subsides g (runPanel i g)
  := by
  apply runPanel_rel
  · intro g
    refine ⟨Closes.close rfl ?_, id, id⟩
    intro a
    cases a <;> simp [shows]
  · intro g
    exact Subsides.touches (editCommand_touches i g) (by simp)
  · intro _ _ g _ _
    apply runAsRootToggle_rel
    · exact ⟨Closes.close rfl (Shrinks.refl _), id, id⟩
    · exact fun _ => ⟨Closes.close rfl (Shrinks.refl _), id, id⟩
    · intro hbutton
      rw [hi] at hbutton
      cases hbutton
  · intro isEnterPressed g
    have hpanels : (runButton i isEnterPressed g).panels = g.panels :=
      (runButton_touches i g isEnterPressed).same .panels (by simp)
    refine ⟨?_, ?_, ?_⟩
    · exact Closes.touches (runButton_touches i g isEnterPressed) (by simp) (by simp)
    · rw [hpanels]
      exact id
    · unfold runButton
      split
      · exact fun _ => rfl
      · exact id

theorem promptPanel_subsides (g : Gui) :
  Subsides g (promptPanel i g)
  := by
  apply Subsides.of_closes (promptPanel_closes g) _ (promptPanel_touches i g)
  · simp [promptAspects]
  · apply promptPanel_rel
    · intro g _
      unfold dismissPrompt
      dsimp only
      split <;> rfl
    · intro g h
      have hpanels : (editRootPwd i g).panels = g.panels :=
        (editRootPwd_touches i g).same .panels (by simp)
      rw [hpanels, h]
    · intro g
      apply authenticate_rel
      · intro g h
        have hpanels : (submitClicked i g).panels = g.panels :=
          (submitClicked_touches i g).same .panels (by simp)
        rw [hpanels, h]
      · intro g h
        unfold verify
        dsimp only
        split
        · have hpanels : (grant i (checkPassword i g).authorize).panels
              = (checkPassword i g).authorize.panels :=
            (grant_touches i _).same .panels (by simp)
          rw [hpanels]
          rfl
        · exact h

theorem changePasswordPanel_subsides (g : Gui) :
  Subsides g (changePasswordPanel i g)
  := by
  apply Subsides.of_closes (changePasswordPanel_closes g) _ (changePasswordPanel_touches i g)
  · simp
  · apply changePasswordPanel_rel
    · exact fun _ => id
    · intro g h
      have hpanels : (changePasswordBody i g).panels = g.panels :=
        (changePasswordBody_touches i g).same .panels (by simp)
      rw [hpanels, h]
    · intro isEnterPressed g h
      have hpanels : (applyPassword i isEnterPressed g).panels = g.panels :=
        (applyPassword_touches i g isEnterPressed).same .panels (by simp)
      rw [hpanels, h]

theorem switchUserPanel_subsides (g : Gui) :
  Subsides g (switchUserPanel i g)
  := by
  have hhide : ∀ (p : Panels), Shrinks p { p with showSwitchUser := false } := by
    intro p a
    cases a <;> simp [shows]
  apply switchUserPanel_rel
  · exact fun _ => ⟨Closes.close rfl (hhide _), id, id⟩
  · intro g
    apply sessionButtons_rel
    intro s _ k g
    unfold sessionButton
    split
    · exact ⟨Closes.close rfl (hhide _), id, fun _ => rfl⟩
    · apply Subsides.refl
  · intro g
    unfold newSessionButton
    split
    · exact ⟨Closes.close rfl (hhide _), id, fun _ => rfl⟩
    · apply Subsides.refl

theorem powerMenu_unclicked (hi : ∀ b, i.nkButton b = false) :
  powerMenu i g = g
  := by
  simp [powerMenu, window, sleepButton, restartButton, shutdownButton, hi]

theorem endFrame_subsides (g : Gui) :
  Subsides g (endFrame i g)
  := Subsides.touches (endFrame_touches i g) (by simp)

/-- With nothing clicked and no action chosen, the part of a frame behind its input opens no
panel. -/
theorem frame_subsides (hi : ∀ b, i.nkButton b = false)
    (hmenu : (handOver c i g).menu.triggerAction = -1) :
  Subsides (handOver c i g) (frame c i g)
  := by
  rw [frame_eq, beforeTaskManager, mainMenu_unclicked hi hmenu, terminalPanel_unclicked hi]
  generalize handOver c i g = h at hmenu
  simp only [lateStages, closingStages, runStages_cons, runStages_nil]
  have hpanels : Subsides h (switchUserPanel i (changePasswordPanel i (promptPanel i
      (runPanel i (taskManagerPanel c i h))))) :=
    (((taskManagerPanel_subsides hi h).trans (runPanel_subsides hi _)).trans
      (promptPanel_subsides _)).trans ((changePasswordPanel_subsides _).trans
        (switchUserPanel_subsides _))
  rw [powerMenu_unclicked hi]
  generalize switchUserPanel i (changePasswordPanel i (promptPanel i
      (runPanel i (taskManagerPanel c i h)))) = h' at hpanels
  have hmenu' : h'.menu.triggerAction = -1 := by
    obtain htrigger | htrigger := hpanels.closes.trigger
    · rw [htrigger, hmenu]
    · exact htrigger
  have hterminal : terminalIcon c i h' = h' := by simp [terminalIcon, hmenu']
  have hpower : powerIcon h' = h' := by simp [powerIcon, hmenu']
  rw [hterminal, hpower]
  refine hpanels.trans (Subsides.trans ?_ (endFrame_subsides _))
  exact Subsides.touches (armCooldown_touches h') (by simp)

/-! ### Frames and runs -/

/-- One frame: every press closes a panel, or the program is left. -/
theorem frame_leavesOr (hkbd : c.kbdFd = true) (hdev : g.dev = {}) (hi : EscapeOnly i) :
  LeavesOr g.panels.openCount (presses i.keys) (frame c i g) ∧ (frame c i g).dev = {}
  := by
  obtain ⟨hleaves, hmenu, hdev'⟩ := handOver_leavesOr hkbd hdev hi
  have hsubsides := frame_subsides hi.buttons hmenu
  constructor
  · obtain hstopped | hn := hleaves
    · exact Or.inl (hsubsides.running hstopped)
    · right
      have hcount := openCount_le hsubsides.closes.panels hsubsides.prompt
      omega
  · have hpanels : (beforeTaskManager c i g).dev = (handOver c i g).dev :=
      (beforeTaskManager_touches c i g).same .dev
        (by simp [earlyAspects, menuAspects, toggleAspects])
    have htm : (taskManagerPanel c i (beforeTaskManager c i g)).dev = (beforeTaskManager c i g).dev :=
      (taskManagerPanel_touches c i _).same .dev (by simp [taskManagerAspects])
    have hlate : (frame c i g).dev = (taskManagerPanel c i (beforeTaskManager c i g)).dev :=
      (frame_touches_late c i g).same .dev (by simp [lateAspects])
    rw [hlate, htm, hpanels, hdev']

/-- From any state with no input pending, frames in which only Escape is pressed end the program
once it was pressed more often than there were panels open. -/
theorem escape_leaves (hkbd : c.kbdFd = true) (hdev : g.dev = {}) (is : List FrameIn)
    (his : ∀ i ∈ is, EscapeOnly i) (hcount : g.panels.openCount < allPresses is) :
  (runFrames c is g).running = false
  := by
  induction is generalizing g with
  | nil => simp [allPresses] at hcount
  | cons i is ih =>
      have hframe := frame_leavesOr hkbd hdev (his i List.mem_cons_self)
      unfold runFrames runWhile
      split
      case isTrue =>
        obtain hstopped | hn := hframe.1
        · cases is with
          | nil => exact hstopped
          | cons i' is =>
              unfold runWhile
              rw [hstopped]
              exact hstopped
        · apply ih hframe.2 (fun i' hi' => his i' (List.mem_cons_of_mem _ hi'))
          simp only [allPresses, List.map_cons, List.sum_cons] at hcount ⊢
          omega
      case isFalse h => simpa using h

/-- Escape, pressed and released. -/
def strikeEscape : FrameIn := { keys := [press keyEsc, ⟨evKey, keyEsc, 0⟩] }

/-- The terminal is open, and then Escape is struck twice. -/
theorem escape_leaves_terminal :
  (runFrames desktop [strikeEscape, strikeEscape]
    (runFrames desktop [{ keys := [press keyDown, press keyEnter] }] desktopStart)).running = false
  := by
  apply escape_leaves
  · rfl
  · decide +kernel
  · intro i hi
    obtain rfl : i = strikeEscape := by simpa using hi
    refine ⟨?_, by decide, rfl, fun _ => rfl⟩
    decide
  · decide +kernel

end Gui

end LnxCad
