import LnxCad.Gui.Touches

/-!
# The chosen action

An action chosen in a frame (`trigger_action`) is only ever used up while the panels are
drawn.  The action `100`, by which a key asks the task manager to act, is chosen together
with bringing the keyboard into use, so that the toolkit then sees no mouse.
-/

namespace LnxCad

/-- The chosen action is kept or used up. -/
def Spent (g g' : Gui) : Prop :=
  g'.menu.triggerAction = g.menu.triggerAction ∨ g'.menu.triggerAction = -1

namespace Spent

variable {g g' g'' : Gui}

theorem refl (g : Gui) :
  Spent g g
  := Or.inl rfl

theorem trans (h : Spent g g') (h' : Spent g' g'') :
  Spent g g''
  := by
  obtain h' | h' := h'
  · rw [Spent, h']
    apply h
  · right
    apply h'

instance isPreorder : IsPreorder Gui Spent where
  refl := refl
  trans _ _ _ := trans

theorem touches {as : List Aspect} (h : Touches as g g') (has : .menu ∉ as) :
  Spent g g'
  := by
  left
  have hmenu : g'.menu = g.menu := h.same .menu has
  rw [hmenu]

/-- An action that is still chosen was chosen before. -/
theorem before {action : ℤ} (h : Spent g g') (h' : g'.menu.triggerAction = action)
    (haction : action ≠ -1) :
  g.menu.triggerAction = action
  := by
  obtain h | h := h
  · rw [← h, h']
  · exact absurd (h'.symm.trans h) haction

/-- A request to the task manager that is still there was there before. -/
theorem request (h : Spent g g') (h' : g'.menu.triggerAction = 100) :
  g.menu.triggerAction = 100
  := h.before h' (by decide)

end Spent

namespace Gui

variable {c : Cfg} {i : FrameIn}

/-- The buttons of the main menu are drawn. -/
def menuDrawn (i : FrameIn) (g : Gui) : Bool :=
  !g.panels.showPasswordPrompt && i.nkBegin .cad && !g.panels.showTaskManager
    && !g.panels.showTerminal && !g.panels.showRun && !g.panels.showChangePassword
    && !g.panels.showSwitchUser

theorem mainMenu_of_drawn {g : Gui} (h : menuDrawn i g = true) :
  mainMenu c i g = runStages (menuStages c i) g
  := by
  simp only [menuDrawn, Bool.and_eq_true, Bool.not_eq_true'] at h
  simp [mainMenu, window, menuButtons, menuStages, h]

/-- A menu that is not drawn drops the action chosen, or does nothing. -/
theorem mainMenu_of_not_drawn {g : Gui} (h : menuDrawn i g = false) :
  mainMenu c i g = g.trigger (-1) ∨ mainMenu c i g = g
  := by
  unfold mainMenu window menuButtons
  split_ifs with hprompt hbegin hdrawn
  · simp only [Bool.and_eq_true] at hdrawn
    simp [menuDrawn, hprompt, hbegin, hdrawn] at h
  · exact Or.inl rfl
  all_goals exact Or.inr rfl

theorem used_spent (g : Gui) (action : ℤ) :
  Spent g (g.used action)
  := by
  unfold used
  split
  · exact Or.inr rfl
  · apply Spent.refl

theorem consume_spent (g : Gui) :
  Spent g g.consume
  := by
  unfold consume
  split
  · exact Or.inr rfl
  · apply Spent.refl

/-- Once taken, a request to the task manager is gone. -/
theorem consume_triggerAction_ne (g : Gui) :
  g.consume.menu.triggerAction ≠ 100
  := by
  unfold consume
  split
  · simp [trigger]
  case isFalse h => apply h

theorem menuSwitchUser_spent (g : Gui) :
  Spent g (menuSwitchUser c i g)
  := by
  unfold menuSwitchUser
  split
  · exact used_spent _ 1
  · apply Spent.refl

theorem menuChangePassword_spent (g : Gui) :
  Spent g (menuChangePassword i g)
  := by
  unfold menuChangePassword
  split
  · exact used_spent _ 3
  · apply Spent.refl

theorem menuRunCommand_spent (g : Gui) :
  Spent g (menuRunCommand i g)
  := by
  unfold menuRunCommand
  split
  · exact used_spent _ 5
  · apply Spent.refl

theorem mainMenu_spent (g : Gui) :
  Spent g (mainMenu c i g)
  := by
  apply mainMenu_rel
  · simp only [menuStages, List.forall_mem_cons]
    refine ⟨?_, menuSwitchUser_spent, ?_, menuChangePassword_spent, ?_, menuRunCommand_spent, ?_,
      by simp⟩
    · exact fun g => Spent.touches (menuLock_touches c i g) (by simp)
    · exact fun g => Spent.touches (menuSignOut_touches i g) (by simp)
    · exact fun g => Spent.touches (menuTaskManager_touches c i g) (by simp)
    · exact fun g => Spent.touches (menuCancel_touches i g) (by simp)
  · exact fun g => Or.inr rfl

theorem tabButton_spent (b : Button) (tab : ℕ) (mode : SortMode) (g : Gui) :
  Spent g (tabButton i b tab mode g)
  := by
  unfold tabButton
  split
  · exact consume_spent { g with tm.sortModeCpu := mode }
  · apply Spent.refl

theorem tabs_spent (g : Gui) :
  Spent g (tabs c i g)
  := by
  have hbuttons : Spent g (tabButtons i g) := by
    apply runStages_rel
    simp only [List.forall_mem_cons]
    refine ⟨?_, ?_, ?_, by simp⟩
    all_goals
      intro g
      apply tabButton_spent
  unfold tabs
  dsimp only
  split
  · apply hbuttons.trans
    apply Spent.touches (scan_touches c i _ _)
    simp
  · apply hbuttons

theorem labelButton_spent (row : ℕ) (g : Gui) :
  Spent g (labelButton i row g)
  := by
  unfold labelButton
  split
  · apply consume_spent
  · apply Spent.refl

theorem signalButton_spent
    {b : Button} {row col : ℕ} {alive : Bool} {signal : ProcessInfo → Signal}
    {after : ProcessInfo → ProcessInfo} (g : Gui) :
  Spent g (signalButton i b row col alive signal after g)
  := by
  apply signalButton_cases (P := Spent g) (Spent.refl g)
  · intro _ _
    apply consume_spent
  · intro p _ _ _
    exact consume_spent (g.signalled row col p (signal p) (after p))

theorem processRow_spent (row : ℕ) (g : Gui) :
  Spent g (processRow c i g row)
  := by
  unfold processRow
  split
  · apply Spent.refl
  · dsimp only
    split
    · apply Spent.refl
    · refine Spent.trans ?_ (Spent.touches (drawRow_touches _ _) (by simp))
      refine Spent.trans ?_ (labelButton_spent _ _)
      refine Spent.trans ?_ (signalButton_spent _)
      refine Spent.trans ?_ (signalButton_spent _)
      apply signalButton_spent

theorem taskManagerBody_spent (g : Gui) :
  Spent g (taskManagerBody c i g)
  := by
  have hsearch : Spent g (searchField c i (tabs c i g)) :=
    (tabs_spent g).trans (Spent.touches (searchField_touches c i _) (by simp))
  unfold taskManagerBody processRows
  apply List.foldlRecOn (motive := Spent g)
  · exact hsearch.trans (Spent.touches (clampRow_touches _ _) (by simp))
  · intro g' hg' row _
    exact hg'.trans (processRow_spent row g')

/-! ### The keyboard is in use when the task manager is asked to act -/

/-- A request to the task manager comes from the keyboard. -/
def Armed (g : Gui) : Prop :=
  g.menu.triggerAction = 100 → g.keys.keyboardActive

theorem Armed.touches {as : List Aspect} {g g' : Gui} (h : Armed g) (ht : Touches as g g')
    (has : .menu ∉ as ∧ .keys ∉ as) :
  Armed g'
  := by
  have hmenu : g'.menu = g.menu := ht.same .menu has.1
  have hkeys : g'.keys = g.keys := ht.same .keys has.2
  rw [Armed, hmenu, hkeys]
  apply h

theorem touchKeyboard_armed (g : Gui) :
  Armed g.touchKeyboard
  := by
  intro _
  rfl

theorem cornerIcons_armed (g : Gui) :
  Armed (cornerIcons c g)
  := by
  unfold cornerIcons
  dsimp only
  split_ifs <;> simp [Armed, trigger]

theorem pressKey_armed {g : Gui} (h : Armed g) (code unicode : ℕ) :
  Armed (pressKey code unicode g)
  := by
  have hescape := h.touches (escape_touches g) (by simp)
  have hprompt := (touchKeyboard_armed g).touches (promptActivate_touches_keyboard g code) (by simp)
  have hcp := (touchKeyboard_armed g).touches (changePasswordActivate_touches_keyboard g code)
    (by simp)
  have hunicode : Armed (g.emit (.nkInputUnicode unicode)) := h
  have hrules : ∀ r ∈ keyRules code unicode g, Armed r.2 := by
    simp only [keyRules, List.forall_mem_cons, menuActivate]
    simp only [touchKeyboard_armed, hescape, hprompt, hcp, hunicode, true_and]
    simp
  unfold pressKey
  apply firstRule_cases
  · intro r hr _
    apply hrules r hr
  · apply h

theorem armed_keyStable :
  KeyStable Armed
  := by
  constructor
  case press =>
    intro g code unicode h
    apply pressKey_armed h
  all_goals
    intros
    assumption

/-- When the mouse is handed to the toolkit, a request to the task manager comes from the
keyboard. -/
theorem handOver_armed (c : Cfg) (i : FrameIn) (g : Gui) :
  Armed (handOver c i g)
  := by
  have hclear := (cornerIcons_armed (c := c) (filterMouse (readMouse c (periodic c i
    (beginFrame i g))))).touches (clearPasswords_touches _) (by simp)
  show Armed (readKeyboard c i _)
  unfold readKeyboard
  split
  · apply armed_keyStable.kbdLoop
    apply hclear.touches (ptyDispatch_touches i _)
    simp
  · apply hclear

end Gui

end LnxCad
