import LnxCad.Gui.Touches

/-!
# The terminals a session can be on

A choice in the switch-user dialog sends the display to the terminal of a session that was
listed, and only sessions on real terminals are listed.
-/

namespace LnxCad

/-- A switch goes to a terminal a session can be on. -/
def Event.ToSession (e : Event) : Prop := ∀ vt, e = .switchTo vt → SessionVt vt

namespace Gui

variable {c : Cfg} {i : FrameIn} {g g' : Gui}

/-- The sessions listed, and those switched to, are on real terminals. -/
structure SwitchInv (g : Gui) : Prop where
  listed : ∀ s ∈ g.su.sessions, SessionVt s.vt
  switched : ∀ e ∈ g.log, e.ToSession

theorem toSession_of_touches {as : List Aspect} (h : ∀ e ∈ g.log, e.ToSession)
    (ht : Touches as g g') (has : .vt ∉ as) :
  ∀ e ∈ g'.log, e.ToSession
  := by
  obtain ⟨es, hlog, hes⟩ := ht.emits
  rw [hlog]
  intro e he
  obtain he | he := List.mem_append.mp he
  · apply h e he
  · rintro vt rfl
    exact absurd (hes _ he) has

theorem SwitchInv.touches {as : List Aspect} (h : SwitchInv g) (ht : Touches as g g')
    (hsessions : g'.su.sessions = g.su.sessions) (has : .vt ∉ as) :
  SwitchInv g'
  := by
  constructor
  · rw [hsessions]
    apply h.listed
  · apply toSession_of_touches h.switched ht has

theorem SwitchInv.apart {as : List Aspect} (h : SwitchInv g) (ht : Touches as g g')
    (has : .su ∉ as ∧ .vt ∉ as) :
  SwitchInv g'
  := by
  have hsu : g'.su = g.su := ht.same .su has.1
  apply h.touches ht (by rw [hsu]) has.2

theorem pressKey_sessions (code unicode : ℕ) (g : Gui) :
  (pressKey code unicode g).su.sessions = g.su.sessions
  := by
  have hescape : g.escape.su = g.su := (escape_touches g).same .su (by simp)
  have hprompt : (g.promptActivate code).su = g.su :=
    (promptActivate_touches g code).same .su (by simp)
  have hcp : (g.changePasswordActivate code).su = g.su :=
    (changePasswordActivate_touches g code).same .su (by simp)
  have hmenu : (g.menuActivate code).su = g.su := (menuActivate_touches g code).same .su (by simp)
  refine firstRule_cases (P := fun g' : Gui => g'.su.sessions = g.su.sessions) ?_ rfl
  have hrules : ∀ r ∈ keyRules code unicode g, r.2.su.sessions = g.su.sessions := by
    simp only [keyRules, List.forall_mem_cons, hescape, hprompt, hcp, hmenu]
    simp [touchKeyboard, submitDialog, Gui.emit]
  intro r hr _
  apply hrules r hr

theorem readKeyboard_sessions (g : Gui) :
  (readKeyboard c i g).su.sessions = g.su.sessions
  := by
  have hstable : KeyStable (fun g' : Gui => g'.su.sessions = g.su.sessions) := by
    constructor
    case press =>
      intro g' code unicode hg
      rw [pressKey_sessions, hg]
    all_goals
      intros
      assumption
  have hpty : (ptyDispatch i g).su = g.su := (ptyDispatch_touches i g).same .su (by simp)
  unfold readKeyboard
  split
  · apply hstable.kbdLoop
    rw [hpty]
  · rfl

theorem readKeyboard_switchInv (h : SwitchInv g) :
  SwitchInv (readKeyboard c i g)
  := by
  apply h.touches (readKeyboard_touches c i g) (readKeyboard_sessions g)
  simp [keyAspects]

theorem menuSwitchUser_switchInv (h : SwitchInv g) :
  SwitchInv (menuSwitchUser c i g)
  := by
  have hlog := toSession_of_touches h.switched (menuSwitchUser_touches c i g) (by simp)
  refine ⟨?_, hlog⟩
  unfold menuSwitchUser
  split
  · intro s hs
    have hused : ∀ g' : Gui, (g'.used 1).su = g'.su := by
      intro g'
      apply (used_touches g' 1).same .su
      simp
    rw [hused] at hs
    apply scanSessions_vt hs
  · apply h.listed

theorem mainMenu_switchInv (h : SwitchInv g) :
  SwitchInv (mainMenu c i g)
  := by
  refine mainMenu_rel (R := Carries SwitchInv) ?_ ?_ h
  · simp only [menuStages, List.forall_mem_cons]
    refine ⟨?_, ?_, ?_, ?_, ?_, ?_, ?_, by simp⟩
    · exact fun g h => h.apart (menuLock_touches c i g) (by simp)
    · exact fun g h => menuSwitchUser_switchInv h
    · exact fun g h => h.apart (menuSignOut_touches i g) (by simp)
    · exact fun g h => h.apart (menuChangePassword_touches i g) (by simp)
    · exact fun g h => h.apart (menuTaskManager_touches c i g) (by simp)
    · exact fun g h => h.apart (menuRunCommand_touches i g) (by simp)
    · exact fun g h => h.apart (menuCancel_touches i g) (by simp)
  · intro g h
    apply h.apart (trigger_touches g _)
    simp

theorem sessionButton_switchInv {s : SessionInfo} (hs : SessionVt s.vt) (k : ℕ) (h : SwitchInv g) :
  SwitchInv (sessionButton i g k s)
  := by
  unfold sessionButton
  split
  · constructor
    · apply h.listed
    · intro e he
      obtain he | he := List.mem_append.mp he
      · apply h.switched e he
      · rw [List.mem_singleton.mp he]
        rintro vt heq
        cases heq
        apply hs
  · apply h

theorem newSessionButton_switchInv (h : SwitchInv g) :
  SwitchInv (newSessionButton i g)
  := by
  unfold newSessionButton
  split
  · constructor
    · apply h.listed
    · intro e he
      obtain he | he := List.mem_append.mp he
      · apply h.switched e he
      · rw [List.mem_singleton.mp he]
        rintro vt heq
        cases heq
  · apply h

theorem switchUserPanel_switchInv (h : SwitchInv g) :
  SwitchInv (switchUserPanel i g)
  := by
  refine switchUserPanel_rel (R := Carries SwitchInv) ?_ ?_ ?_ h
  · intro g h
    apply h.apart (setPanels_touches g _)
    simp
  · intro g h
    refine sessionButtons_rel (R := Carries SwitchInv) ?_ 0 h
    intro s hs k g
    apply sessionButton_switchInv (h.listed s hs)
  · intro g h
    apply newSessionButton_switchInv h

/-- Every stage of a frame keeps the invariant. -/
theorem stages_switchInv :
  ∀ f ∈ stages c i, ∀ g, SwitchInv g → SwitchInv (f g)
  := by
  rw [stages_eq]
  refine stages_cases (List.Subset.refl _) [.su, .vt] ?_ ?_
  · intro f as ht has g h
    exact h.apart (ht g) ⟨has .su (by simp), has .vt (by simp)⟩
  · have hloud : (stageAspects c i).filter (fun p => [Aspect.su, .vt].any (fun a => a ∈ p.2))
        = [(readKeyboard c i, .term :: .dev :: keyAspects), (mainMenu c i, menuAspects),
          (switchUserPanel i, switchAspects)] := rfl
    simp only [hloud, List.forall_mem_cons]
    exact ⟨fun g h => readKeyboard_switchInv h, fun g h => mainMenu_switchInv h,
      fun g h => switchUserPanel_switchInv h, by simp⟩

/-- In every run, a choice in the switch-user dialog goes to a terminal between `1` and
`63`. -/
theorem runFrames_toSession (c : Cfg) (s : Start) (is : List FrameIn) :
  ∀ e ∈ (runFrames c is (start c s)).log, e.ToSession
  := by
  have hinv : SwitchInv (runFrames c is (start c s)) := by
    apply runWhile_invariant
    · intro i g _ hg
      apply frame_invariant stages_switchInv hg
    · have hinit : ∀ {g : Gui}, g.log = [] → g.su = {} → SwitchInv g := by
        intro g hlog hsu
        constructor
        · simp [hsu]
        · simp [hlog]
      unfold start
      dsimp only
      split
      · refine SwitchInv.apart ?_ (launchTerminalShell_touches _ _ _ _) (by simp)
        exact hinit rfl rfl
      · exact hinit rfl rfl
  apply hinv.switched

end Gui

end LnxCad
