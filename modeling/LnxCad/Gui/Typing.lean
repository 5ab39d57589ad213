import LnxCad.Gui.Touches

/-!
# Keys at the text fields

In the middle of a frame the pending events of the keyboard are handed on, one after the other.
Of every state in which this happens it is told which keys reach the text field that owns the
keyboard, and when the Enter key of the keypad does what the other one does.
-/

namespace LnxCad

namespace Gui

variable {c : Cfg} {i : FrameIn} {g : Gui}

/-! ### Where events are handed on -/

/-- The part of a frame in front of the keyboard. -/
def beforeKeyboard (c : Cfg) (i : FrameIn) (g : Gui) : Gui :=
  runStages [beginFrame i, periodic c i, readMouse c, filterMouse, cornerIcons c, clearPasswords] g

theorem handOver_eq_readKeyboard :
  handOver c i g = readKeyboard c i (beforeKeyboard c i g)
  := by
  simp only [handOver, inputStages, beforeKeyboard, runStages_cons, runStages_nil]

/-- Events are handed on. -/
def dispatch (c : Cfg) (evs : List InputEvent) (g : Gui) : Gui :=
  evs.foldl (fun g ev => keyEvent c ev ((g.emit (.kbdRead ev)).emit (.kbdDispatch ev))) g

/-- The keyboard loop hands events on, up to its limit. -/
theorem kbdLoop_append (evs rest : List InputEvent) (kbdLimit : ℕ)
    (h : kbdLimit + evs.length ≤ 64) :
  kbdLoop c (evs ++ rest) kbdLimit g = kbdLoop c rest (kbdLimit + evs.length) (dispatch c evs g)
  := by
  induction evs generalizing kbdLimit g with
  | nil => rfl
  | cons ev evs ih =>
      rw [List.length_cons] at h
      rw [List.cons_append, kbdLoop]
      dsimp only
      rw [if_pos (by omega), ih _ (by omega), List.length_cons, Nat.add_right_comm, Nat.add_assoc]
      rfl

/-- What is left of a frame once the first of the pending events have been handed on. -/
theorem handOver_eq_dispatch {evs rest : List InputEvent} (hkbd : c.kbdFd)
    (hpending : (ptyDispatch i (beforeKeyboard c i g)).dev.kbd = evs ++ rest)
    (hlimit : evs.length ≤ 64) :
  handOver c i g = kbdLoop c rest evs.length (dispatch c evs (ptyDispatch i (beforeKeyboard c i g)))
  := by
  rw [handOver_eq_readKeyboard, readKeyboard, if_pos hkbd]
  dsimp only
  rw [hpending, kbdLoop_append evs rest 0 (by omega), Nat.zero_add]

/-- The states in which an event is handed on: some of those that are pending have been. -/
def AtKeyboard (c : Cfg) (g : Gui) : Prop :=
  ∃ g₀ i evs rest, Reachable c g₀ ∧ g₀.running ∧ c.kbdFd
    ∧ (ptyDispatch i (beforeKeyboard c i g₀)).dev.kbd = evs ++ rest ∧ evs.length < 64
    ∧ g = dispatch c evs (ptyDispatch i (beforeKeyboard c i g₀))

/-- The state in which the first event of a frame is handed on. -/
theorem atKeyboard_first (hg : Reachable c g) (hrunning : g.running) (hkbd : c.kbdFd) (i : FrameIn) :
  AtKeyboard c (ptyDispatch i (beforeKeyboard c i g))
  := ⟨g, i, [], _, hg, hrunning, hkbd, rfl, by decide, rfl⟩

/-- A root prompt that is open was open when the frame began. -/
def PromptModal (g : Gui) : Prop := g.panels.showPasswordPrompt → g.locals.isModal

theorem PromptModal.touches {as : List Aspect} {g' : Gui} (h : PromptModal g) (ht : Touches as g g')
    (hpanels : .panels ∉ as) (hlocals : .locals ∉ as) :
  PromptModal g'
  := by
  have hp : g'.panels = g.panels := ht.same .panels hpanels
  have hl : g'.locals = g.locals := ht.same .locals hlocals
  unfold PromptModal
  rw [hp, hl]
  exact h

theorem mouseLoop_snap (pending : List MouseChunk) (mseLimit : ℕ) :
  (mouseLoop c pending mseLimit g).locals.snap = g.locals.snap
  := by
  induction pending generalizing mseLimit g with
  | nil => rfl
  | cons b rest ih =>
      unfold mouseLoop
      dsimp only
      split
      · have hfed : ∀ g, (feedBytes c g b.val).locals = g.locals :=
          fun g => (feedBytes_touches c g b.val).same .locals (by simp)
        rw [ih, hfed]
        rfl
      · rfl

theorem readMouse_promptModal (h : PromptModal g) :
  PromptModal (readMouse c g)
  := by
  have hpanels : (readMouse c g).panels = g.panels := (readMouse_touches c g).same .panels (by simp)
  have hsnap : (readMouse c g).locals.snap = g.locals.snap := by
    unfold readMouse
    dsimp only
    split
    · rw [mouseLoop_snap]
    · rfl
  unfold PromptModal Locals.isModal
  rw [hpanels, hsnap]
  exact h

theorem cornerIcons_promptModal (h : PromptModal g) :
  PromptModal (cornerIcons c g)
  := by
  unfold cornerIcons
  dsimp only
  split_ifs
  all_goals exact h

theorem escape_promptModal (h : PromptModal g) :
  PromptModal g.escape
  := by
  unfold escape dismissPrompt
  dsimp only
  split_ifs
  · exact fun hp => absurd hp Bool.false_ne_true
  · exact fun hp => absurd hp Bool.false_ne_true
  all_goals exact h

theorem promptActivate_promptModal (h : PromptModal g) (code : ℕ) :
  PromptModal (g.promptActivate code)
  := by
  unfold promptActivate dismissPrompt
  dsimp only
  split_ifs
  all_goals first
    | exact h
    | exact fun hp => absurd hp Bool.false_ne_true

theorem changePasswordActivate_promptModal (h : PromptModal g) (code : ℕ) :
  PromptModal (g.changePasswordActivate code)
  := by
  unfold changePasswordActivate
  dsimp only
  split_ifs
  all_goals exact h

theorem menuActivate_promptModal (h : PromptModal g) (code : ℕ) :
  PromptModal (g.menuActivate code)
  := by
  unfold menuActivate powerActivate
  dsimp only
  split_ifs
  all_goals exact h

theorem promptModal_keyStable :
  KeyStable PromptModal
  := by
  constructor
  case press =>
    intro g code unicode h
    apply pressKey_cases
    · exact h
    · exact escape_promptModal h
    · exact fun _ _ => promptActivate_promptModal h code
    · exact changePasswordActivate_promptModal h code
    · exact h
    · exact menuActivate_promptModal h code
    · exact fun _ _ _ _ _ _ _ => h
    · exact h
  case emit => exact fun _ _ _ h => h
  case shift => exact fun _ _ h => h
  case ctrl => exact fun _ _ h => h
  case terminal => exact fun _ h => h
  case dev => exact fun _ _ h => h

theorem dispatch_promptModal (evs : List InputEvent) (h : PromptModal g) :
  PromptModal (dispatch c evs g)
  := by
  induction evs generalizing g with
  | nil => exact h
  | cons ev evs ih => exact ih (promptModal_keyStable.keyEvent ev h)

/-- When events are handed on, a root prompt that is open was open when the frame began. -/
theorem AtKeyboard.promptModal (h : AtKeyboard c g) :
  PromptModal g
  := by
  obtain ⟨g₀, i, evs, rest, -, -, -, -, -, rfl⟩ := h
  apply dispatch_promptModal
  have hbegin : PromptModal (beginFrame i g₀) := fun hp => hp
  have hbefore : PromptModal (beforeKeyboard c i g₀) := by
    simp only [beforeKeyboard, runStages_cons, runStages_nil]
    refine PromptModal.touches ?_ (clearPasswords_touches _) (by simp) (by simp)
    apply cornerIcons_promptModal
    refine PromptModal.touches ?_ (filterMouse_touches _) (by simp) (by simp)
    apply readMouse_promptModal
    exact hbegin.touches (periodic_touches c i _) (by simp) (by simp)
  unfold ptyDispatch
  split
  · exact hbefore
  · exact hbefore

/-! ### Keys with a character -/

/-- The keys that are not typed, whatever the state of Shift. -/
def controlKeys : List ℕ :=
  [keyEsc, keyBackspace, keyTab, keyEnter, keyLeftCtrl, keyLeftShift, keyRightShift, keyKpEnter,
    keyRightCtrl, keyUp, keyLeft, keyRight, keyDown, keyDelete]

theorem keyUnicode_control (shift : Bool) {code : ℕ} (h : code ∈ controlKeys) :
  keyUnicode shift code = 0
  := by
  cases shift with
  | true =>
      revert code
      decide
  | false =>
      revert code
      decide

/-- A key with a character is not one of the others. -/
theorem ne_of_keyUnicode {shift : Bool} {code : ℕ} (h : keyUnicode shift code ≠ 0) :
  ∀ k ∈ controlKeys, (code == k) = false
  := by
  intro k hk
  rw [beq_eq_false_iff_ne]
  rintro rfl
  exact h (keyUnicode_control shift hk)

/-- A text field owns the keyboard. -/
def OwnsKeyboard (g : Gui) : Prop :=
  (g.panels.showPasswordPrompt ∧ g.prompt.pwdFocusIdx = 0)
    ∨ (g.panels.showChangePassword ∧ g.cp.cpFocusIdx ≤ 2)
    ∨ g.panels.showRun
    ∨ (g.panels.showTaskManager ∧ g.focus.tmFocusGroup = 1)

/-- The events that hand a character to the toolkit. -/
def typedUnicode : Event → Option ℕ
  | .nkInputUnicode c => some c
  | _ => none

/-- Characters handed to the toolkit. -/
def typedCharacters (log : List Event) : List ℕ := log.filterMap typedUnicode

/-- An event types its character: it is handed to the toolkit once, no action is raised, and
nothing is shown or hidden. -/
structure Types (c : Cfg) (ev : InputEvent) (g : Gui) : Prop where
  typed : typedCharacters (keyEvent c ev g).log
    = typedCharacters g.log ++ [keyUnicode g.keys.shiftPressed ev.code]
  pwdEnterPressed : (keyEvent c ev g).prompt.pwdEnterPressed = g.prompt.pwdEnterPressed
  cpEnterPressed : (keyEvent c ev g).locals.cpEnterPressed = g.locals.cpEnterPressed
  triggerAction : (keyEvent c ev g).menu.triggerAction = g.menu.triggerAction
  panels : (keyEvent c ev g).panels = g.panels
  showPasswords : (keyEvent c ev g).cp.showPasswords = g.cp.showPasswords

/-- The terminal takes the keys. -/
def terminalTakes (c : Cfg) (g : Gui) : Bool :=
  g.panels.showTerminal && c.termVte && !g.locals.isModal

/-- Space is taken by what is open. -/
def takesSpace (g : Gui) : Bool :=
  g.panels.showPasswordPrompt || g.panels.showChangePassword || g.panels.showSwitchUser
    || !g.locals.isModal && g.panels.showTaskManager && g.focus.tmFocusGroup != 0
      && g.focus.tmFocusGroup != 1

variable {ev : InputEvent}

theorem typedCharacters_of_touches {as : List Aspect} {g' : Gui} (h : Touches as g g')
    (has : .input ∉ as) :
  typedCharacters g'.log = typedCharacters g.log
  := by
  apply h.emits.filterMap_eq
  intro e he
  cases e with
  | nkInputUnicode c => exact absurd he has
  | _ => rfl

theorem typedCharacters_emit (e : Event) :
  typedCharacters (g.emit e).log = typedCharacters g.log ++ (typedUnicode e).toList
  := by
  unfold typedCharacters emit
  rw [List.filterMap_append]
  rfl

/-- A key with a character has no symbol that closes the terminal. -/
theorem keySym_ne_escape {code : ℕ} (h : ∀ k ∈ controlKeys, (code == k) = false) :
  keySym code ≠ .escape
  := by
  simp only [controlKeys, List.forall_mem_cons] at h
  obtain ⟨hesc, hbackspace, htab, henter, -, -, -, hkpEnter, -, hup, hleft, hright, hdown, hdelete,
    -⟩ := h
  unfold keySym
  simp only [henter, hkpEnter, hbackspace, hleft, hright, hup, hdown, hesc, htab, hdelete]
  simp only [Bool.or_self, Bool.false_eq_true, if_false]
  split_ifs
  · simp
  · simp

/-- A key with a character is given to the terminal, or to the panels. -/
theorem keyEvent_char (htype : ev.type = evKey) (hdown : ev.down)
    (hchar : keyUnicode g.keys.shiftPressed ev.code ≠ 0) :
  keyEvent c ev g = if terminalTakes c g then
      g.emit (.vteKeyboard (keySym ev.code) (keyUnicode g.keys.shiftPressed ev.code)
        g.keys.shiftPressed g.keys.ctrlPressed)
    else pressKey ev.code (keyUnicode g.keys.shiftPressed ev.code) g
  := by
  have hescape := keySym_ne_escape (ne_of_keyUnicode hchar)
  have hkeys := ne_of_keyUnicode hchar
  simp only [controlKeys, List.forall_mem_cons] at hkeys
  obtain ⟨-, hbackspace, -, henter, hleftCtrl, hleftShift, hrightShift, hkpEnter, hrightCtrl, -, hleft,
    hright, -⟩ := hkeys
  have hedit : editKey ev.code ev.down g = g := by
    unfold editKey isEnter
    simp only [henter, hkpEnter, hbackspace, hleft, hright, Bool.or_self, Bool.false_eq_true,
      if_false, ite_self]
  unfold keyEvent eventUnicode
  dsimp only
  rw [if_neg (not_not_intro htype), hedit, hdown]
  simp only [hleftShift, hrightShift, hleftCtrl, hrightCtrl, Bool.or_self, Bool.false_eq_true,
    if_false, Bool.true_and, if_true]
  rw [terminalTakes]
  split
  · rw [terminalKey, if_neg hescape, if_pos (Or.inr hchar)]
  · rfl

/-- A key with a character, other than Space, is typed whatever is open. -/
theorem pressKey_char {code unicode : ℕ} (h : ∀ k ∈ controlKeys, (code == k) = false)
    (hspace : (code == keySpace) = false) (hchar : unicode ≠ 0) :
  pressKey code unicode g = g.emit (.nkInputUnicode unicode)
  := by
  simp only [controlKeys, List.forall_mem_cons] at h
  obtain ⟨hesc, -, htab, henter, -, -, -, hkpEnter, -, hup, hleft, hright, hdown, -⟩ := h
  unfold pressKey keyRules isActivate isEnter
  simp only [henter, hkpEnter, hleft, hright, hup, hdown, hesc, htab, hspace, firstRule,
    Bool.or_self, Bool.and_false, Bool.false_and, Bool.false_eq_true, if_false]
  simp [hchar]

/-- What takes Space, in the order of precedence. -/
theorem pressKey_space {unicode : ℕ} (hchar : unicode ≠ 0) :
  pressKey keySpace unicode g =
    if g.panels.showPasswordPrompt then g.promptActivate keySpace
    else if g.panels.showChangePassword then g.changePasswordActivate keySpace
    else if g.panels.showSwitchUser then g.submitDialog.touchKeyboard
    else if !g.locals.isModal && (g.panels.showTaskManager && g.focus.tmFocusGroup != 0
        && g.focus.tmFocusGroup != 1) then g.menuActivate keySpace
    else g.emit (.nkInputUnicode unicode)
  := by
  have h : ∀ k ∈ controlKeys, (keySpace == k) = false := by decide
  simp only [controlKeys, List.forall_mem_cons] at h
  obtain ⟨hesc, -, htab, henter, -, -, -, hkpEnter, -, hup, hleft, hright, hdown, -⟩ := h
  unfold pressKey keyRules isActivate isEnter
  simp only [henter, hkpEnter, hleft, hright, hup, hdown, hesc, htab, firstRule, Bool.or_self,
    Bool.and_false, Bool.false_eq_true, if_false, beq_self_eq_true, Bool.and_true, Bool.false_or]
  rw [if_pos (bne_iff_ne.mpr hchar)]

/-- Space is typed unless something that is open takes it. -/
theorem pressKey_space_cases {unicode : ℕ} (hchar : unicode ≠ 0) :
  takesSpace g = false ∧ pressKey keySpace unicode g = g.emit (.nkInputUnicode unicode)
    ∨ takesSpace g ∧ typedCharacters (pressKey keySpace unicode g).log = typedCharacters g.log
  := by
  rw [pressKey_space hchar]
  unfold takesSpace
  by_cases hprompt : g.panels.showPasswordPrompt
  · rw [if_pos hprompt, hprompt]
    exact Or.inr ⟨rfl, typedCharacters_of_touches (promptActivate_touches g keySpace) (by simp)⟩
  rw [if_neg hprompt]
  by_cases hcp : g.panels.showChangePassword
  · rw [if_pos hcp, hcp, Bool.or_true]
    have htouches := changePasswordActivate_touches g keySpace
    exact Or.inr ⟨rfl, typedCharacters_of_touches htouches (by simp)⟩
  rw [if_neg hcp]
  by_cases hsu : g.panels.showSwitchUser
  · rw [if_pos hsu, hsu, Bool.or_true]
    exact Or.inr ⟨rfl, rfl⟩
  rw [if_neg hsu, Bool.eq_false_of_not_eq_true hprompt, Bool.eq_false_of_not_eq_true hcp,
    Bool.eq_false_of_not_eq_true hsu]
  by_cases htm : !g.locals.isModal && (g.panels.showTaskManager && g.focus.tmFocusGroup != 0
      && g.focus.tmFocusGroup != 1)
  · rw [if_pos htm]
    right
    constructor
    · simpa [Bool.and_assoc] using htm
    · exact typedCharacters_of_touches (menuActivate_touches g keySpace) (by simp)
  · rw [if_neg htm]
    left
    constructor
    · simpa [Bool.and_assoc] using htm
    · rfl

/-- A state that got a character has it typed. -/
theorem types_of_emit (h : keyEvent c ev g
    = g.emit (.nkInputUnicode (keyUnicode g.keys.shiftPressed ev.code))) :
  Types c ev g
  := by
  constructor
  · rw [h]
    exact typedCharacters_emit _
  all_goals
    rw [h]
    rfl

theorem not_types_of_typedCharacters
    (h : typedCharacters (keyEvent c ev g).log = typedCharacters g.log) :
  ¬ Types c ev g
  := by
  intro htypes
  have hlength := congrArg List.length (h.symm.trans htypes.typed)
  rw [List.length_append, List.length_singleton] at hlength
  omega

/-- The terminal does not take the keys while the root prompt is open. -/
theorem AtKeyboard.terminalTakes_eq (hg : AtKeyboard c g) (hprompt : g.panels.showPasswordPrompt) :
  terminalTakes c g = false
  := by
  rw [terminalTakes, hg.promptModal hprompt, Bool.not_true, Bool.and_false]

/-- Wherever events are handed on, a key with a character types it if and only if the terminal does
not take the keys, and the key is not a Space that something takes.  The root prompt always takes
Space. -/
theorem types_iff (hg : AtKeyboard c g) (htype : ev.type = evKey) (hdown : ev.down)
    (hchar : keyUnicode g.keys.shiftPressed ev.code ≠ 0) :
  Types c ev g ↔
    if g.panels.showPasswordPrompt then ev.code ≠ keySpace
    else terminalTakes c g = false ∧ (ev.code = keySpace → takesSpace g = false)
  := by
  have hkey := keyEvent_char (c := c) htype hdown hchar
  by_cases hterminal : terminalTakes c g
  · rw [if_pos hterminal] at hkey
    have hprompt : ¬ g.panels.showPasswordPrompt := by
      intro hprompt
      rw [hg.terminalTakes_eq hprompt] at hterminal
      cases hterminal
    have hnot : ¬ Types c ev g := by
      apply not_types_of_typedCharacters
      rw [hkey, typedCharacters_emit]
      exact List.append_nil _
    rw [if_neg hprompt, hterminal]
    exact ⟨fun htypes => absurd htypes hnot, fun h => absurd h.1 (by decide)⟩
  rw [if_neg hterminal] at hkey
  rw [Bool.eq_false_of_not_eq_true hterminal]
  by_cases hspace : ev.code = keySpace
  · rw [hspace] at hkey hchar
    obtain ⟨hfree, htyped⟩ | ⟨htaken, hkept⟩ := pressKey_space_cases (g := g) hchar
    · have hprompt : ¬ g.panels.showPasswordPrompt := by
        intro hprompt
        rw [takesSpace, hprompt] at hfree
        cases hfree
      have htypes : Types c ev g := by
        apply types_of_emit
        rw [hkey, hspace, htyped]
      rw [if_neg hprompt]
      exact ⟨fun _ => ⟨rfl, fun _ => hfree⟩, fun _ => htypes⟩
    · have hnot : ¬ Types c ev g := by
        apply not_types_of_typedCharacters
        rw [hkey, hkept]
      refine ⟨fun htypes => absurd htypes hnot, fun h => ?_⟩
      split_ifs at h
      · exact absurd hspace h
      · rw [h.2 hspace] at htaken
        cases htaken
  · have htypes : Types c ev g := by
      apply types_of_emit
      rw [hkey, pressKey_char (ne_of_keyUnicode hchar) (beq_eq_false_iff_ne.mpr hspace) hchar]
    refine ⟨fun _ => ?_, fun _ => htypes⟩
    split_ifs
    · exact hspace
    · exact ⟨rfl, fun h => absurd h hspace⟩

/-- The dialog is open, with the first password in focus. -/
def atChangePassword : Gui :=
  ptyDispatch {} (beforeKeyboard desktop {} (runFrames desktop [openChangePassword] desktopStart))

theorem atKeyboard_atChangePassword :
  AtKeyboard desktop atChangePassword
  := by
  apply atKeyboard_first (desktop_reachable [openChangePassword])
  · decide +kernel
  · rfl

/-- The letter `a` is typed. -/
theorem types_iff_letter :
  Types desktop (press 30) atChangePassword ↔
    if atChangePassword.panels.showPasswordPrompt then 30 ≠ keySpace
    else terminalTakes desktop atChangePassword = false
      ∧ (30 = keySpace → takesSpace atChangePassword = false)
  := types_iff atKeyboard_atChangePassword rfl rfl (by decide +kernel)

/-- A password in the dialog cannot contain a space. -/
theorem not_types_space :
  ∃ g, AtKeyboard desktop g ∧ OwnsKeyboard g ∧ ¬ Types desktop (press keySpace) g
  := by
  refine ⟨atChangePassword, atKeyboard_atChangePassword, ?_, ?_⟩
  · right
    left
    decide +kernel
  · intro h
    have htyped := h.typed
    revert htyped
    decide +kernel

/-! ### The two Enter keys -/

/-- The press of a key, or its repetition. -/
def keyDownOf (code : ℕ) (repetition : Bool) : InputEvent :=
  ⟨evKey, code, if repetition then 2 else 1⟩

/-- Enter cancels the root prompt on its Cancel button, where the key of the keypad submits it. -/
def promptCancelled (g : Gui) : Prop := g.panels.showPasswordPrompt ∧ g.prompt.pwdFocusIdx = 2

/-- Enter chooses an entry of the main menu that is not chosen yet, where the key of the keypad
does not. -/
def menuChosen (g : Gui) : Prop :=
  !g.locals.isModal ∧ g.noPanel ∧ g.menu.triggerAction ≠ g.menu.selectedIdx

theorem isEnter_cases {code : ℕ} (h : isEnter code) :
  code = keyEnter ∨ code = keyKpEnter
  := by
  unfold isEnter at h
  rwa [Bool.or_eq_true, beq_iff_eq, beq_iff_eq] at h

/-- What takes Enter, in the order of precedence. -/
theorem pressKey_enter {code : ℕ} (hcode : isEnter code) :
  pressKey code 0 g =
    if g.panels.showPasswordPrompt then g.promptActivate code
    else if g.panels.showChangePassword then g.changePasswordActivate code
    else if g.panels.showSwitchUser then g.submitDialog.touchKeyboard
    else if !g.locals.isModal then g.menuActivate code
    else g
  := by
  have h : ∀ k ∈ [keyLeft, keyRight, keyUp, keyDown, keyEsc, keyTab, keySpace],
      (code == k) = false := by
    obtain rfl | rfl := isEnter_cases hcode
    · decide
    · decide
  simp only [List.forall_mem_cons] at h
  obtain ⟨hleft, hright, hup, hdown, hesc, htab, hspace, -⟩ := h
  unfold pressKey keyRules isActivate
  simp only [hleft, hright, hup, hdown, hesc, htab, hspace, hcode, firstRule, Bool.and_false,
    Bool.and_true, Bool.or_false, Bool.true_or, Bool.false_eq_true, if_false, bne_self_eq_false]

theorem down_keyDownOf (code : ℕ) (repetition : Bool) :
  (keyDownOf code repetition).down
  := by
  cases repetition with
  | true => rfl
  | false => rfl

/-- An Enter key is given to the terminal, or to the toolkit and the panels. -/
theorem keyEvent_enter {code : ℕ} (hcode : isEnter code) (repetition : Bool) :
  keyEvent c (keyDownOf code repetition) g = if terminalTakes c g then
      g.emit (.vteKeyboard .return 0 g.keys.shiftPressed g.keys.ctrlPressed)
    else pressKey code 0 (editKey keyEnter true g)
  := by
  have hdown := down_keyDownOf code repetition
  have hunicode : keyUnicode g.keys.shiftPressed code = 0 := by
    apply keyUnicode_control
    obtain rfl | rfl := isEnter_cases hcode
    · decide
    · decide
  have hsym : keySym code = .return := if_pos hcode
  have hedit : editKey code true g = editKey keyEnter true g := by
    obtain rfl | rfl := isEnter_cases hcode
    · rfl
    · rfl
  have hmodifier : ∀ k ∈ [keyLeftShift, keyRightShift, keyLeftCtrl, keyRightCtrl],
      (code == k) = false := by
    obtain rfl | rfl := isEnter_cases hcode
    · decide
    · decide
  simp only [List.forall_mem_cons] at hmodifier
  obtain ⟨hleftShift, hrightShift, hleftCtrl, hrightCtrl, -⟩ := hmodifier
  unfold keyEvent eventUnicode
  rw [hdown]
  dsimp only [keyDownOf]
  simp only [hleftShift, hrightShift, hleftCtrl, hrightCtrl, hunicode, hedit, Bool.or_self,
    Bool.false_eq_true, if_false, Bool.true_and, if_true, ne_eq, not_true_eq_false, ite_self]
  rw [terminalTakes]
  split
  · rw [terminalKey, hsym, if_neg (by simp), if_pos (by simp)]
  · rfl

theorem editKey_enter (g : Gui) :
  editKey keyEnter true g = g ∨ editKey keyEnter true g = g.emit (.nkInputKey .enter true)
  := by
  have hbackspace : (keyEnter == keyBackspace) = false := by decide
  have henter : isEnter keyEnter = true := by decide
  unfold editKey
  rw [hbackspace, henter]
  simp only [Bool.false_eq_true, if_false, if_true]
  split
  · exact Or.inr rfl
  · exact Or.inl rfl

/-- The root prompt is submitted by both keys, unless Enter cancels it. -/
theorem promptActivate_enter_iff :
  g.promptActivate keyKpEnter = g.promptActivate keyEnter ↔ g.prompt.pwdFocusIdx ≠ 2
  := by
  have hspace : (keyKpEnter == keySpace) = false := by decide
  have hother : (keyKpEnter == keyEnter) = false := by decide
  have hkeypad : g.promptActivate keyKpEnter = g.touchKeyboard.submitPrompt := by
    unfold promptActivate
    simp [hspace, hother]
  have henter : g.promptActivate keyEnter =
      if g.prompt.pwdFocusIdx = 2 then g.touchKeyboard.dismissPrompt
      else g.touchKeyboard.submitPrompt := by
    unfold promptActivate
    simp [show (keyEnter == keySpace) = false by decide, touchKeyboard]
  rw [hkeypad, henter]
  constructor
  · intro heq hfocus
    rw [if_pos hfocus] at heq
    have hlog := congrArg Gui.log heq
    have hdismiss : g.touchKeyboard.dismissPrompt.log = g.log := by
      unfold dismissPrompt
      dsimp only
      split_ifs
      · rfl
      · rfl
    rw [hdismiss] at hlog
    have hlength := congrArg List.length hlog
    simp [submitPrompt, emit, touchKeyboard] at hlength
  · intro hfocus
    rw [if_neg hfocus]

/-- The main menu is left alone by the key of the keypad. -/
theorem menuActivate_enter_iff :
  g.menuActivate keyKpEnter = g.menuActivate keyEnter
    ↔ ¬ (g.noPanel ∧ g.menu.triggerAction ≠ g.menu.selectedIdx)
  := by
  unfold menuActivate
  by_cases htm : g.panels.showTaskManager
  · rw [if_pos htm, if_pos htm]
    simp [noPanel, htm]
  rw [if_neg htm, if_neg htm]
  by_cases hpower : g.panels.showPowerMenu
  · rw [if_pos hpower, if_pos hpower]
    simp [noPanel, hpower]
  rw [if_neg hpower, if_neg hpower]
  by_cases hpanel : g.noPanel
  · have hother : (keyKpEnter == keyEnter) = false := by decide
    simp only [hpanel, hother, beq_self_eq_true, Bool.and_false, Bool.and_self, Bool.false_eq_true,
      if_false, if_true, true_and, not_not, ne_eq]
    constructor
    · intro heq
      exact congrArg (fun g : Gui => g.menu.triggerAction) heq
    · intro heq
      unfold trigger
      rw [← heq]
  · simp [hpanel]

/-- Both keys do the same to the panels, unless Enter cancels the root prompt or chooses an entry
of the main menu. -/
theorem pressKey_enter_iff (hmodal : PromptModal g) :
  pressKey keyKpEnter 0 g = pressKey keyEnter 0 g ↔ ¬ promptCancelled g ∧ ¬ menuChosen g
  := by
  rw [pressKey_enter (by decide), pressKey_enter (by decide)]
  unfold promptCancelled menuChosen
  by_cases hprompt : g.panels.showPasswordPrompt
  · rw [if_pos hprompt, if_pos hprompt, promptActivate_enter_iff]
    simp [hprompt, hmodal hprompt]
  rw [if_neg hprompt, if_neg hprompt]
  by_cases hcp : g.panels.showChangePassword
  · rw [if_pos hcp, if_pos hcp]
    simp [hprompt, noPanel, hcp]
    rfl
  rw [if_neg hcp, if_neg hcp]
  by_cases hsu : g.panels.showSwitchUser
  · rw [if_pos hsu, if_pos hsu]
    simp [hprompt, noPanel, hsu]
  rw [if_neg hsu, if_neg hsu]
  by_cases hfree : !g.locals.isModal
  · rw [if_pos hfree, if_pos hfree, menuActivate_enter_iff]
    simp [hprompt, hfree]
  · rw [if_neg hfree, if_neg hfree]
    simp [hprompt, hfree]

/-- Wherever events are handed on, both keys do the same if and only if Enter neither cancels the
root prompt nor chooses an entry of the main menu. -/
theorem keyEvent_kpEnter_iff (hg : AtKeyboard c g) (repetition : Bool) :
  keyEvent c (keyDownOf keyKpEnter repetition) g = keyEvent c (keyDownOf keyEnter repetition) g
    ↔ ¬ promptCancelled g ∧ ¬ menuChosen g
  := by
  have hmodal := hg.promptModal
  rw [keyEvent_enter (by decide), keyEvent_enter (by decide)]
  by_cases hterminal : terminalTakes c g
  · have hprompt : ¬ g.panels.showPasswordPrompt := by
      intro hprompt
      rw [hg.terminalTakes_eq hprompt] at hterminal
      cases hterminal
    have hshown : g.panels.showTerminal := by
      unfold terminalTakes at hterminal
      simp only [Bool.and_eq_true] at hterminal
      exact hterminal.1.1
    rw [if_pos hterminal, if_pos hterminal]
    simp [promptCancelled, menuChosen, hprompt, noPanel, hshown]
  · rw [if_neg hterminal, if_neg hterminal]
    obtain hedit | hedit := editKey_enter g
    · rw [hedit]
      exact pressKey_enter_iff hmodal
    · rw [hedit]
      exact pressKey_enter_iff (g := g.emit (.nkInputKey .enter true)) hmodal

theorem keyEvent_kpEnter_iff_changePassword :
  keyEvent desktop (keyDownOf keyKpEnter false) atChangePassword
      = keyEvent desktop (keyDownOf keyEnter false) atChangePassword
    ↔ ¬ promptCancelled atChangePassword ∧ ¬ menuChosen atChangePassword
  := keyEvent_kpEnter_iff atKeyboard_atChangePassword false

/-- In the main menu the key of the keypad chooses nothing. -/
theorem not_keyEvent_kpEnter :
  ∃ g, AtKeyboard desktop g
    ∧ keyEvent desktop (keyDownOf keyKpEnter false) g ≠ keyEvent desktop (keyDownOf keyEnter false) g
  := by
  refine ⟨ptyDispatch {} (beforeKeyboard desktop {} desktopStart), ?_, ?_⟩
  · apply atKeyboard_first (desktop_reachable [])
    · decide +kernel
    · rfl
  · intro heq
    have htrigger := congrArg (fun g : Gui => g.menu.triggerAction) heq
    revert htrigger
    decide +kernel

end Gui

end LnxCad
