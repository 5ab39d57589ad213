import LnxCad.Gui.Touches

/-!
# Clicks of a held button

The corner icons take a frame in which the button goes from up to down as a click.  The button
as they see it is also put up by the filters: after six frames without a byte of the mouse,
while the first click after the keyboard was in use is ignored, and in the three frames after
a panel opened.  A packet of the same press that is read later puts it down again, and if no
filter holds it up the press clicks a second time.
-/

namespace LnxCad

/-! ### The packets of a frame -/

/-- The left-button bits of the packets that some bytes complete, over the bytes that wait in
the accumulator. -/
def buttonBits : Bytes → Bytes → List Bool
  | _, [] => []
  | acc, b :: bytes =>
      match acc ++ [b] with
      | [b0, b1, b2] =>
          if b0 &&& 8 = 8 then (b0 &&& 1 == 1) :: buttonBits [] bytes
          else buttonBits [b1, b2] bytes
      | acc => buttonBits acc bytes

/-- The parts of the mouse that only the filters change. -/
def Mouse.filters (m : Mouse) : Bool × ℕ × Bool × ℕ :=
  (m.prevMouseBtnLeft, m.mouseIdleFrames, m.ignoreClicks, m.clickCooldown)

theorem feedByte_filters (c : Cfg) (m : Mouse) (b : UInt8) :
  (feedByte c m b).filters = m.filters
  := by
  unfold feedByte
  split
  · split <;> rfl
  · rfl

/-- The button is what the last packet says. -/
theorem foldl_feedByte (c : Cfg) (bytes : Bytes) (m : Mouse) :
  (bytes.foldl (feedByte c) m).mouseBtnLeft
      = (buttonBits m.mouseAcc bytes).getLastD m.mouseBtnLeft
    ∧ (bytes.foldl (feedByte c) m).filters = m.filters
  := by
  induction bytes generalizing m with
  | nil => exact ⟨rfl, rfl⟩
  | cons b bytes ih =>
      obtain ⟨hbtn, hfilters⟩ := ih (feedByte c m b)
      rw [List.foldl_cons]
      refine ⟨?_, hfilters.trans (feedByte_filters c m b)⟩
      rw [hbtn, buttonBits, feedByte]
      generalize m.mouseAcc ++ [b] = acc
      rcases acc with _ | ⟨b0, _ | ⟨b1, _ | ⟨b2, _ | ⟨b3, acc⟩⟩⟩⟩
      case cons.cons.cons.cons.nil =>
        dsimp only
        split
        · rw [List.getLastD_cons]
          rfl
        · rfl
      all_goals rfl

/-- The bytes of the mouse that a frame reads, those of sixteen reads at most. -/
def mouseBytes (c : Cfg) (i : FrameIn) (g : Gui) : Bytes :=
  if c.mouseFd then ((g.dev.mouse ++ i.mouse).take 16).flatMap Subtype.val else []

/-- The left-button bits of the packets that a frame reads. -/
def packetBits (c : Cfg) (i : FrameIn) (g : Gui) : List Bool :=
  buttonBits g.mouse.mouseAcc (mouseBytes c i g)

namespace Gui

theorem feedBytes_mouse (c : Cfg) (bytes : Bytes) (g : Gui) :
  (feedBytes c g bytes).mouse = bytes.foldl (feedByte c) g.mouse
    ∧ (feedBytes c g bytes).locals = g.locals
  := by
  refine ⟨?_, (feedBytes_touches c g bytes).same .locals (by simp)⟩
  unfold feedBytes
  induction bytes generalizing g with
  | nil => rfl
  | cons b bytes ih => apply ih

theorem mouseLoop_mouse (c : Cfg) (pending : List MouseChunk) {mseLimit : ℕ} (h : mseLimit ≤ 16)
    (g : Gui) :
  (mouseLoop c pending mseLimit g).mouse
      = ((pending.take (16 - mseLimit)).flatMap Subtype.val).foldl (feedByte c) g.mouse
    ∧ (mouseLoop c pending mseLimit g).locals.bytesReadThisFrame
      = g.locals.bytesReadThisFrame + ((pending.take (16 - mseLimit)).flatMap Subtype.val).length
  := by
  induction pending generalizing mseLimit g with
  | nil => simp [mouseLoop]
  | cons b rest ih =>
      unfold mouseLoop
      dsimp only
      split
      case isTrue hlimit =>
        obtain ⟨n, hn⟩ : ∃ n, 16 - mseLimit = n + 1 := ⟨15 - mseLimit, by omega⟩
        have hrest : 16 - (mseLimit + 1) = n := by omega
        obtain ⟨hmouse, hbytes⟩ := ih (show mseLimit + 1 ≤ 16 by omega) (feedBytes c
          { g.emit (.mouseRead b.val) with
            locals.bytesReadThisFrame := g.locals.bytesReadThisFrame + b.val.length } b.val)
        rw [(feedBytes_mouse c _ _).1, hrest] at hmouse
        rw [(feedBytes_mouse c _ _).2, hrest] at hbytes
        rw [hn, List.take_succ_cons, List.flatMap_cons, List.foldl_append, List.length_append]
        refine ⟨hmouse, ?_⟩
        rw [← Nat.add_assoc]
        exact hbytes
      case isFalse hlimit =>
        have hzero : 16 - mseLimit = 0 := by omega
        simp [hzero, emit]

/-! ### Clicks -/

/-- The state in which a frame looks at the corner icons. -/
def beforeIcons (c : Cfg) (i : FrameIn) (g : Gui) : Gui :=
  runStages [beginFrame i, periodic c i, readMouse c, filterMouse] g

/-- The corner icons see a click. -/
def clicks (c : Cfg) (i : FrameIn) (g : Gui) : Bool :=
  let m := (beforeIcons c i g).mouse
  m.mouseBtnLeft && !m.prevMouseBtnLeft

/-- The mouse when the reads of a frame begin. -/
def startRead (g : Gui) : Mouse := { g.mouse with prevMouseBtnLeft := g.mouse.mouseBtnLeft }

/-- The reads of a frame feed their bytes in order. -/
theorem readMouse_eq (c : Cfg) (i : FrameIn) (g : Gui) :
  (readMouse c (periodic c i (beginFrame i g))).mouse
      = (mouseBytes c i g).foldl (feedByte c) g.startRead
    ∧ (readMouse c (periodic c i (beginFrame i g))).locals.bytesReadThisFrame
      = (mouseBytes c i g).length
  := by
  have hperiodic := periodic_touches c i (beginFrame i g)
  have hmouse : (periodic c i (beginFrame i g)).mouse = g.mouse := hperiodic.same .mouse (by simp)
  have hdev : (periodic c i (beginFrame i g)).dev.mouse = g.dev.mouse ++ i.mouse := by
    have hd : (periodic c i (beginFrame i g)).dev = (beginFrame i g).dev :=
      hperiodic.same .dev (by simp)
    rw [hd]
    rfl
  have hlocals : (periodic c i (beginFrame i g)).locals.bytesReadThisFrame = 0 := by
    have hl : (periodic c i (beginFrame i g)).locals = (beginFrame i g).locals :=
      hperiodic.same .locals (by simp)
    rw [hl]
    rfl
  generalize periodic c i (beginFrame i g) = g₁ at hmouse hdev hlocals
  unfold readMouse mouseBytes startRead
  dsimp only
  split
  · obtain ⟨hm, hb⟩ := mouseLoop_mouse c g₁.dev.mouse (Nat.zero_le 16)
      { g₁ with mouse.prevMouseBtnLeft := g₁.mouse.mouseBtnLeft }
    simp only [Nat.sub_zero] at hm hb
    rw [hm, hb, hmouse, hdev, hlocals]
    exact ⟨rfl, Nat.zero_add _⟩
  · rw [hmouse, hlocals]
    exact ⟨rfl, rfl⟩

/-- What the reads of a frame do to the button and the filters. -/
theorem readMouse_mouse (c : Cfg) (i : FrameIn) (g : Gui) :
  (readMouse c (periodic c i (beginFrame i g))).mouse.mouseBtnLeft
      = (packetBits c i g).getLastD g.mouse.mouseBtnLeft
    ∧ (readMouse c (periodic c i (beginFrame i g))).mouse.filters
      = (g.mouse.mouseBtnLeft, g.mouse.mouseIdleFrames, g.mouse.ignoreClicks, g.mouse.clickCooldown)
    ∧ (readMouse c (periodic c i (beginFrame i g))).locals.bytesReadThisFrame
      = (mouseBytes c i g).length
  := by
  obtain ⟨hmouse, hbytes⟩ := readMouse_eq c i g
  obtain ⟨hbtn, hfilters⟩ := foldl_feedByte c (mouseBytes c i g) g.startRead
  rw [hmouse]
  exact ⟨hbtn, hfilters, hbytes⟩

theorem mouseIdle_read {n : ℕ} (h : 0 < n) {m : Mouse} :
  (mouseIdle n m).mouseBtnLeft = m.mouseBtnLeft
    ∧ (mouseIdle n m).prevMouseBtnLeft = m.prevMouseBtnLeft
  := by
  unfold mouseIdle
  rw [if_pos h]
  exact ⟨rfl, rfl⟩

/-- A button that is still down was not put up for idleness. -/
theorem mouseIdle_held {n : ℕ} {m : Mouse} (h : (mouseIdle n m).mouseBtnLeft = true) :
  m.mouseBtnLeft = true ∧ (mouseIdle n m).prevMouseBtnLeft = m.prevMouseBtnLeft
  := by
  unfold mouseIdle at h ⊢
  split at h
  case isTrue hn =>
    rw [if_pos hn]
    exact ⟨h, rfl⟩
  case isFalse hn =>
    rw [if_neg hn]
    dsimp only at h ⊢
    split at h
    · cases h
    case isFalse hidle =>
      rw [if_neg hidle]
      exact ⟨h, rfl⟩

theorem coolDown_click_iff (m : Mouse) :
  ((coolDown m).mouseBtnLeft && !(coolDown m).prevMouseBtnLeft) = true
    ↔ m.mouseBtnLeft = true ∧ m.prevMouseBtnLeft = false ∧ m.clickCooldown = 0
  := by
  unfold coolDown
  split
  case isTrue h => simp [Nat.ne_of_gt h]
  case isFalse h =>
    have hzero : m.clickCooldown = 0 := by omega
    simp [hzero]

theorem ignoreClick_eq (m : Mouse) :
  (ignoreClick m).mouseBtnLeft = (m.mouseBtnLeft && !m.ignoreClicks)
    ∧ (ignoreClick m).prevMouseBtnLeft = m.prevMouseBtnLeft
    ∧ (ignoreClick m).clickCooldown = m.clickCooldown
  := by
  unfold ignoreClick
  split_ifs with hignore hbtn
  · simp [hignore]
  · simp [hbtn]
  · simp [hignore]

theorem mouseMoved_eq (g : Gui) :
  (mouseMoved g).mouse.mouseBtnLeft = g.mouse.mouseBtnLeft
    ∧ (mouseMoved g).mouse.prevMouseBtnLeft = g.mouse.prevMouseBtnLeft
    ∧ (mouseMoved g).mouse.clickCooldown = g.mouse.clickCooldown
    ∧ (mouseMoved g).mouse.ignoreClicks
      = (g.mouse.ignoreClicks || g.mouse.moved && g.keys.keyboardActive && g.mouse.mouseBtnLeft)
  := by
  unfold mouseMoved
  split
  case isTrue hmoved =>
    refine ⟨rfl, rfl, rfl, ?_⟩
    cases g.keys.keyboardActive <;> cases g.mouse.mouseBtnLeft <;> simp [hmoved]
  case isFalse hmoved => simp [hmoved]

/-- The filters let a button through that went down, unless one of them holds it up. -/
theorem filterMouse_click_iff (g : Gui) :
  ((filterMouse g).mouse.mouseBtnLeft && !(filterMouse g).mouse.prevMouseBtnLeft) = true
    ↔ (mouseIdle g.locals.bytesReadThisFrame g.mouse).mouseBtnLeft = true
      ∧ (mouseIdle g.locals.bytesReadThisFrame g.mouse).prevMouseBtnLeft = false
      ∧ g.keys.keyboardActive = false ∧ g.mouse.ignoreClicks = false ∧ g.mouse.clickCooldown = 0
  := by
  have hkept : (mouseIdle g.locals.bytesReadThisFrame g.mouse).ignoreClicks = g.mouse.ignoreClicks
      ∧ (mouseIdle g.locals.bytesReadThisFrame g.mouse).clickCooldown = g.mouse.clickCooldown := by
    unfold mouseIdle
    split <;> exact ⟨rfl, rfl⟩
  rw [← hkept.1, ← hkept.2]
  unfold filterMouse
  dsimp only
  generalize mouseIdle _ _ = m
  obtain ⟨hbtn, hprev, hcool, hignore⟩ := mouseMoved_eq { g with mouse := m }
  obtain ⟨hbtn', hprev', hcool'⟩ := ignoreClick_eq (mouseMoved { g with mouse := m }).mouse
  rw [coolDown_click_iff, hbtn', hprev', hcool', hbtn, hprev, hcool, hignore]
  have hmoved : m.mouseBtnLeft = true → m.prevMouseBtnLeft = false → m.moved = true := by
    intro hb hp
    simp [Mouse.moved, hb, hp]
  constructor
  · rintro ⟨hdown, hup, hcool⟩
    simp only [Bool.and_eq_true, Bool.not_eq_true', Bool.or_eq_false_iff] at hdown
    obtain ⟨hb, hi, ha⟩ := hdown
    simp only [hmoved hb hup, hb, Bool.true_and, Bool.and_true] at ha
    exact ⟨hb, hup, ha, hi, hcool⟩
  · rintro ⟨hb, hup, ha, hi, hcool⟩
    simp [hb, hup, ha, hi, hcool]

/-- A frame that reads no packet with the bit clear sees a click exactly if it reads one with the
bit set while the button is up and no filter holds it there. -/
theorem clicks_iff {c : Cfg} {i : FrameIn} {g : Gui} (h : false ∉ packetBits c i g) :
  clicks c i g = true
    ↔ packetBits c i g ≠ [] ∧ g.mouse.mouseBtnLeft = false ∧ g.keys.keyboardActive = false
      ∧ g.mouse.ignoreClicks = false ∧ g.mouse.clickCooldown = 0
  := by
  obtain ⟨hbtn, hfilters, hbytes⟩ := readMouse_mouse c i g
  simp only [Mouse.filters, Prod.mk.injEq] at hfilters
  obtain ⟨hprev, hidle, hignore, hcool⟩ := hfilters
  have hkeys : (readMouse c (periodic c i (beginFrame i g))).keys = g.keys := by
    have hread := readMouse_touches c (periodic c i (beginFrame i g))
    have hstages := ((beginFrame_touches i g).seq
      (C := [.locals, .dev, .screen, .tm, .power, .frameCount, .mouse])
      (periodic_touches c i _) (by simp) (by simp)).trans (hread.mono (by simp))
    exact hstages.same .keys (by simp)
  unfold clicks beforeIcons
  simp only [runStages_cons, runStages_nil]
  rw [filterMouse_click_iff, hkeys, hignore, hcool]
  have hread : packetBits c i g ≠ [] → 0 < (mouseBytes c i g).length := by
    intro hbits
    apply List.length_pos_of_ne_nil
    intro hnil
    apply hbits
    rw [packetBits, hnil, buttonBits]
  constructor
  · rintro ⟨hdown, hup, hrest⟩
    obtain ⟨hdown, hsame⟩ := mouseIdle_held hdown
    rw [hsame, hprev] at hup
    refine ⟨?_, hup, hrest⟩
    intro hnil
    rw [hbtn, hnil, hup] at hdown
    cases hdown
  · rintro ⟨hbits, hup, hrest⟩
    have hidle := mouseIdle_read (m := (readMouse c (periodic c i (beginFrame i g))).mouse)
      (hread hbits)
    have hlast : (packetBits c i g).getLastD g.mouse.mouseBtnLeft = true := by
      rw [List.getLastD_eq_getLast?, List.getLast?_eq_getLast_of_ne_nil hbits, Option.getD_some]
      have hmem := List.getLast_mem hbits
      cases hbit : (packetBits c i g).getLast hbits with
      | true => rfl
      | false => exact absurd (hbit ▸ hmem) h
    rw [hbytes, hidle.1, hidle.2, hbtn, hprev]
    exact ⟨hlast, hup, hrest⟩

/-! ### Runs -/

/-- The clicks since the last packet with the bit clear, after a frame. -/
def countClicks (c : Cfg) (i : FrameIn) (g : Gui) (n : ℕ) : ℕ :=
  (if false ∈ packetBits c i g then 0 else n) + (if clicks c i g then 1 else 0)

/-- A frame, with the count of clicks. -/
def countedFrame (c : Cfg) (i : FrameIn) (x : Gui × ℕ) : Gui × ℕ :=
  (frame c i x.1, countClicks c i x.1 x.2)

/-- A frame does not see a second click without a packet with the bit clear. -/
def OneClick (c : Cfg) (i : FrameIn) (x : Gui × ℕ) : Prop := countClicks c i x.1 x.2 ≤ 1

/-- A press that has clicked goes on, behind a button that a filter has put up, and no filter
holds it up any more: the frame reads packets, all with the bit set, while the button is up, the
keyboard not in use, no click ignored and no cooldown running. -/
def Phantom (c : Cfg) (i : FrameIn) (x : Gui × ℕ) : Prop :=
  0 < x.2 ∧ packetBits c i x.1 ≠ [] ∧ false ∉ packetBits c i x.1
    ∧ x.1.mouse.mouseBtnLeft = false ∧ x.1.keys.keyboardActive = false
    ∧ x.1.mouse.ignoreClicks = false ∧ x.1.mouse.clickCooldown = 0

theorem oneClick_iff {c : Cfg} {i : FrameIn} {x : Gui × ℕ} (h : x.2 ≤ 1) :
  OneClick c i x ↔ ¬ Phantom c i x
  := by
  unfold OneClick countClicks
  by_cases hbits : false ∈ packetBits c i x.1
  · have hphantom : ¬ Phantom c i x := fun hp => hp.2.2.1 hbits
    refine iff_of_true ?_ hphantom
    rw [if_pos hbits]
    split <;> omega
  · rw [if_neg hbits]
    have hclick := clicks_iff hbits
    constructor
    · rintro hone ⟨hpos, hnil, -, hrest⟩
      rw [if_pos (hclick.mpr ⟨hnil, hrest⟩)] at hone
      omega
    · intro hphantom
      split
      case isTrue hc =>
        obtain ⟨hnil, hrest⟩ := hclick.mp hc
        by_contra hmore
        exact hphantom ⟨by omega, hnil, hbits, hrest⟩
      case isFalse => omega

/-- In a run, every press clicks at most once exactly if no press that has clicked goes on behind
a button that a filter has put up and does not hold. -/
theorem runMeets_oneClick_iff (c : Cfg) (s : Start) (is : List FrameIn) :
  RunMeets (fun x => x.1.running) (countedFrame c) (OneClick c) is (start c s, 0)
    ↔ RunMeets (fun x => x.1.running) (countedFrame c) (fun i x => ¬ Phantom c i x) is
      (start c s, 0)
  := by
  apply runMeets_congr (P := fun x => x.2 ≤ 1)
  · exact fun i x _ hone => hone
  · exact fun i x h => oneClick_iff h
  · exact Nat.zero_le 1

instance OneClick.decidable (c : Cfg) (i : FrameIn) (x : Gui × ℕ) : Decidable (OneClick c i x) :=
  inferInstanceAs (Decidable (_ ≤ 1))

/-- One packet of the mouse. -/
def packet (b0 dx dy : UInt8) : FrameIn := { mouse := [⟨[b0, dx, dy], by simp⟩] }

/-- The button is pressed, held for six frames without a move, and the mouse then moved before the
button is released. -/
def holdAndMove : List FrameIn :=
  [packet 8 1 0, packet 9 0 0, {}, {}, {}, {}, {}, {}, packet 9 1 0, packet 8 0 0]

/-- Such a press clicks twice. -/
theorem not_oneClick_holdAndMove :
  ¬ RunMeets (fun x => x.1.running) (countedFrame desktop) (OneClick desktop) holdAndMove
    (desktopStart, 0)
  := by decide +kernel

end Gui

end LnxCad
