import LnxCad.Gui.Clicks

/-!
# The packets of the mouse

The decoder reads the stream of the mouse as a parser does that takes three bytes as a packet
where the first has the synchronisation bit, and leaves out one byte where it does not, however
the stream is cut into reads and frames.  A frame breaks the stream off only where it finds the
mouse idle or a panel has opened.
-/

namespace LnxCad

/-! ### The reference parser -/

/-- A packet: the buttons and the two moves. -/
abbrev Packet := UInt8 × UInt8 × UInt8

/-- The packets of a stream, and the bytes left over. -/
def parsePackets : Bytes → List Packet × Bytes
  | b0 :: b1 :: b2 :: rest =>
      if b0 &&& 8 = 8 then ((b0, b1, b2) :: (parsePackets rest).1, (parsePackets rest).2)
      else parsePackets (b1 :: b2 :: rest)
  | rest => ([], rest)

/-- Two bytes are too few for a packet. -/
theorem parsePackets_of_length_le {rest : Bytes} (h : rest.length ≤ 2) :
  parsePackets rest = ([], rest)
  := by
  apply parsePackets.eq_2
  rintro b0 b1 b2 bytes rfl
  simp only [List.length_cons] at h
  omega

/-! ### The packets that the decoder decodes -/

/-- The packet that a byte completes in the accumulator. -/
def completed (acc : Bytes) (b : UInt8) : Option Packet :=
  match acc ++ [b] with
  | [b0, b1, b2] => if b0 &&& 8 = 8 then some (b0, b1, b2) else none
  | _ => none

/-- What a packet does to the mouse. -/
def Mouse.apply (c : Cfg) (m : Mouse) (p : Packet) : Mouse := decodePacket c m p.1 p.2.1 p.2.2

/-- Packets do not depend on the accumulator in what they do. -/
theorem Mouse.foldl_apply_acc (c : Cfg) (ps : List Packet) (m : Mouse) (acc acc' : Bytes) :
  { ps.foldl (Mouse.apply c) { m with mouseAcc := acc } with mouseAcc := acc' }
    = { ps.foldl (Mouse.apply c) m with mouseAcc := acc' }
  := by
  cases ps with
  | nil => rfl
  | cons p ps => rfl

/-- The packets that are decoded while some bytes are fed. -/
def decoded (c : Cfg) : Mouse → Bytes → List Packet
  | _, [] => []
  | m, b :: bytes => (completed m.mouseAcc b).toList ++ decoded c (feedByte c m b) bytes

/-- The packets that are decoded in a sequence of reads. -/
def decodedReads (c : Cfg) : Mouse → List Bytes → List Packet
  | _, [] => []
  | m, read :: reads => decoded c m read ++ decodedReads c (read.foldl (feedByte c) m) reads

/-- A byte that completes a packet has it decoded, and another one only enters the accumulator. -/
theorem feedByte_eq (c : Cfg) (m : Mouse) (b : UInt8) :
  (∀ p, completed m.mouseAcc b = some p → feedByte c m b = m.apply c p)
    ∧ (completed m.mouseAcc b = none → ∃ acc, feedByte c m b = { m with mouseAcc := acc })
  := by
  unfold completed feedByte
  generalize m.mouseAcc ++ [b] = acc
  rcases acc with _ | ⟨b0, _ | ⟨b1, _ | ⟨b2, _ | ⟨b3, acc⟩⟩⟩⟩
  case cons.cons.cons.nil =>
    dsimp only
    split
    case isTrue =>
      constructor
      · rintro _ ⟨⟩
        rfl
      · rintro ⟨⟩
    case isFalse =>
      constructor
      · rintro _ ⟨⟩
      · intro _
        exact ⟨[b1, b2], rfl⟩
  all_goals
    constructor
    · rintro _ ⟨⟩
    · intro _
      exact ⟨_, rfl⟩

theorem decoded_append (c : Cfg) (m : Mouse) (bytes bytes' : Bytes) :
  decoded c m (bytes ++ bytes')
    = decoded c m bytes ++ decoded c (bytes.foldl (feedByte c) m) bytes'
  := by
  induction bytes generalizing m with
  | nil => rfl
  | cons b bytes ih => rw [List.cons_append, decoded, decoded, ih, List.append_assoc, List.foldl_cons]

/-- The cuts between the reads make no difference. -/
theorem decodedReads_eq (c : Cfg) (m : Mouse) (reads : List Bytes) :
  decodedReads c m reads = decoded c m reads.flatten
  := by
  induction reads generalizing m with
  | nil => rfl
  | cons read reads ih => rw [decodedReads, ih, List.flatten_cons, decoded_append]

/-- Between two bytes the accumulator holds at most two. -/
theorem length_feedByte_le (c : Cfg) {m : Mouse} (h : m.mouseAcc.length ≤ 2) (b : UInt8) :
  (feedByte c m b).mouseAcc.length ≤ 2
  := by
  unfold feedByte
  split
  · split
    · exact Nat.zero_le 2
    · exact le_refl 2
  case h_2 hthree =>
    dsimp only
    rw [List.length_append, List.length_singleton]
    by_contra hlt
    have hlen : m.mouseAcc.length = 2 := by omega
    obtain ⟨b0, b1, hacc⟩ := List.length_eq_two.mp hlen
    apply hthree b0 b1 b
    rw [hacc]
    rfl

/-- The decoder decodes the packets that the parser finds behind the bytes of the accumulator,
which keeps what is left over. -/
theorem decoded_eq_parsePackets (c : Cfg) (bytes : Bytes) {m : Mouse} (h : m.mouseAcc.length ≤ 2) :
  decoded c m bytes = (parsePackets (m.mouseAcc ++ bytes)).1
    ∧ (bytes.foldl (feedByte c) m).mouseAcc = (parsePackets (m.mouseAcc ++ bytes)).2
  := by
  induction bytes generalizing m with
  | nil =>
      rw [List.append_nil, parsePackets_of_length_le h]
      exact ⟨rfl, rfl⟩
  | cons b bytes ih =>
      rw [decoded, List.foldl_cons]
      obtain ⟨hdecoded, hrest⟩ := ih (length_feedByte_le c h b)
      rw [hdecoded, hrest]
      unfold completed feedByte
      rcases hacc : m.mouseAcc with _ | ⟨b0, _ | ⟨b1, _ | ⟨b2, acc⟩⟩⟩
      case nil => exact ⟨rfl, rfl⟩
      case cons.nil => exact ⟨rfl, rfl⟩
      case cons.cons.nil =>
        simp only [List.cons_append, List.nil_append]
        rw [parsePackets]
        split
        · exact ⟨rfl, rfl⟩
        · exact ⟨rfl, rfl⟩
      case cons.cons.cons =>
        rw [hacc] at h
        simp only [List.length_cons] at h
        omega

/-- All that the bytes do to the mouse, apart from the accumulator, their packets do. -/
theorem foldl_feedByte_decoded (c : Cfg) (bytes : Bytes) (m : Mouse) :
  ∃ acc, bytes.foldl (feedByte c) m
    = { (decoded c m bytes).foldl (Mouse.apply c) m with mouseAcc := acc }
  := by
  induction bytes generalizing m with
  | nil => exact ⟨m.mouseAcc, rfl⟩
  | cons b bytes ih =>
      obtain ⟨acc, hacc⟩ := ih (feedByte c m b)
      use acc
      rw [List.foldl_cons, hacc, decoded, List.foldl_append]
      obtain ⟨hsome, hnone⟩ := feedByte_eq c m b
      cases hc : completed m.mouseAcc b with
      | some p =>
          rw [hsome p hc]
          rfl
      | none =>
          obtain ⟨acc', hacc'⟩ := hnone hc
          rw [hacc', Option.toList_none, List.foldl_nil]
          apply Mouse.foldl_apply_acc

/-! ### The parser on a stream in parts -/

/-- The parser goes on with what is left over. -/
theorem parsePackets_append (s t : Bytes) :
  parsePackets (s ++ t)
    = ((parsePackets s).1 ++ (parsePackets ((parsePackets s).2 ++ t)).1,
      (parsePackets ((parsePackets s).2 ++ t)).2)
  := by
  induction s using parsePackets.induct with
  | case1 b0 b1 b2 rest hsync ih =>
      rw [List.cons_append, List.cons_append, List.cons_append, parsePackets, if_pos hsync, ih,
        parsePackets, if_pos hsync]
      rfl
  | case2 b0 b1 b2 rest hsync ih =>
      rw [List.cons_append, List.cons_append, List.cons_append, parsePackets, if_neg hsync,
        ← List.cons_append, ← List.cons_append, ih, parsePackets, if_neg hsync]
  | case3 rest hshort =>
      rw [parsePackets.eq_2 _ hshort, List.nil_append]

/-! ### The pointer -/

/-- The pointer is on the screen. -/
def Mouse.OnScreen (c : Cfg) (m : Mouse) : Prop :=
  0 ≤ m.mouseX ∧ m.mouseX < c.width ∧ 0 ≤ m.mouseY ∧ m.mouseY < c.height

theorem clampTo_range {size : ℤ} (h : 1 ≤ size) (v : ℤ) :
  0 ≤ clampTo size v ∧ clampTo size v < size
  := by
  unfold clampTo
  dsimp only
  split_ifs
  all_goals omega

/-- A packet leaves the pointer on the screen, wherever it was. -/
theorem Mouse.onScreen_apply {c : Cfg} (hw : 1 ≤ c.width) (hh : 1 ≤ c.height) (m : Mouse)
    (p : Packet) :
  (m.apply c p).OnScreen c
  := by
  obtain ⟨hx, hx'⟩ := clampTo_range hw (m.mouseX + p.2.1.toInt8.toInt)
  obtain ⟨hy, hy'⟩ := clampTo_range hh (m.mouseY - p.2.2.toInt8.toInt)
  exact ⟨hx, hx', hy, hy'⟩

/-- What holds of the mouse between any two bytes: at most two bytes wait, and on a screen that is
not empty the pointer is on it. -/
def Mouse.Valid (c : Cfg) (m : Mouse) : Prop :=
  m.mouseAcc.length ≤ 2 ∧ (1 ≤ c.width → 1 ≤ c.height → m.OnScreen c)

theorem Mouse.Valid.feedByte {c : Cfg} {m : Mouse} (h : m.Valid c) (b : UInt8) :
  (feedByte c m b).Valid c
  := by
  refine ⟨length_feedByte_le c h.1 b, ?_⟩
  intro hw hh
  obtain ⟨hsome, hnone⟩ := feedByte_eq c m b
  cases hc : completed m.mouseAcc b with
  | some p =>
      rw [hsome p hc]
      exact Mouse.onScreen_apply hw hh m p
  | none =>
      obtain ⟨acc, hacc⟩ := hnone hc
      rw [hacc]
      exact h.2 hw hh

theorem Mouse.Valid.foldl {c : Cfg} {m : Mouse} (h : m.Valid c) (bytes : Bytes) :
  (bytes.foldl (LnxCad.feedByte c) m).Valid c
  := by
  induction bytes generalizing m with
  | nil => exact h
  | cons b bytes ih => exact ih (h.feedByte b)

/-- A mouse with the same pointer and no more bytes waiting is as valid. -/
theorem Mouse.Valid.of_pointer {c : Cfg} {m m' : Mouse} (h : m.Valid c)
    (hacc : m'.mouseAcc.length ≤ m.mouseAcc.length) (hx : m'.mouseX = m.mouseX)
    (hy : m'.mouseY = m.mouseY) :
  m'.Valid c
  := by
  refine ⟨hacc.trans h.1, ?_⟩
  intro hw hh
  rw [OnScreen, hx, hy]
  exact h.2 hw hh

namespace Gui

/-! ### Frames -/

/-- The reads of the mouse that a frame feeds. -/
def mouseReads (c : Cfg) (i : FrameIn) (g : Gui) : List Bytes :=
  if c.mouseFd then ((g.dev.mouse ++ i.mouse).take 16).map Subtype.val else []

theorem flatten_mouseReads (c : Cfg) (i : FrameIn) (g : Gui) :
  (mouseReads c i g).flatten = mouseBytes c i g
  := by
  unfold mouseReads mouseBytes
  split
  · exact List.flatMap_def.symm
  · rfl

/-- The packets that a frame decodes. -/
def framePackets (c : Cfg) (i : FrameIn) (g : Gui) : List Packet :=
  decodedReads c g.startRead (mouseReads c i g)

/-- The state in which a frame looks whether a panel has opened. -/
def beforeCooldown (c : Cfg) (i : FrameIn) (g : Gui) : Gui :=
  runStages ((stages c i).take 17) g

/-- The frame reads nothing, and the mouse has been idle too long. -/
def IdleReset (c : Cfg) (i : FrameIn) (g : Gui) : Prop :=
  mouseBytes c i g = [] ∧ 2 ≤ g.mouse.mouseIdleFrames

/-- A panel has opened in the frame. -/
def DialogReset (c : Cfg) (i : FrameIn) (g : Gui) : Prop :=
  opened (beforeCooldown c i g).locals.snap (beforeCooldown c i g).panels = true

/-- The frame empties the accumulator for neither reason. -/
def Undisturbed (c : Cfg) (i : FrameIn) (g : Gui) : Prop :=
  ¬ IdleReset c i g ∧ ¬ DialogReset c i g

instance Undisturbed.decidable (c : Cfg) (i : FrameIn) (g : Gui) : Decidable (Undisturbed c i g) :=
  inferInstanceAs (Decidable (¬ (_ = _ ∧ _ ≤ _) ∧ ¬ (_ = _)))

/-- Idleness empties the accumulator in the third frame without a byte. -/
theorem mouseIdle_mouseAcc (n : ℕ) (m : Mouse) :
  (mouseIdle n m).mouseAcc = if n = 0 ∧ 2 ≤ m.mouseIdleFrames then [] else m.mouseAcc
  := by
  unfold mouseIdle
  split
  case isTrue hread =>
    rw [if_neg]
    rintro ⟨hn, -⟩
    omega
  case isFalse hnone =>
    have hn : n = 0 := by omega
    by_cases hidle : 2 ≤ m.mouseIdleFrames
    · rw [if_pos ⟨hn, hidle⟩]
      exact if_pos (by omega)
    · rw [if_neg (fun h => hidle h.2)]
      exact if_neg (by omega)

/-- The filters look at the button, and empty the accumulator of an idle mouse. -/
theorem filterMouse_mouse (g : Gui) :
  (filterMouse g).mouse.mouseX = g.mouse.mouseX
    ∧ (filterMouse g).mouse.mouseY = g.mouse.mouseY
    ∧ (filterMouse g).mouse.mouseAcc
      = (mouseIdle g.locals.bytesReadThisFrame g.mouse).mouseAcc
  := by
  have hidle : (mouseIdle g.locals.bytesReadThisFrame g.mouse).mouseX = g.mouse.mouseX
      ∧ (mouseIdle g.locals.bytesReadThisFrame g.mouse).mouseY = g.mouse.mouseY := by
    unfold mouseIdle
    split <;> exact ⟨rfl, rfl⟩
  rw [← hidle.1, ← hidle.2]
  unfold filterMouse
  dsimp only
  generalize mouseIdle _ _ = m
  have hmoved : (mouseMoved { g with mouse := m }).mouse.mouseX = m.mouseX
      ∧ (mouseMoved { g with mouse := m }).mouse.mouseY = m.mouseY
      ∧ (mouseMoved { g with mouse := m }).mouse.mouseAcc = m.mouseAcc := by
    unfold mouseMoved
    split <;> exact ⟨rfl, rfl, rfl⟩
  rw [← hmoved.1, ← hmoved.2.1, ← hmoved.2.2]
  generalize (mouseMoved { g with mouse := m }).mouse = m'
  unfold ignoreClick coolDown
  split_ifs <;> exact ⟨rfl, rfl, rfl⟩

/-- Behind the filters nothing changes the mouse until the frame looks for opened panels. -/
theorem beforeCooldown_mouse (c : Cfg) (i : FrameIn) (g : Gui) :
  (beforeCooldown c i g).mouse = (beforeIcons c i g).mouse
  := by
  have hstages : (stages c i).take 17
      = [beginFrame i, periodic c i, readMouse c, filterMouse]
        ++ (((stageAspects c i).drop 4).take 13).map Prod.fst := rfl
  have hquiet : ∀ p ∈ ((stageAspects c i).drop 4).take 13, Aspect.mouse ∉ p.2 := by
    simp [stageAspects, menuAspects, toggleAspects, taskManagerAspects, promptAspects,
      switchAspects, keyAspects]
  rw [beforeCooldown, hstages, runStages_append]
  refine runStages_invariant (P := fun g' : Gui => g'.mouse = (beforeIcons c i g).mouse) ?_ ?_
  · intro f hf g' hg'
    obtain ⟨p, hp, rfl⟩ := List.mem_map.mp hf
    have hmem : p ∈ stageAspects c i := List.mem_of_mem_drop (List.mem_of_mem_take hp)
    have hsame : (p.1 g').mouse = g'.mouse :=
      (stageAspects_touches c i p hmem g').same .mouse (hquiet p hp)
    rw [hsame, hg']
  · rfl

/-- What a frame does to the mouse: its bytes are fed, the filters are passed, and an opened panel
empties the accumulator. -/
theorem frame_mouse (c : Cfg) (i : FrameIn) (g : Gui) :
  (frame c i g).mouse = (armCooldown (beforeCooldown c i g)).mouse
  := by
  have hframe : frame c i g = endFrame i (armCooldown (beforeCooldown c i g)) := rfl
  rw [hframe]
  exact (endFrame_touches i _).same .mouse (by simp)

/-- The mouse behind the filters of a frame. -/
theorem beforeIcons_mouse (c : Cfg) (i : FrameIn) (g : Gui) :
  (beforeIcons c i g).mouse.mouseX = ((mouseBytes c i g).foldl (feedByte c) g.startRead).mouseX
    ∧ (beforeIcons c i g).mouse.mouseY = ((mouseBytes c i g).foldl (feedByte c) g.startRead).mouseY
    ∧ (beforeIcons c i g).mouse.mouseAcc
      = (mouseIdle (mouseBytes c i g).length
        ((mouseBytes c i g).foldl (feedByte c) g.startRead)).mouseAcc
  := by
  obtain ⟨hmouse, hbytes⟩ := readMouse_eq c i g
  have hfilter := filterMouse_mouse (readMouse c (periodic c i (beginFrame i g)))
  rw [hmouse, hbytes] at hfilter
  exact hfilter

/-- A frame keeps what holds of the mouse between two bytes. -/
theorem frame_valid {c : Cfg} {i : FrameIn} {g : Gui} (h : g.mouse.Valid c) :
  (frame c i g).mouse.Valid c
  := by
  have hstart : g.startRead.Valid c := h
  have hread := hstart.foldl (mouseBytes c i g)
  obtain ⟨hx, hy, hacc⟩ := beforeIcons_mouse c i g
  have hicons : (beforeIcons c i g).mouse.Valid c := by
    apply hread.of_pointer _ hx hy
    rw [hacc, mouseIdle_mouseAcc]
    split
    · exact Nat.zero_le _
    · exact le_refl _
  rw [frame_mouse]
  rw [← beforeCooldown_mouse] at hicons
  unfold armCooldown
  split
  · exact hicons.of_pointer (Nat.zero_le _) rfl rfl
  · exact hicons

/-- A frame that is not disturbed keeps what is left over of its bytes. -/
theorem frame_mouseAcc {c : Cfg} {i : FrameIn} {g : Gui} (h : Undisturbed c i g) :
  (frame c i g).mouse.mouseAcc = ((mouseBytes c i g).foldl (feedByte c) g.startRead).mouseAcc
  := by
  obtain ⟨hidle, hdialog⟩ := h
  obtain ⟨-, -, hacc⟩ := beforeIcons_mouse c i g
  have harm : armCooldown (beforeCooldown c i g) = beforeCooldown c i g := if_neg hdialog
  rw [frame_mouse, harm, beforeCooldown_mouse, hacc, mouseIdle_mouseAcc, if_neg]
  rintro ⟨hlen, hframes⟩
  have hnil : mouseBytes c i g = [] := List.length_eq_zero_iff.mp hlen
  rw [hnil] at hframes
  exact hidle ⟨hnil, hframes⟩

/-! ### Runs -/

/-- The packets that a run decodes. -/
def runPackets (c : Cfg) : List FrameIn → Gui → List Packet
  | [], _ => []
  | i :: is, g => if g.running then framePackets c i g ++ runPackets c is (frame c i g) else []

/-- The reads of the mouse that a run feeds. -/
def runReads (c : Cfg) : List FrameIn → Gui → List Bytes
  | [], _ => []
  | i :: is, g => if g.running then mouseReads c i g ++ runReads c is (frame c i g) else []

/-- A frame that is not disturbed decodes the packets that the parser finds, and keeps what is left
over. -/
theorem framePackets_eq {c : Cfg} {i : FrameIn} {g : Gui} (hacc : g.mouse.mouseAcc.length ≤ 2)
    (h : Undisturbed c i g) :
  parsePackets (g.mouse.mouseAcc ++ (mouseReads c i g).flatten)
    = (framePackets c i g, (frame c i g).mouse.mouseAcc)
  := by
  have hstart : g.startRead.mouseAcc = g.mouse.mouseAcc := rfl
  have hdecoded := decoded_eq_parsePackets c (mouseBytes c i g) (m := g.startRead) hacc
  rw [framePackets, decodedReads_eq, frame_mouseAcc h, flatten_mouseReads, hdecoded.1, hdecoded.2,
    hstart]

/-- A run that is not disturbed decodes the packets that the parser finds in the whole of its bytes,
and keeps what is left over. -/
theorem runPackets_eq {c : Cfg} {is : List FrameIn} {g : Gui} (hvalid : g.mouse.Valid c)
    (h : RunMeets Gui.running (frame c) (Undisturbed c) is g) :
  parsePackets (g.mouse.mouseAcc ++ (runReads c is g).flatten)
    = (runPackets c is g, (runFrames c is g).mouse.mouseAcc)
  := by
  induction is generalizing g with
  | nil =>
      rw [runReads, List.flatten_nil, List.append_nil]
      exact parsePackets_of_length_le hvalid.1
  | cons i is ih =>
      unfold runReads runPackets runFrames runWhile
      split
      case isTrue hrunning =>
        obtain ⟨hquiet, hrest⟩ := h hrunning
        have hframe := framePackets_eq hvalid.1 hquiet
        have hrun := ih (frame_valid hvalid) hrest
        rw [List.flatten_append, ← List.append_assoc, parsePackets_append, hframe, hrun]
        rfl
      case isFalse =>
        rw [List.flatten_nil, List.append_nil]
        exact parsePackets_of_length_le hvalid.1

/-- The mouse is valid whenever the loop is between two frames. -/
theorem Reachable.mouse_valid {c : Cfg} {g : Gui} (h : Reachable c g) :
  g.mouse.Valid c
  := by
  apply h.invariant (P := fun g => g.mouse.Valid c)
  · intro s
    have hmouse : (start c s).mouse =
        { mouseX := c.width / 2
          mouseY := c.height / 2
          prevMouseX := c.width / 2
          prevMouseY := c.height / 2 } := by
      unfold start
      dsimp only
      split
      · exact (launchTerminalShell_touches _ _ _ _).same .mouse (by simp)
      · rfl
    rw [hmouse]
    refine ⟨Nat.zero_le 2, ?_⟩
    intro hw hh
    unfold Mouse.OnScreen
    dsimp only
    omega
  · intro i g _ hg
    exact frame_valid hg

/-- The decoder parses the stream of the mouse, however it is cut into reads and frames, as long as
no frame is disturbed; between two bytes at most two wait, the pointer is on the screen, and nothing
but the packets has moved it. -/
theorem runPackets_parse
    {c : Cfg} {g : Gui} (hg : Reachable c g) {is : List FrameIn}
    (hquiet : RunMeets Gui.running (frame c) (Undisturbed c) is g) :
  runPackets c is g = (parsePackets (g.mouse.mouseAcc ++ (runReads c is g).flatten)).1
    ∧ ∀ bytes : Bytes,
      (bytes.foldl (feedByte c) g.startRead).mouseAcc.length ≤ 2
        ∧ (1 ≤ c.width → 1 ≤ c.height → (bytes.foldl (feedByte c) g.startRead).OnScreen c)
        ∧ ∃ acc, bytes.foldl (feedByte c) g.startRead
          = { (decoded c g.startRead bytes).foldl (Mouse.apply c) g.startRead with mouseAcc := acc }
  := by
  constructor
  · rw [runPackets_eq hg.mouse_valid hquiet]
  · intro bytes
    have hstart : g.startRead.Valid c := hg.mouse_valid
    obtain ⟨hacc, hscreen⟩ := hstart.foldl bytes
    exact ⟨hacc, hscreen, foldl_feedByte_decoded c bytes g.startRead⟩

/-- Two packets with a stray byte between them, cut into four reads and three frames. -/
def cutReads : List FrameIn :=
  [{ mouse := [⟨[8, 1], by simp⟩] },
    { mouse := [⟨[2, 1], by simp⟩, ⟨[9, 3], by simp⟩] },
    { mouse := [⟨[4], by simp⟩] }]

/-- The stray byte is left out. -/
theorem runPackets_parse_cutReads :
  runPackets desktop cutReads desktopStart = [(8, 1, 2), (9, 3, 4)]
  := by
  have hquiet : RunMeets Gui.running (frame desktop) (Undisturbed desktop) cutReads
      (runFrames desktop [] desktopStart) := by
    decide +kernel
  have hparse := (runPackets_parse (desktop_reachable []) hquiet).1
  refine hparse.trans ?_
  have hreads : (runReads desktop cutReads desktopStart).flatten = [8, 1, 2, 1, 9, 3, 4] := by
    decide +kernel
  have hacc : (runFrames desktop [] desktopStart).mouse.mouseAcc = [] := by decide +kernel
  have hstream : runReads desktop cutReads (runFrames desktop [] desktopStart)
      = runReads desktop cutReads desktopStart := rfl
  rw [hstream, hreads, hacc]
  simp only [List.nil_append, parsePackets]
  decide

end Gui

end LnxCad
