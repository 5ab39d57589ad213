import LnxCad.Gui.State

/-!
# The mouse

The mouse device delivers packets of three bytes, which a read may cut anywhere.  The bytes
of an incomplete packet wait in an accumulator; a complete packet whose first byte lacks
the synchronisation bit loses that byte.  A frame takes at most sixteen reads.

After the reads come the filters: a mouse that is idle for a while loses its pending bytes
and then its button, the first click after the keyboard was in use is dropped, and so are
clicks in the three frames after a panel opened.
-/

namespace LnxCad

/-- A coordinate, kept on the screen. -/
def clampTo (size v : ℤ) : ℤ :=
  let v := if v < 0 then 0 else v
  if v ≥ size then size - 1 else v

/-- A complete packet moves the pointer and sets the button. -/
def decodePacket (c : Cfg) (m : Mouse) (b0 b1 b2 : UInt8) : Mouse :=
  { m with
    mouseBtnLeft := b0 &&& 1 == 1
    mouseX := clampTo c.width (m.mouseX + b1.toInt8.toInt)
    mouseY := clampTo c.height (m.mouseY - b2.toInt8.toInt)
    mouseAcc := [] }

/-- One byte enters the accumulator; the third completes a packet. -/
def feedByte (c : Cfg) (m : Mouse) (b : UInt8) : Mouse :=
  match m.mouseAcc ++ [b] with
  | [b0, b1, b2] =>
      if b0 &&& 8 = 8 then decodePacket c m b0 b1 b2 else { m with mouseAcc := [b1, b2] }
  | acc => { m with mouseAcc := acc }

/-- The bytes of one read enter the accumulator in order. -/
def feedBytes (c : Cfg) (g : Gui) (bytes : Bytes) : Gui :=
  bytes.foldl (fun g b => { g.emit (.mouseFeed b) with mouse := feedByte c g.mouse b }) g

/-- The read loop, `while (read(…) > 0 && mse_limit++ < 16)`: the reads still pending at the
device and the number made so far.  The limit is tested after the read. -/
def mouseLoop (c : Cfg) : List MouseChunk → ℕ → Gui → Gui
  | [], _, g => { g with dev.mouse := [] }
  | b :: rest, mseLimit, g =>
      let g := g.emit (.mouseRead b.val)
      if mseLimit < 16 then
        let g := { g with
          locals.bytesReadThisFrame := g.locals.bytesReadThisFrame + b.val.length }
        mouseLoop c rest (mseLimit + 1) (feedBytes c g b.val)
      else { g with dev.mouse := rest }

/-- The mouse reads of a frame. -/
def readMouse (c : Cfg) (g : Gui) : Gui :=
  let g := { g with mouse.prevMouseBtnLeft := g.mouse.mouseBtnLeft }
  if c.mouseFd then mouseLoop c g.dev.mouse 0 g else g

/-! ### Filters -/

/-- Frames without a mouse byte are counted: after more than two the accumulator is
emptied, after more than five the button is released. -/
def mouseIdle (bytesRead : ℕ) (m : Mouse) : Mouse :=
  if bytesRead > 0 then { m with mouseIdleFrames := 0 }
  else
    let idle := m.mouseIdleFrames + 1
    { m with
      mouseIdleFrames := idle
      mouseAcc := if idle > 2 then [] else m.mouseAcc
      mouseBtnLeft := if idle > 5 then false else m.mouseBtnLeft
      prevMouseBtnLeft := if idle > 5 then false else m.prevMouseBtnLeft }

/-- Whether the pointer or the button changed. -/
def Mouse.moved (m : Mouse) : Bool :=
  m.mouseX != m.prevMouseX || m.mouseY != m.prevMouseY || m.mouseBtnLeft != m.prevMouseBtnLeft

/-- A change takes the keyboard out of use; a click that does so is to be ignored. -/
def mouseMoved (g : Gui) : Gui :=
  if g.mouse.moved then
    { g with
      keys.keyboardActive := false
      mouse := { g.mouse with
        ignoreClicks :=
          if g.keys.keyboardActive && g.mouse.mouseBtnLeft then true else g.mouse.ignoreClicks
        prevMouseX := g.mouse.mouseX
        prevMouseY := g.mouse.mouseY } }
  else g

/-- An ignored click lasts until the button is released. -/
def ignoreClick (m : Mouse) : Mouse :=
  if m.ignoreClicks then
    if m.mouseBtnLeft then { m with mouseBtnLeft := false } else { m with ignoreClicks := false }
  else m

/-- The button is held released while the cooldown runs. -/
def coolDown (m : Mouse) : Mouse :=
  if m.clickCooldown > 0 then
    { m with
      clickCooldown := m.clickCooldown - 1
      mouseBtnLeft := false
      prevMouseBtnLeft := false }
  else m

/-- The filters of a frame, in order. -/
def filterMouse (g : Gui) : Gui :=
  let g := { g with mouse := mouseIdle g.locals.bytesReadThisFrame g.mouse }
  let g := mouseMoved g
  { g with mouse := coolDown (ignoreClick g.mouse) }

/-! ### The corner icons -/

/-- Whether the pointer is on a rectangle, borders included. -/
def Mouse.on (m : Mouse) (x y w h : ℤ) : Bool :=
  x ≤ m.mouseX && m.mouseX ≤ x + w && y ≤ m.mouseY && m.mouseY ≤ y + h

/-- A click on a corner icon chooses the terminal or the power menu; a click elsewhere
closes an open power menu unless it falls on it. -/
def cornerIcons (c : Cfg) (g : Gui) : Gui :=
  let g := g.trigger (-1)
  let shutdownX := c.width - c.shutdownW - 20
  let shutdownY := c.height - c.shutdownH - 20
  let terminalX := shutdownX - c.terminalW - 4
  let terminalY := c.height - c.terminalH - 20
  if !g.locals.isModal && g.mouse.mouseBtnLeft && !g.mouse.prevMouseBtnLeft then
    if g.mouse.on terminalX terminalY c.terminalW c.terminalH then g.trigger 7
    else if g.mouse.on shutdownX shutdownY c.shutdownW c.shutdownH then g.trigger 8
    else if g.panels.showPowerMenu
        && !g.mouse.on (c.width - c.pmMenuW - 20) (c.height - c.shutdownH - 20 - 180)
          c.pmMenuW 180 then
      { g with panels.showPowerMenu := false }
    else g
  else g

end LnxCad
