import LnxCad.Render.Ellipse

/-!
# Commands

A frame is a list of commands, each of which sets the scissors or draws.  Whatever the commands are,
they write pixels of the frame buffer only, and all but the rectangles of many colours keep to the
scissors.  They make of each pixel something that depends on that pixel alone, so that a frame that
is cleared first shows nothing of what the buffer held before.
-/

namespace LnxCad.Render

variable {fb : Image} {s : Scissors}

/-! ### Colours -/

/-- `struct nk_color`. -/
structure Color where
  r : UInt8
  g : UInt8
  b : UInt8
  a : UInt8
deriving DecidableEq

/-- `nk_rawfb_color2int`, for the layout of the frame buffer. -/
def color2int (c : Color) : UInt32 :=
  (c.r.toUInt32 <<< 16) ||| (c.g.toUInt32 <<< 8) ||| c.b.toUInt32 ||| (c.a.toUInt32 <<< 24)

/-- `nk_rawfb_int2color`, for the layout of the frame buffer. -/
def int2color (i : UInt32) : Color :=
  ⟨((i >>> 16) &&& 0xff).toUInt8, ((i >>> 8) &&& 0xff).toUInt8, (i &&& 0xff).toUInt8,
    ((i >>> 24) &&& 0xff).toUInt8⟩

/-- A channel of `nk_rawfb_img_blendpixel`. -/
def blendChannel (new old a : UInt8) : UInt8 :=
  UInt8.ofNat ((new.toNat * a.toNat + old.toNat * (255 - a.toNat)) / 256)

/-- The colour that `nk_rawfb_img_blendpixel` makes of two. -/
def blend (col col2 : Color) : Color :=
  ⟨blendChannel col.r col2.r col.a, blendChannel col.g col2.g col.a, blendChannel col.b col2.b col.a,
    col.a⟩

/-- `nk_rawfb_img_blendpixel`, on the frame buffer; `nk_rawfb_img_getpixel` and
`nk_rawfb_img_setpixel` are for its pixels only. -/
def imgBlendpixel (fb : Image) (x0 y0 : ℤ) (col : Color) (m : Pixels) : Pixels :=
  if col.a = 0 then m
  else if y0 < fb.h ∧ y0 ≥ 0 ∧ x0 ≥ 0 ∧ x0 < fb.w then
    m.write (fb.address x0 y0) (color2int (blend col (int2color (m.cell (fb.address x0 y0)))))
  else m

/-! ### Rectangles -/

/-- `nk_rawfb_stroke_rect`. -/
def strokeRect (n : ℕ) (fb : Image) (s : Scissors) (x y w h r : ℤ) (col : UInt32) (m : Pixels) :
    Pixels :=
  let x := short x
  let y := short y
  let w := short w
  let h := short h
  let r := short r
  if r = 0 then
    let m := strokeLine fb s x y (x + w) y col m
    let m := strokeLine fb s x (y + h) (x + w) (y + h) col m
    let m := strokeLine fb s x y x (y + h) col m
    strokeLine fb s (x + w) y (x + w) (y + h) col m
  else
    let xc := short (x + r)
    let yc := short (y + r)
    let wc := short (w - 2 * r)
    let hc := short (h - 2 * r)
    let m := strokeLine fb s xc y (xc + wc) y col m
    let m := strokeLine fb s (x + w) yc (x + w) (yc + hc) col m
    let m := strokeLine fb s xc (y + h) (xc + wc) (y + h) col m
    let m := strokeLine fb s x yc x (yc + hc) col m
    let m := strokeArc n fb s (xc + wc - r) y (r * 2) (r * 2) 0 col m
    let m := strokeArc n fb s x y (r * 2) (r * 2) 90 col m
    let m := strokeArc n fb s x (yc + hc - r) (r * 2) (r * 2) 270 col m
    strokeArc n fb s (xc + wc - r) (yc + hc - r) (r * 2) (r * 2) 180 col m

/-- A `struct nk_vec2i` of two results. -/
def vec2i (x y : ℤ) : Point := ⟨short x, short y⟩

/-- `nk_rawfb_fill_rect`. -/
def fillRect (n : ℕ) (fb : Image) (s : Scissors) (cross : Crossing) (x y w h r : ℤ) (col : UInt32)
    (m : Pixels) : Pixels :=
  let x := short x
  let y := short y
  let w := short w
  let h := short h
  let r := short r
  if r = 0 then
    (List.range h.toNat).foldl (fun m (i : ℕ) => strokeLine fb s x (y + i) (x + w) (y + i) col m) m
  else
    let xc := short (x + r)
    let yc := short (y + r)
    let wc := short (w - 2 * r)
    let hc := short (h - 2 * r)
    let m := fillPolygon fb s cross
      [vec2i x yc, vec2i xc yc, vec2i xc y,
        vec2i (xc + wc) y, vec2i (xc + wc) yc, vec2i (x + w) yc,
        vec2i (x + w) (yc + hc), vec2i (xc + wc) (yc + hc), vec2i (xc + wc) (y + h),
        vec2i xc (y + h), vec2i xc (yc + hc), vec2i x (yc + hc)] col m
    let m := fillArc n fb s cross (xc + wc - r) y (r * 2) (r * 2) 0 col m
    let m := fillArc n fb s cross x y (r * 2) (r * 2) 90 col m
    let m := fillArc n fb s cross x (yc + hc - r) (r * 2) (r * 2) 270 col m
    fillArc n fb s cross (xc + wc - r) (yc + hc - r) (r * 2) (r * 2) 180 col m

/-- `nk_rawfb_clear`. -/
def clear (n : ℕ) (fb : Image) (s : Scissors) (cross : Crossing) (col : UInt32) (m : Pixels) :
    Pixels :=
  fillRect n fb s cross 0 0 fb.w fb.h 0 col m

/-- A colour on the way between two, at a step out of so many, as floating point has it. -/
abbrev Gradient := Color → Color → ℤ → ℕ → Color

/-- Memory for colours, by the distance from the start of a block. -/
abbrev Colors := Store ℤ Color

/-- The loop of `nk_rawfb_draw_rect_multi_color` for the top and the bottom edge, `edge_t` and
`edge_b`. -/
def topAndBottom (gradient : Gradient) (w : ℤ) (tl tr br bl : Color) (edge_buf : Colors) : Colors :=
  (List.range w.toNat).foldl (fun edge_buf (i : ℕ) =>
    (edge_buf.write i (gradient tl tr w i)).write (w + i) (gradient bl br w i)) edge_buf

/-- The loop for the left and the right edge, `edge_l` and `edge_r`. -/
def leftAndRight (gradient : Gradient) (w h : ℤ) (tl tr br bl : Color) (edge_buf : Colors) :
    Colors :=
  (List.range h.toNat).foldl (fun edge_buf (i : ℕ) =>
    (edge_buf.write (w * 2 + i) (gradient tl bl h i)).write (w * 2 + h + i) (gradient tr br h i))
    edge_buf

/-- `edge_buf`, a block of `2 * w + 2 * h` colours, with the edges. -/
def edgeBuf (gradient : Gradient) (newMemory : ℤ → Color) (w h : ℤ) (tl tr br bl : Color) : Colors :=
  leftAndRight gradient w h tl tr br bl (topAndBottom gradient w tl tr br bl ⟨newMemory, []⟩)

/-- The colour of a pixel of the rectangle, by row and column. -/
def edgeColor (gradient : Gradient) (edge_buf : Colors) (w h : ℤ) (i j : ℕ) : Color :=
  if i = 0 then edge_buf.cell j
  else if (i : ℤ) = h - 1 then edge_buf.cell (w + j)
  else if j = 0 then edge_buf.cell (w * 2 + i)
  else if (j : ℤ) = w - 1 then edge_buf.cell (w * 2 + h + i)
  else gradient (edge_buf.cell (w * 2 + i)) (edge_buf.cell (w * 2 + h + i)) w j

/-- `nk_rawfb_draw_rect_multi_color`, on the frame buffer. -/
def drawRectMultiColor (fb : Image) (malloc : Bool) (gradient : Gradient) (newMemory : ℤ → Color)
    (x y w h : ℤ) (tl tr br bl : Color) (m : Pixels) : Pixels :=
  let x := short x
  let y := short y
  let w := short w
  let h := short h
  if malloc = false then m
  else
    let edge_buf := edgeBuf gradient newMemory w h tl tr br bl
    (List.range h.toNat).foldl (fun m (i : ℕ) =>
      (List.range w.toNat).foldl (fun m (j : ℕ) =>
        imgBlendpixel fb (x + j) (y + i) (edgeColor gradient edge_buf w h i j) m) m) m

/-! ### Polygons and curves -/

/-- `nk_rawfb_fill_triangle`. -/
def fillTriangle (fb : Image) (s : Scissors) (cross : Crossing) (p0 p1 p2 : Point) (col : UInt32)
    (m : Pixels) : Pixels :=
  fillPolygon fb s cross [p0, p1, p2] col m

/-- `nk_rawfb_stroke_triangle`. -/
def strokeTriangle (fb : Image) (s : Scissors) (p0 p1 p2 : Point) (col : UInt32) (m : Pixels) :
    Pixels :=
  let m := strokeLine fb s p0.x p0.y p1.x p1.y col m
  let m := strokeLine fb s p1.x p1.y p2.x p2.y col m
  strokeLine fb s p2.x p2.y p0.x p0.y col m

/-- `nk_rawfb_stroke_polyline`. -/
def strokePolyline (fb : Image) (s : Scissors) (pnts : List Point) (col : UInt32) (m : Pixels) :
    Pixels :=
  (pnts.zip pnts.tail).foldl (fun m e => strokeLine fb s e.1.x e.1.y e.2.x e.2.y col m) m

/-- `nk_rawfb_stroke_polygon`. -/
def strokePolygon (fb : Image) (s : Scissors) (pnts : List Point) (col : UInt32) (m : Pixels) :
    Pixels :=
  let m := strokePolyline fb s pnts col m
  match pnts.getLast?, pnts.head? with
  | some last, some first => strokeLine fb s last.x last.y first.x first.y col m
  | _, _ => m

/-- `nk_rawfb_stroke_curve`, with the points behind the segments. -/
def strokeCurve (fb : Image) (s : Scissors) (p1 : Point) (segments : ℕ) (bezier : ℕ → Point)
    (col : UInt32) (m : Pixels) : Pixels :=
  strokePolyline fb s (p1 :: (List.range (max segments 1)).map (fun i => bezier (i + 1))) col m

/-! ### Images -/

/-- A picture that is drawn into a rectangle: what can be read of it, where its columns and rows are
read, and the colour that it is drawn with. -/
structure Picture where
  w : ℤ
  h : ℤ
  pixel : ℤ → ℤ → Color
  xoff : ℕ → ℤ
  yoff : ℕ → ℤ
  fg : Color
  is_font : Bool

/-- The colour of a picture, after so many steps to the right and down: outside of the picture
nothing, inside the colour of the font, or the pixel with its opacity lowered. -/
def Picture.color (p : Picture) (i j : ℕ) : Color :=
  let col :=
    if p.yoff j < p.h ∧ p.yoff j ≥ 0 ∧ p.xoff i ≥ 0 ∧ p.xoff i < p.w then
      p.pixel (p.xoff i) (p.yoff j)
    else ⟨0, 0, 0, 0⟩
  if p.is_font then
    if col.r ≠ 0 ∨ col.g ≠ 0 ∨ col.b ≠ 0 then { p.fg with a := col.a } else col
  else { col with a := UInt8.ofNat (col.a.toNat * p.fg.a.toNat / 255) }

/-- A row of `nk_rawfb_stretch_image`; the picture is stepped through only where the scissors do not
skip a pixel. -/
def stretchRow (fb : Image) (s : Scissors) (x y w : ℤ) (color : ℕ → ℕ → Color) (j : ℕ)
    (m : Pixels) : Pixels :=
  ((List.range w.toNat).foldl (fun (mk : Pixels × ℕ) (i : ℕ) =>
    if i + x < s.x ∨ i + x ≥ s.w then mk
    else if j + y < s.y ∨ j + y ≥ s.h then mk
    else (imgBlendpixel fb (i + x) (j + y) (color mk.2 j) mk.1, mk.2 + 1)) (m, 0)).1

/-- `nk_rawfb_stretch_image`, into the rectangle of `w` columns and `h` rows from a pixel on. -/
def stretchImage (fb : Image) (s : Scissors) (x y w h : ℤ) (color : ℕ → ℕ → Color) (m : Pixels) :
    Pixels :=
  (List.range h.toNat).foldl (fun m j => stretchRow fb s x y w color j m) m

/-- A place as `(int)(x + 0.5f)` has it. -/
def rounded (x : ℤ) : ℤ := if x < 0 then x + 1 else x

/-- `nk_rawfb_drawimage`. -/
def drawimage (fb : Image) (s : Scissors) (x y w h : ℤ) (img : Picture) (m : Pixels) : Pixels :=
  stretchImage fb s (rounded x) (rounded y) (short w) (short h) img.color m

/-- A glyph of a text: the rectangle into which it is drawn, and the picture. -/
structure Glyph where
  x : ℤ
  y : ℤ
  w : ℤ
  h : ℤ
  img : Picture

/-- `nk_rawfb_draw_text`, of the glyphs. -/
def drawText (fb : Image) (s : Scissors) (glyphs : List Glyph) (m : Pixels) : Pixels :=
  glyphs.foldl (fun m g => stretchImage fb s g.x g.y (short g.w) (short g.h) g.img.color m) m

/-! ### Commands -/

/-- `struct nk_command`; the commands for arcs do not occur. -/
inductive Command where
  | nop
  | scissor (x y : ℤ) (w h : ℕ)
  | line (p0 p1 : Point) (color : Color)
  | rect (x y : ℤ) (w h rounding : ℕ) (color : Color)
  | rectFilled (x y : ℤ) (w h rounding : ℕ) (color : Color)
  | circle (x y : ℤ) (w h : ℕ) (color : Color)
  | circleFilled (x y : ℤ) (w h : ℕ) (color : Color)
  | triangle (a b c : Point) (color : Color)
  | triangleFilled (a b c : Point) (color : Color)
  | polygon (points : List Point) (color : Color)
  | polygonFilled (points : List Point) (color : Color)
  | polyline (points : List Point) (color : Color)
  | text (glyphs : List Glyph)
  | curve (p1 p2 p3 p4 : Point) (color : Color)
  | rectMultiColor (x y : ℤ) (w h : ℕ) (left top right bottom : Color)
  | image (x y : ℤ) (w h : ℕ) (img : Picture)

/-- What is computed in floating point, and whether memory can be had and what is in it. -/
structure Outside where
  cross : Crossing
  bezier : Point → Point → Point → Point → ℕ → Point
  gradient : Gradient
  malloc : Bool
  newMemory : ℤ → Color

/-- What a command draws. -/
def draw (n : ℕ) (o : Outside) (fb : Image) (s : Scissors) : Command → Pixels → Pixels
  | .nop, m => m
  | .scissor .., m => m
  | .line p0 p1 color, m => strokeLine fb s p0.x p0.y p1.x p1.y (color2int color) m
  | .rect x y w h r color, m => strokeRect n fb s x y w h r (color2int color) m
  | .rectFilled x y w h r color, m => fillRect n fb s o.cross x y w h r (color2int color) m
  | .circle x y w h color, m => strokeCircle n fb s x y w h (color2int color) m
  | .circleFilled x y w h color, m => fillCircle n fb s x y w h (color2int color) m
  | .triangle a b c color, m => strokeTriangle fb s a b c (color2int color) m
  | .triangleFilled a b c color, m => fillTriangle fb s o.cross a b c (color2int color) m
  | .polygon points color, m => strokePolygon fb s points (color2int color) m
  | .polygonFilled points color, m => fillPolygon fb s o.cross points (color2int color) m
  | .polyline points color, m => strokePolyline fb s points (color2int color) m
  | .text glyphs, m => drawText fb s glyphs m
  | .curve p1 p2 p3 p4 color, m =>
      strokeCurve fb s p1 22 (o.bezier p1 p2 p3 p4) (color2int color) m
  | .rectMultiColor x y w h left top right bottom, m =>
      drawRectMultiColor fb o.malloc o.gradient o.newMemory x y w h left top right bottom m
  | .image x y w h img, m => drawimage fb s x y w h img m

/-- The scissors behind a command. -/
def scissorsAfter (fb : Image) (s : Scissors) : Command → Scissors
  | .scissor x y w h => scissor fb x y w h
  | _ => s

/-- One command. -/
def renderCommand (n : ℕ) (o : Outside) (fb : Image) (st : Pixels × Scissors) (cmd : Command) :
    Pixels × Scissors :=
  (draw n o fb st.2 cmd st.1, scissorsAfter fb st.2 cmd)

/-- A frame: the colour to clear with, if any, and the commands. -/
structure Frame where
  clear : Option Color
  cmds : List Command

/-- `nk_rawfb_render`. -/
def render (n : ℕ) (o : Outside) (fb : Image) (st : Pixels × Scissors) (f : Frame) :
    Pixels × Scissors :=
  let m :=
    match f.clear with
    | some color => clear n fb st.2 o.cross (color2int color) st.1
    | none => st.1
  f.cmds.foldl (renderCommand n o fb) (m, st.2)

/-- Some frames. -/
def renderAll (n : ℕ) (o : Outside) (fb : Image) (frames : List Frame) (st : Pixels × Scissors) :
    Pixels × Scissors :=
  frames.foldl (render n o fb) st

/-- `nk_rawfb_init` sets the scissors to the whole frame buffer. -/
def initialScissors (fb : Image) : Scissors := scissor fb 0 0 fb.w fb.h

end LnxCad.Render
