import LnxCad.Render.Commands

/-!
# Frames

Every command is local: to the part of the frame buffer between the scissors, or, for a rectangle of
many colours, to the frame buffer.  Over any run of frames the scissors stay inside the frame buffer,
and nothing else is written.  A frame that is cleared over the whole buffer is a function of its
commands alone, which is what lets two buffers be drawn in turns.
-/

namespace LnxCad.Render

variable {fb : Image} {s : Scissors}

/-! ### Regions -/

/-- The pixels of the frame buffer. -/
def frameRegion (fb : Image) : Set ℤ :=
  {a | ∃ X Y, (0 ≤ X ∧ X < fb.w) ∧ (0 ≤ Y ∧ Y < fb.h) ∧ a = fb.address X Y}

/-- The pixels that the scissors let through. -/
def window (fb : Image) (s : Scissors) : Set ℤ := region fb s (fun _ _ => True)

theorem window_subset (hs : s.Inside fb) :
  window fb s ⊆ frameRegion fb
  := by
  obtain ⟨hx, hy, -, hw, hh⟩ := hs
  rintro a ⟨X, Y, ⟨hX, hX', hY, hY'⟩, -, rfl⟩
  exact ⟨X, Y, by omega, by omega, rfl⟩

/-- Where a command draws. -/
def scope (fb : Image) (s : Scissors) : Command → Set ℤ
  | .rectMultiColor .. => frameRegion fb
  | _ => window fb s

/-! ### The functions are local -/

theorem Draws.local {col : UInt32} {P : ℤ → ℤ → Prop} {f : Pixels → Pixels}
    (h : Draws fb s col P f) :
  Store.Local (window fb s) f
  := by
  apply (Store.Local.of_painted h).mono
  rintro a ⟨X, Y, hholds, -, ha⟩
  exact ⟨X, Y, hholds, trivial, ha⟩

theorem local_fillPolygon (fb : Image) (s : Scissors) (cross : Crossing) (pnts : List Point)
    (col : UInt32) :
  Store.Local (window fb s) (fillPolygon fb s cross pnts col)
  := by
  have hpairs : ∀ (l r y : ℤ) (nodeX : List ℤ),
      Store.Local (window fb s) (fillPairs fb s l r y col nodeX) := by
    intro l r y nodeX
    induction nodeX using List.twoStepInduction with
    | nil => exact Store.Local.id _
    | singleton n => exact Store.Local.id _
    | cons_cons n0 n1 nodeX ih _ =>
        have hspan : ∀ x0 x1, Store.Local (window fb s) (fillSpan fb s x0 x1 y col) := by
          intro x0 x1
          exact Store.Local.foldl (fun i _ => (draws_ctxSetpixel fb s (x0 + i) y col).local)
        rw [fillPairs_cons]
        by_cases hbreak : n0 ≥ r
        · simp only [if_pos hbreak]
          exact Store.Local.id _
        · simp only [if_neg hbreak]
          by_cases hleft : n1 > l
          · simp only [if_pos hleft]
            exact (hspan _ _).comp ih
          · simp only [if_neg hleft]
            exact ih
  unfold fillPolygon
  by_cases hnil : pnts = []
  · simp only [if_pos hnil]
    exact Store.Local.id _
  · simp only [if_neg hnil]
    exact Store.Local.foldl (fun i _ => hpairs _ _ _ _)

theorem local_quarter {A : Set ℤ} {draw : ℤ → ℤ → Pixels → Pixels}
    (hdraw : ∀ x y, Store.Local A (draw x y)) (n : ℕ) (w h : ℤ) :
  Store.Local A (quarter draw n w h)
  := by
  have heq : quarter draw n w h
      = fun m => (quarterPath n w h).foldl (fun m q => draw q.1 q.2 m) m := by
    funext m
    exact quarter_eq draw n w h m
  rw [heq]
  exact Store.Local.foldl (fun q _ => hdraw q.1 q.2)

theorem local_strokeArc (n : ℕ) (fb : Image) (s : Scissors) (x0 y0 w h angle : ℤ) (col : UInt32) :
  Store.Local (window fb s) (strokeArc n fb s x0 y0 w h angle col)
  := by
  unfold strokeArc
  dsimp only
  by_cases hangle : angle ≠ 0 ∧ angle ≠ 90 ∧ angle ≠ 180 ∧ angle ≠ 270
  · simp only [if_pos hangle]
    exact Store.Local.id _
  · simp only [if_neg hangle]
    by_cases hsize : short w < 1 ∨ short h < 1
    · simp only [if_pos hsize]
      exact Store.Local.id _
    · simp only [if_neg hsize]
      exact local_quarter (fun x y => (draws_ctxSetpixel fb s _ _ col).local) n _ _

theorem local_fillArc (n : ℕ) (fb : Image) (s : Scissors) (cross : Crossing) (x0 y0 w h angle : ℤ)
    (col : UInt32) :
  Store.Local (window fb s) (fillArc n fb s cross x0 y0 w h angle col)
  := by
  unfold fillArc
  dsimp only
  by_cases hsize : short w < 1 ∨ short h < 1
  · simp only [if_pos hsize]
    exact Store.Local.id _
  · simp only [if_neg hsize]
    by_cases hangle : angle ≠ 0 ∧ angle ≠ 90 ∧ angle ≠ 180 ∧ angle ≠ 270
    · simp only [if_pos hangle]
      exact Store.Local.id _
    · simp only [if_neg hangle, quarter_eq]
      -- the point of the next turn does not depend on what is drawn
      apply Store.Local.foldl_with (I := fun _ => True)
      · intro q _ t _
        change Store.Local _ (fillPolygon fb s cross [_, _, t] col)
        exact local_fillPolygon fb s cross _ col
      · exact fun q m t => rfl
      · exact fun q _ t _ => trivial
      · trivial

theorem local_imgBlendpixel (fb : Image) (x0 y0 : ℤ) (col : Color) {A : Set ℤ}
    (hA : 0 ≤ x0 → x0 < fb.w → 0 ≤ y0 → y0 < fb.h → fb.address x0 y0 ∈ A) :
  Store.Local A (imgBlendpixel fb x0 y0 col)
  := by
  unfold imgBlendpixel
  by_cases hclear : col.a = 0
  · simp only [if_pos hclear]
    exact Store.Local.id A
  · simp only [if_neg hclear]
    by_cases hin : y0 < fb.h ∧ y0 ≥ 0 ∧ x0 ≥ 0 ∧ x0 < fb.w
    · simp only [if_pos hin]
      exact Store.Local.modify (hA hin.2.2.1 hin.2.2.2 hin.2.1 hin.1)
        (fun old => color2int (blend col (int2color old)))
    · simp only [if_neg hin]
      exact Store.Local.id A

theorem local_stretchImage (fb : Image) (s : Scissors) (x y w h : ℤ) (color : ℕ → ℕ → Color) :
  Store.Local (window fb s) (stretchImage fb s x y w h color)
  := by
  apply Store.Local.foldl
  intro j _
  unfold stretchRow
  apply Store.Local.foldl_with (I := fun _ => True)
    (g := fun k (i : ℕ) => if i + x < s.x ∨ i + x ≥ s.w then k
      else if (j : ℤ) + y < s.y ∨ j + y ≥ s.h then k else k + 1)
  · intro i _ k _
    by_cases hx : (i : ℤ) + x < s.x ∨ i + x ≥ s.w
    · simp only [if_pos hx]
      exact Store.Local.id _
    · simp only [if_neg hx]
      by_cases hy : (j : ℤ) + y < s.y ∨ j + y ≥ s.h
      · simp only [if_pos hy]
        exact Store.Local.id _
      · simp only [if_neg hy]
        apply local_imgBlendpixel
        intro _ _ _ _
        refine ⟨i + x, j + y, ⟨?_, ?_, ?_, ?_⟩, trivial, rfl⟩
        all_goals omega
  · intro i m k
    dsimp only
    split
    · rfl
    · split
      · rfl
      · rfl
  · exact fun _ _ _ _ => trivial
  · exact trivial

section Valid

variable (hfb : fb.Valid) (hs : s.Inside fb)

include hfb hs

theorem local_strokeLine (x0 y0 x1 y1 : ℤ) (col : UInt32) :
  Store.Local (window fb s) (strokeLine fb s x0 y0 x1 y1 col)
  := by
  obtain ⟨P, hP⟩ := exists_draws_strokeLine hfb hs x0 y0 x1 y1 col
  exact hP.local

theorem local_strokePolyline (pnts : List Point) (col : UInt32) :
  Store.Local (window fb s) (strokePolyline fb s pnts col)
  := Store.Local.foldl (fun _ _ => local_strokeLine hfb hs _ _ _ _ col)

theorem local_strokePolygon (pnts : List Point) (col : UInt32) :
  Store.Local (window fb s) (strokePolygon fb s pnts col)
  := by
  unfold strokePolygon
  cases pnts.getLast? with
  | none => exact local_strokePolyline hfb hs pnts col
  | some last =>
      cases pnts.head? with
      | none => exact local_strokePolyline hfb hs pnts col
      | some first =>
          exact (local_strokePolyline hfb hs pnts col).comp (local_strokeLine hfb hs _ _ _ _ col)

theorem local_strokeRect (n : ℕ) (x y w h r : ℤ) (col : UInt32) :
  Store.Local (window fb s) (strokeRect n fb s x y w h r col)
  := by
  have hline x0 y0 x1 y1 := local_strokeLine hfb hs x0 y0 x1 y1 col
  have harc x y w h s' := local_strokeArc n fb s x y w h s' col
  unfold strokeRect
  dsimp only
  by_cases hr : short r = 0
  · simp only [if_pos hr]
    exact (((hline _ _ _ _).comp (hline _ _ _ _)).comp (hline _ _ _ _)).comp (hline _ _ _ _)
  · simp only [if_neg hr]
    exact (((((((hline _ _ _ _).comp (hline _ _ _ _)).comp (hline _ _ _ _)).comp
      (hline _ _ _ _)).comp (harc _ _ _ _ _)).comp (harc _ _ _ _ _)).comp (harc _ _ _ _ _)).comp
        (harc _ _ _ _ _)

theorem local_fillRect (n : ℕ) (cross : Crossing) (x y w h r : ℤ) (col : UInt32) :
  Store.Local (window fb s) (fillRect n fb s cross x y w h r col)
  := by
  have harc x y w h s' := local_fillArc n fb s cross x y w h s' col
  unfold fillRect
  dsimp only
  by_cases hr : short r = 0
  · simp only [if_pos hr]
    exact Store.Local.foldl (fun _ _ => local_strokeLine hfb hs _ _ _ _ col)
  · simp only [if_neg hr]
    exact ((((local_fillPolygon fb s cross _ col).comp (harc _ _ _ _ _)).comp
      (harc _ _ _ _ _)).comp (harc _ _ _ _ _)).comp (harc _ _ _ _ _)

/-- Every command is local to its scope. -/
theorem local_draw (n : ℕ) (o : Outside) (cmd : Command) :
  Store.Local (scope fb s cmd) (draw n o fb s cmd)
  := by
  have hline := local_strokeLine hfb hs
  cases cmd with
  | nop => exact Store.Local.id _
  | scissor x y w h => exact Store.Local.id _
  | line p0 p1 color => exact hline _ _ _ _ _
  | rect x y w h r color => exact local_strokeRect hfb hs n x y w h r (color2int color)
  | rectFilled x y w h r color =>
      exact local_fillRect hfb hs n o.cross x y w h r (color2int color)
  | circle x y w h color =>
      exact local_quarter (fun x y => (((draws_ctxSetpixel fb s _ _ _).local.comp
        (draws_ctxSetpixel fb s _ _ _).local).comp (draws_ctxSetpixel fb s _ _ _).local).comp
          (draws_ctxSetpixel fb s _ _ _).local) n _ _
  | circleFilled x y w h color =>
      exact local_quarter (fun x y => (hline _ _ _ _ _).comp (hline _ _ _ _ _)) n _ _
  | triangle a b c color => exact ((hline _ _ _ _ _).comp (hline _ _ _ _ _)).comp (hline _ _ _ _ _)
  | triangleFilled a b c color => exact local_fillPolygon fb s o.cross [a, b, c] (color2int color)
  | polygon points color => exact local_strokePolygon hfb hs points _
  | polygonFilled points color => exact local_fillPolygon fb s o.cross points _
  | polyline points color => exact local_strokePolyline hfb hs points _
  | text glyphs => exact Store.Local.foldl (fun g _ => local_stretchImage fb s _ _ _ _ _)
  | curve p1 p2 p3 p4 color => exact local_strokePolyline hfb hs _ _
  | rectMultiColor x y w h left top right bottom =>
      unfold draw drawRectMultiColor
      dsimp only
      by_cases hmalloc : o.malloc = false
      · simp only [if_pos hmalloc]
        exact Store.Local.id _
      · simp only [if_neg hmalloc]
        apply Store.Local.foldl
        intro i _
        apply Store.Local.foldl
        intro j _
        apply local_imgBlendpixel
        intro hx hw hy hh
        exact ⟨_, _, ⟨hx, hw⟩, ⟨hy, hh⟩, rfl⟩
  | image x y w h img => exact local_stretchImage fb s _ _ _ _ _

end Valid

theorem scope_subset (hs : s.Inside fb) (cmd : Command) :
  scope fb s cmd ⊆ frameRegion fb
  := by
  unfold scope
  split
  · exact subset_rfl
  · exact window_subset hs

/-! ### Rectangles of many colours -/

theorem scissorsAfter_inside (hfb : fb.Valid) (hs : s.Inside fb) (cmd : Command) :
  (scissorsAfter fb s cmd).Inside fb
  := by
  unfold scissorsAfter
  split
  case h_1 x y w h => exact scissor_inside hfb x y (Int.natCast_nonneg w)
  case h_2 => exact hs

/-- The scissors behind some commands. -/
def scissorsBehind (fb : Image) (s : Scissors) (cmds : List Command) : Scissors :=
  cmds.foldl (scissorsAfter fb) s

theorem scissorsBehind_inside (hfb : fb.Valid) (hs : s.Inside fb) (cmds : List Command) :
  (scissorsBehind fb s cmds).Inside fb
  := by
  unfold scissorsBehind
  induction cmds generalizing s with
  | nil => exact hs
  | cons cmd cmds ih => exact ih (scissorsAfter_inside hfb hs cmd)

/-- What a frame draws, with the scissors that the frame before it left. -/
def drawFrame (n : ℕ) (o : Outside) (fb : Image) (s : Scissors) (f : Frame) (m : Pixels) : Pixels :=
  (render n o fb (m, s) f).1

theorem foldl_renderCommand_snd (n : ℕ) (o : Outside) (fb : Image) (cmds : List Command)
    (st : Pixels × Scissors) :
  (cmds.foldl (renderCommand n o fb) st).2 = scissorsBehind fb st.2 cmds
  := by
  unfold scissorsBehind
  induction cmds generalizing st with
  | nil => rfl
  | cons cmd cmds ih =>
      rw [List.foldl_cons, ih]
      rfl

theorem render_snd (n : ℕ) (o : Outside) (fb : Image) (st : Pixels × Scissors) (f : Frame) :
  (render n o fb st f).2 = scissorsBehind fb st.2 f.cmds
  := foldl_renderCommand_snd n o fb f.cmds _

section Valid

variable (hfb : fb.Valid)

include hfb

theorem local_commands (hs : s.Inside fb) (n : ℕ) (o : Outside) (cmds : List Command) :
  Store.Local (frameRegion fb) (fun m => (cmds.foldl (renderCommand n o fb) (m, s)).1)
  := by
  apply Store.Local.foldl_with (I := fun s => s.Inside fb) (g := scissorsAfter fb)
  · intro cmd _ s hs
    exact (local_draw hfb hs n o cmd).mono (scope_subset hs cmd)
  · exact fun cmd m s => rfl
  · exact fun cmd _ s hs => scissorsAfter_inside hfb hs cmd
  · exact hs

theorem local_drawFrame (hs : s.Inside fb) (n : ℕ) (o : Outside) (f : Frame) :
  Store.Local (frameRegion fb) (drawFrame n o fb s f)
  := by
  unfold drawFrame render
  cases f.clear with
  | none => exact local_commands hfb hs n o f.cmds
  | some color =>
      exact ((local_fillRect hfb hs n o.cross 0 0 fb.w fb.h 0 (color2int color)).mono
        (window_subset hs)).comp (local_commands hfb hs n o f.cmds)

/-- One frame keeps the scissors inside the frame buffer. -/
theorem render_inside {st : Pixels × Scissors} (hs : st.2.Inside fb) (n : ℕ) (o : Outside)
    (f : Frame) :
  (render n o fb st f).2.Inside fb
  := by
  rw [render_snd]
  exact scissorsBehind_inside hfb hs f.cmds

theorem initialScissors_inside :
  (initialScissors fb).Inside fb
  := scissor_inside hfb 0 0 hfb.w_nonneg

/-- Frames in a row write nothing but the frame buffer. -/
theorem renderAll_inside {st : Pixels × Scissors} (hs : st.2.Inside fb) (n : ℕ) (o : Outside)
    (frames : List Frame) :
  (renderAll n o fb frames st).2.Inside fb
    ∧ Store.Within (frameRegion fb) st.1 (renderAll n o fb frames st).1
  := by
  unfold renderAll
  induction frames generalizing st with
  | nil => exact ⟨hs, Store.Within.refl _ _⟩
  | cons f frames ih =>
      obtain ⟨hs', hwithin⟩ := ih (render_inside hfb hs n o f)
      exact ⟨hs', ((local_drawFrame hfb hs n o f).within st.1).trans hwithin⟩

end Valid

/-- A frame buffer in which nothing was written. -/
def blank : Pixels := ⟨fun _ => 0, []⟩

/-- Crossings without errors of rounding, and no curves and gradients. -/
def exactOutside : Outside where
  cross := exactCrossing
  bezier p _ _ _ _ := p
  gradient c _ _ _ := c
  malloc := true
  newMemory _ := ⟨0, 0, 0, 0⟩

/-- A filled rectangle without rounding covers its pixels. -/
theorem draws_fillRect (hfb : fb.Valid) (hs : s.Inside fb) (n : ℕ) (cross : Crossing) {x y w h : ℤ}
    (hx : -2 ^ 15 ≤ x) (hy : -2 ^ 15 ≤ y) (hw : 0 ≤ w) (hxw : x + w < 2 ^ 15) (hw' : w < 2 ^ 15)
    (hh : 0 ≤ h) (hyh : y + h < 2 ^ 15) (hh' : h < 2 ^ 15) (col : UInt32) :
  Draws fb s col (fun X Y => (x ≤ X ∧ X < x + w) ∧ y ≤ Y ∧ Y < y + h)
    (fillRect n fb s cross x y w h 0 col)
  := by
  have hrect : fillRect n fb s cross x y w h 0 col
      = fun m => (List.range h.toNat).foldl (fun m (i : ℕ) =>
        strokeLine fb s x (y + i) (x + w) (y + i) col m) m := by
    funext m
    unfold fillRect
    dsimp only
    rw [if_pos (by decide), short_eq (v := x) (by omega) (by omega),
      short_eq (v := y) (by omega) (by omega), short_eq (v := w) (by omega) (by omega),
      short_eq (v := h) (by omega) (by omega)]
  have hrows : Draws fb s col
      (fun X Y => ∃ i ∈ List.range h.toNat, Y = y + i ∧ min x (x + w) ≤ X ∧ X < max x (x + w))
      (fun m => (List.range h.toNat).foldl (fun m (i : ℕ) =>
        strokeLine fb s x (y + i) (x + w) (y + i) col m) m) := by
    apply Draws.foldl
    intro i hi
    rw [List.mem_range] at hi
    apply draws_strokeLine_horizontal hfb hs
    · omega
    · omega
    · omega
  rw [hrect]
  apply hrows.congr
  intro X Y _
  constructor
  · rintro ⟨i, hi, rfl, hlo, hhi⟩
    rw [List.mem_range] at hi
    omega
  · rintro ⟨⟨hlo, hhi⟩, hlo', hhi'⟩
    refine ⟨(Y - y).toNat, List.mem_range.mpr (by omega), by omega, by omega, by omega⟩

/-- After a filled rectangle is drawn, its pixels that the scissors let through have its colour, and
all others are as they were and were not written. -/
theorem fillRect_exact (hfb : fb.Valid) (hs : s.Inside fb) (n : ℕ) (cross : Crossing) {x y : ℤ}
    {w h : ℕ} (hx : -2 ^ 15 ≤ x) (hy : -2 ^ 15 ≤ y) (hxw : x + w < 2 ^ 15) (hw : w < 2 ^ 15)
    (hyh : y + h < 2 ^ 15) (hh : h < 2 ^ 15) (col : UInt32) (m : Pixels) :
  let m' := fillRect n fb s cross x y w h 0 col m
  Store.Within (region fb s (fun X Y => (x ≤ X ∧ X < x + w) ∧ y ≤ Y ∧ Y < y + h)) m m'
    ∧ ∀ X Y, s.Holds X Y →
      m'.cell (fb.address X Y)
        = if (x ≤ X ∧ X < x + w) ∧ y ≤ Y ∧ Y < y + h then col else m.cell (fb.address X Y)
  := by
  have hpaint := draws_fillRect hfb hs n cross hx hy (w := w) (h := h) (by omega) hxw (by omega)
    (by omega) hyh (by omega) col m
  refine ⟨hpaint.within, fun X Y hin => ?_⟩
  split
  case isTrue hrect => exact hpaint.covers _ ⟨X, Y, hin, hrect, rfl⟩
  case isFalse hrect =>
    apply hpaint.within.cell_eq
    rintro ⟨X', Y', ⟨hl, hr, -, -⟩, hrect', heq⟩
    obtain ⟨hx0, -, -, hw0, -⟩ := hs
    obtain ⟨hX, hX', -, -⟩ := hin
    obtain ⟨rfl, rfl⟩ := hfb.address_inj (by omega) (by omega) (by omega) (by omega) heq
    exact hrect hrect'

theorem fillRect_exact_vga :
  let s := scissor ⟨640, 480, 2560⟩ 20 20 200 100
  let m' := fillRect 2000 ⟨640, 480, 2560⟩ s exactCrossing (-3) 50 (600 : ℕ) (600 : ℕ) 0 255 blank
  Store.Within (region ⟨640, 480, 2560⟩ s
      (fun X Y => (-3 ≤ X ∧ X < -3 + (600 : ℕ)) ∧ 50 ≤ Y ∧ Y < 50 + (600 : ℕ))) blank m'
    ∧ ∀ X Y, s.Holds X Y →
      m'.cell (Image.address ⟨640, 480, 2560⟩ X Y)
        = if (-3 ≤ X ∧ X < -3 + (600 : ℕ)) ∧ 50 ≤ Y ∧ Y < 50 + (600 : ℕ) then 255
          else blank.cell (Image.address ⟨640, 480, 2560⟩ X Y)
  := fillRect_exact valid_vga (scissor_inside valid_vga 20 20 (by norm_num)) 2000 exactCrossing
    (by norm_num) (by norm_num) (by norm_num) (by norm_num) (by norm_num) (by norm_num) 255 blank

/-- Clearing covers what the scissors let through. -/
theorem painted_clear (hfb : fb.Valid) (hs : s.Inside fb) (n : ℕ) (cross : Crossing) (col : UInt32)
    (m : Pixels) :
  Store.Painted (window fb s) col m (clear n fb s cross col m)
  := by
  have hw := hfb.w_lt
  have hh := hfb.h_lt
  have hdraws := draws_fillRect hfb hs n cross (x := 0) (y := 0) (by norm_num) (by norm_num)
    hfb.w_nonneg (by omega) hw hfb.h_nonneg (by omega) hh col
  obtain ⟨hx, hy, -, hws, hhs⟩ := hs
  refine (hdraws.congr (Q := fun _ _ => True) ?_) m
  rintro X Y ⟨hX, hX', hY, hY'⟩
  constructor
  · exact fun _ => trivial
  · intro _
    omega

/-! ### Frames that are cleared -/

/-- The command is one for the scissors. -/
def Command.isScissor : Command → Bool
  | .scissor .. => true
  | _ => false

/-- The last command for the scissors. -/
def lastScissor (cmds : List Command) : Option Command := cmds.reverse.find? Command.isScissor

/-- `nk_null_rect`, as a command. -/
def nullRect : Command := .scissor (-8192) (-8192) 16384 16384

/-- The frame leaves the scissors as they were, or sets them to `nk_null_rect` in the end. -/
def Frame.Unclipped (f : Frame) : Prop := ∀ cmd, lastScissor f.cmds = some cmd → cmd = nullRect

/-- The scissors let the whole frame buffer through. -/
def wholeScissors (fb : Image) : Scissors := ⟨0, 0, fb.w, fb.h⟩

theorem initialScissors_eq (hfb : fb.Valid) :
  initialScissors fb = wholeScissors fb
  := by
  have hw := hfb.w_nonneg
  have hh := hfb.h_nonneg
  unfold initialScissors scissor wholeScissors
  rw [Scissors.mk.injEq]
  omega

theorem scissorsAfter_nullRect (hfb : fb.Valid) (hw : fb.w ≤ 8192) (hh : fb.h ≤ 8192)
    (s : Scissors) :
  scissorsAfter fb s nullRect = wholeScissors fb
  := by
  have hw' := hfb.w_nonneg
  have hh' := hfb.h_nonneg
  change scissor fb (-8192) (-8192) 16384 16384 = wholeScissors fb
  unfold scissor wholeScissors
  rw [Scissors.mk.injEq]
  omega

/-- The scissors behind some commands are those of the last command that set them. -/
theorem scissorsBehind_eq (fb : Image) (s : Scissors) (cmds : List Command) :
  scissorsBehind fb s cmds
    = match lastScissor cmds with
      | some cmd => scissorsAfter fb s cmd
      | none => s
  := by
  induction cmds using List.reverseRecOn with
  | nil => rfl
  | append_singleton cmds cmd ih =>
      have hstep : scissorsBehind fb s (cmds ++ [cmd])
          = scissorsAfter fb (scissorsBehind fb s cmds) cmd := by
        unfold scissorsBehind
        rw [List.foldl_append]
        rfl
      have hlast : lastScissor (cmds ++ [cmd])
          = if cmd.isScissor then some cmd else lastScissor cmds := by
        unfold lastScissor
        rw [List.reverse_append, List.reverse_singleton, List.singleton_append, List.find?_cons]
        cases cmd.isScissor with
        | false => rfl
        | true => rfl
      rw [hstep, hlast, ih]
      cases cmd
      all_goals rfl

/-- A frame that ends unclipped leaves the whole frame buffer to the next one. -/
theorem scissorsBehind_whole (hfb : fb.Valid) (hw : fb.w ≤ 8192) (hh : fb.h ≤ 8192) {f : Frame}
    (hf : f.Unclipped) :
  scissorsBehind fb (wholeScissors fb) f.cmds = wholeScissors fb
  := by
  rw [scissorsBehind_eq]
  cases hlast : lastScissor f.cmds with
  | none => rfl
  | some cmd =>
      dsimp only
      rw [hf cmd hlast]
      exact scissorsAfter_nullRect hfb hw hh _

theorem renderAll_whole (hfb : fb.Valid) (hw : fb.w ≤ 8192) (hh : fb.h ≤ 8192) (n : ℕ) (o : Outside)
    {frames : List Frame} (hframes : ∀ f ∈ frames, f.Unclipped) {st : Pixels × Scissors}
    (hst : st.2 = wholeScissors fb) :
  (renderAll n o fb frames st).2 = wholeScissors fb
  := by
  unfold renderAll
  induction frames generalizing st with
  | nil => exact hst
  | cons f frames ih =>
      rw [List.foldl_cons]
      apply ih (fun f' hf' => hframes f' (by simp [hf']))
      rw [render_snd, hst]
      exact scissorsBehind_whole hfb hw hh (hframes f (by simp))

theorem window_whole (fb : Image) :
  window fb (wholeScissors fb) = frameRegion fb
  := by
  ext a
  constructor
  · rintro ⟨X, Y, ⟨hX, hX', hY, hY'⟩, -, rfl⟩
    exact ⟨X, Y, ⟨hX, hX'⟩, ⟨hY, hY'⟩, rfl⟩
  · rintro ⟨X, Y, ⟨hX, hX'⟩, ⟨hY, hY'⟩, rfl⟩
    exact ⟨X, Y, ⟨hX, hX', hY, hY'⟩, trivial, rfl⟩

/-- Of two buffers with whatever contents, a frame that is cleared over the whole buffer makes the
same picture. -/
theorem drawFrame_agree (hfb : fb.Valid) (hs : s.Inside fb) (hwhole : window fb s = frameRegion fb)
    (n : ℕ) (o : Outside) {f : Frame} {color : Color} (hclear : f.clear = some color)
    (m m' : Pixels) {a : ℤ} (ha : a ∈ frameRegion fb) :
  (drawFrame n o fb s f m).cell a = (drawFrame n o fb s f m').cell a
  := by
  have hpaint := fun m => painted_clear hfb hs n o.cross (color2int color) m
  unfold drawFrame render
  rw [hclear]
  apply (local_commands hfb hs n o f.cmds).cellwise
  rw [← hwhole] at ha
  rw [(hpaint m).covers a ha, (hpaint m').covers a ha]

/-- After any frames that end unclipped, a frame that is cleared shows nothing of what the buffer held
before. -/
theorem drawFrame_independent (hfb : fb.Valid) (hw : fb.w ≤ 8192) (hh : fb.h ≤ 8192) (n : ℕ)
    (o : Outside) (frames : List Frame) (hframes : ∀ f ∈ frames, f.Unclipped) (m : Pixels)
    (f : Frame) (color : Color) (hclear : f.clear = some color) (m' m'' : Pixels) :
  let s := (renderAll n o fb frames (m, initialScissors fb)).2
  ∀ a ∈ frameRegion fb, (drawFrame n o fb s f m').cell a = (drawFrame n o fb s f m'').cell a
  := by
  have hinitial : (m, initialScissors fb).2.Inside fb := initialScissors_inside hfb
  have hs := (renderAll_inside hfb hinitial n o frames).1
  have hwhole := @renderAll_whole fb hfb hw hh n o frames hframes (m, initialScissors fb)
    (initialScissors_eq hfb)
  intro s a ha
  exact drawFrame_agree hfb hs (by rw [hwhole, window_whole]) n o hclear m' m'' ha

/-- A frame buffer that is white. -/
def white : Pixels := ⟨fun _ => 16777215, []⟩

theorem drawFrame_independent_vga :
  let s := (renderAll 2000 exactOutside ⟨640, 480, 2560⟩
    [⟨none, [.scissor 5 5 100 100, .line ⟨0, 0⟩ ⟨50, 50⟩ ⟨1, 2, 3, 255⟩, nullRect]⟩]
    (blank, initialScissors ⟨640, 480, 2560⟩)).2
  (drawFrame 2000 exactOutside ⟨640, 480, 2560⟩ s
      ⟨some ⟨32, 80, 129, 255⟩, [.scissor 5 5 100 100]⟩ blank).cell
      (Image.address ⟨640, 480, 2560⟩ 7 8)
    = (drawFrame 2000 exactOutside ⟨640, 480, 2560⟩ s
      ⟨some ⟨32, 80, 129, 255⟩, [.scissor 5 5 100 100]⟩ white).cell
      (Image.address ⟨640, 480, 2560⟩ 7 8)
  := by
  apply drawFrame_independent valid_vga (by norm_num) (by norm_num) 2000 exactOutside _ _ blank _
    ⟨32, 80, 129, 255⟩ rfl
  · exact ⟨7, 8, by norm_num, by norm_num, rfl⟩
  · intro f hf
    obtain rfl := List.mem_singleton.mp hf
    intro cmd hcmd
    exact (Option.some.inj hcmd).symm

end LnxCad.Render
