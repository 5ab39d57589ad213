import LnxCad.Render.Frames

/-!
# Pictures and texts

A picture is drawn into a rectangle pixel by pixel, and each pixel is mixed once with what was there.
The columns of the picture are counted only where the scissors let a pixel through: a picture whose
left side is cut off begins with its first column all the same.  The rows are counted all.
-/

namespace LnxCad.Render

variable {fb : Image} {s : Scissors}

/-! ### One pixel -/

/-- What a pixel that is mixed with a colour becomes. -/
def mixed (col : Color) (old : UInt32) : Option UInt32 :=
  if col.a = 0 then none else some (color2int (blend col (int2color old)))

theorem imgBlendpixel_eq {x0 y0 : ℤ} (hx : 0 ≤ x0 ∧ x0 < fb.w) (hy : 0 ≤ y0 ∧ y0 < fb.h)
    (col : Color) (m : Pixels) :
  imgBlendpixel fb x0 y0 col m = m.touch (fb.address x0 y0) (mixed col)
  := by
  unfold imgBlendpixel Store.touch mixed
  by_cases hclear : col.a = 0
  · rw [if_pos hclear, if_pos hclear]
  · rw [if_neg hclear, if_neg hclear, if_pos ⟨hy.2, hy.1, hx.1, hx.2⟩]

/-! ### Rows -/

/-- Where the scissors let a row through, its pixels take the colours in turn. -/
theorem stretchRow_eq (hs : s.Inside fb) (x y w : ℤ) (color : ℕ → ℕ → Color) {j : ℕ}
    (hj : ¬ ((j : ℤ) + y < s.y ∨ j + y ≥ s.h)) (m : Pixels) :
  stretchRow fb s x y w color j m
    = (List.range w.toNat).foldl (fun m (i : ℕ) =>
      if (i : ℤ) + x < s.x ∨ i + x ≥ s.w then m
      else m.touch (fb.address (i + x) (j + y)) (mixed (color (i - (s.x - x).toNat) j))) m
  := by
  obtain ⟨hx0, hy0, -, hw, hh⟩ := hs
  obtain ⟨l, hl⟩ : ∃ l, l = (s.x - x).toNat := ⟨_, rfl⟩
  obtain ⟨r, hr⟩ : ∃ r, r = (s.w - x).toNat := ⟨_, rfl⟩
  -- behind some columns, those of them that were let through are counted
  have hrun : ∀ (cols : ℕ), (List.range cols).foldl (fun (mk : Pixels × ℕ) (i : ℕ) =>
        if (i : ℤ) + x < s.x ∨ i + x ≥ s.w then mk
        else if (j : ℤ) + y < s.y ∨ j + y ≥ s.h then mk
        else (imgBlendpixel fb (i + x) (j + y) (color mk.2 j) mk.1, mk.2 + 1)) (m, 0)
      = ((List.range cols).foldl (fun m (i : ℕ) =>
        if (i : ℤ) + x < s.x ∨ i + x ≥ s.w then m
        else m.touch (fb.address (i + x) (j + y)) (mixed (color (i - l) j))) m, min cols r - l) := by
    intro cols
    induction cols with
    | zero =>
        rw [Nat.zero_min, Nat.zero_sub]
        rfl
    | succ cols ih =>
        rw [List.range_succ, List.foldl_append, List.foldl_append, ih]
        change (if (cols : ℤ) + x < s.x ∨ cols + x ≥ s.w then _ else _) = _
        by_cases hskip : (cols : ℤ) + x < s.x ∨ cols + x ≥ s.w
        · rw [if_pos hskip]
          refine Prod.ext ?_ ?_
          · exact (if_pos hskip).symm
          · change min cols r - l = min (cols + 1) r - l
            omega
        · have hcount : min cols r - l = cols - l := by omega
          rw [if_neg hskip, if_neg hj, imgBlendpixel_eq (by omega) (by omega), hcount]
          refine Prod.ext ?_ ?_
          · exact (if_neg hskip).symm
          · change cols - l + 1 = min (cols + 1) r - l
            omega
  unfold stretchRow
  rw [hrun, ← hl]

theorem stretchRow_skipped (x y w : ℤ) (color : ℕ → ℕ → Color) {j : ℕ}
    (hj : (j : ℤ) + y < s.y ∨ j + y ≥ s.h) (m : Pixels) :
  stretchRow fb s x y w color j m = m
  := by
  unfold stretchRow
  simp only [if_pos hj, ite_self, List.foldl_fixed]

/-! ### Pictures -/

/-- The columns and rows of a rectangle that the scissors let through. -/
def places (s : Scissors) (x y w h : ℤ) : List (ℕ × ℕ) :=
  (List.range h.toNat).filter (fun (j : ℕ) => ¬ ((j : ℤ) + y < s.y ∨ j + y ≥ s.h)) ×ˢ
    (List.range w.toNat).filter (fun (i : ℕ) => ¬ ((i : ℤ) + x < s.x ∨ i + x ≥ s.w))

theorem mem_places {x y w h : ℤ} {j i : ℕ} :
  (j, i) ∈ places s x y w h
    ↔ ((j : ℤ) < h ∧ s.y ≤ j + y ∧ j + y < s.h) ∧ (i : ℤ) < w ∧ s.x ≤ i + x ∧ i + x < s.w
  := by
  refine List.pair_mem_product.trans ?_
  rw [List.mem_filter, List.mem_filter, List.mem_range, List.mem_range, decide_eq_true_eq,
    decide_eq_true_eq]
  omega

/-- A picture is drawn by visiting its places, each of which is mixed with one colour. -/
theorem stretchImage_eq (hs : s.Inside fb) (x y w h : ℤ) (color : ℕ → ℕ → Color) (m : Pixels) :
  stretchImage fb s x y w h color m
    = m.touchAll (places s x y w h) (fun k => fb.address (k.2 + x) (k.1 + y))
      (fun k => mixed (color (k.2 - (s.x - x).toNat) k.1))
  := by
  have hrow : ∀ (m : Pixels) (j : ℕ), stretchRow fb s x y w color j m
      = if (j : ℤ) + y < s.y ∨ j + y ≥ s.h then m
        else (List.range w.toNat).foldl (fun m (i : ℕ) =>
          if (i : ℤ) + x < s.x ∨ i + x ≥ s.w then m
          else m.touch (fb.address (i + x) (j + y)) (mixed (color (i - (s.x - x).toNat) j))) m := by
    intro m j
    split
    case isTrue hj => exact stretchRow_skipped x y w color hj m
    case isFalse hj => exact stretchRow_eq hs x y w color hj m
  unfold stretchImage places
  simp only [hrow]
  exact Store.foldl_foldl_touch m (List.range h.toNat) (List.range w.toNat)
    (fun (j : ℕ) => (j : ℤ) + y < s.y ∨ j + y ≥ s.h) (fun (i : ℕ) => (i : ℤ) + x < s.x ∨ i + x ≥ s.w)
    (fun j i => fb.address (i + x) (j + y)) (fun j i => mixed (color (i - (s.x - x).toNat) j))

theorem nodup_places (hfb : fb.Valid) (hs : s.Inside fb) (x y w h : ℤ) :
  ((places s x y w h).map (fun k => fb.address (k.2 + x) (k.1 + y))).Nodup
  := by
  obtain ⟨hx0, -, -, hw, -⟩ := hs
  apply List.Nodup.map_on
  · rintro ⟨j, i⟩ hk ⟨j', i'⟩ hk' heq
    rw [mem_places] at hk hk'
    obtain ⟨hX, hY⟩ := hfb.address_inj (by omega) (by omega) (by omega) (by omega) heq
    rw [Prod.mk.injEq]
    omega
  · exact List.Nodup.product (List.nodup_range.filter _) (List.nodup_range.filter _)

/-- What a picture makes of a pixel: inside of the rectangle it is mixed, once, with a colour of the
picture, the columns of which are counted from the scissors on. -/
theorem stretchImage_cell (hfb : fb.Valid) (hs : s.Inside fb) (x y w h : ℤ)
    (color : ℕ → ℕ → Color) (m : Pixels) {X Y : ℤ} (hin : s.Holds X Y) :
  (stretchImage fb s x y w h color m).cell (fb.address X Y)
    = if (x ≤ X ∧ X < x + w) ∧ y ≤ Y ∧ Y < y + h then
        (mixed (color (X - max x s.x).toNat (Y - y).toNat) (m.cell (fb.address X Y))).getD
          (m.cell (fb.address X Y))
      else m.cell (fb.address X Y)
  := by
  obtain ⟨hX, hX', hY, hY'⟩ := hin
  rw [stretchImage_eq hs]
  split
  case isTrue hrect =>
    have hplace : ((Y - y).toNat, (X - x).toNat) ∈ places s x y w h := by
      rw [mem_places]
      omega
    have hcell := Store.touchAll_cell_of_mem (s := m)
      (f := fun k : ℕ × ℕ => mixed (color (k.2 - (s.x - x).toNat) k.1))
      (nodup_places hfb hs x y w h) hplace
    have hcol : ((X - x).toNat : ℤ) + x = X := by omega
    have hrow : ((Y - y).toNat : ℤ) + y = Y := by omega
    have hcount : (X - x).toNat - (s.x - x).toNat = (X - max x s.x).toNat := by omega
    dsimp only at hcell
    rw [hcol, hrow, hcount] at hcell
    exact hcell
  case isFalse hrect =>
    obtain ⟨hx0, -, -, hw, -⟩ := hs
    apply Store.touchAll_cell_of_not_mem
    rintro ⟨j, i⟩ hk heq
    rw [mem_places] at hk
    obtain ⟨hX, hY⟩ := hfb.address_inj (by omega) (by omega) (by omega) (by omega) heq
    apply hrect
    omega

/-- What an image command makes of the frame buffer: every pixel of its rectangle that the scissors
let through is mixed once with a pixel of the picture, counted from the left edge of the scissors if
that cuts the rectangle and from the top edge of the rectangle, and nothing else is written. -/
theorem drawimage_exact (hfb : fb.Valid) (hs : s.Inside fb) {x y : ℤ} {w h : ℕ} (hw : w < 2 ^ 15)
    (hh : h < 2 ^ 15) (img : Picture) (m : Pixels) :
  let m' := drawimage fb s x y w h img m
  let x' := rounded x
  let y' := rounded y
  Store.Within (window fb s) m m'
    ∧ ∀ X Y, s.Holds X Y →
      m'.cell (fb.address X Y)
        = if (x' ≤ X ∧ X < x' + w) ∧ y' ≤ Y ∧ Y < y' + h then
            (mixed (img.color (X - max x' s.x).toNat (Y - y').toNat)
              (m.cell (fb.address X Y))).getD (m.cell (fb.address X Y))
          else m.cell (fb.address X Y)
  := by
  have hw' : short w = w := short_eq (by omega) (by omega)
  have hh' : short h = h := short_eq (by omega) (by omega)
  refine ⟨(local_stretchImage fb s _ _ _ _ _).within m, fun X Y hin => ?_⟩
  unfold drawimage
  rw [hw', hh']
  exact stretchImage_cell hfb hs _ _ _ _ _ m hin

/-- A picture of two by two pixels, drawn at 16 by 32: `xoff` and `yoff` are as the loops of
`nk_rawfb_stretch_image` compute them. -/
def halves : Picture where
  w := 2
  h := 2
  pixel x _ := if x < 1 then ⟨255, 0, 0, 255⟩ else ⟨0, 0, 255, 128⟩
  xoff i := i / 8
  yoff j := j / 16
  fg := ⟨255, 255, 255, 255⟩
  is_font := false

theorem drawimage_exact_vga :
  let s := scissor ⟨640, 480, 2560⟩ 20 20 200 100
  let m' := drawimage ⟨640, 480, 2560⟩ s 10 10 (16 : ℕ) (32 : ℕ) halves blank
  Store.Within (window ⟨640, 480, 2560⟩ s) blank m'
    ∧ ∀ X Y, s.Holds X Y →
      m'.cell (Image.address ⟨640, 480, 2560⟩ X Y)
        = if (rounded 10 ≤ X ∧ X < rounded 10 + (16 : ℕ)) ∧ rounded 10 ≤ Y
            ∧ Y < rounded 10 + (32 : ℕ) then
            (mixed (halves.color (X - max (rounded 10) s.x).toNat (Y - rounded 10).toNat)
              (blank.cell (Image.address ⟨640, 480, 2560⟩ X Y))).getD
                (blank.cell (Image.address ⟨640, 480, 2560⟩ X Y))
          else blank.cell (Image.address ⟨640, 480, 2560⟩ X Y)
  := drawimage_exact valid_vga (scissor_inside valid_vga 20 20 (by norm_num)) (by norm_num)
    (by norm_num) halves blank

end LnxCad.Render
