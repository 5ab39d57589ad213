import LnxCad.Lib.Int32
import LnxCad.Lib.Pixel
import LnxCad.Lib.Store

/-!
# Drawing into the frame buffer

`draw_rect`, `draw_image` and `draw_cursor` pass over the pixels of a rectangle, leave out those
that are not on the screen, and write the others into the frame buffer, an image blended with what
is there.  As long as the index of a pixel does not leave the words that it is computed with, they
change the pixels of the rectangle that are on the screen, and nothing else.
-/

namespace LnxCad

open Pixel

/-! ### The functions -/

/-- The frame buffer, as the functions get it. -/
structure Framebuffer where
  fbW : UInt32
  fbH : UInt32
  pitch : UInt32
deriving DecidableEq

/-- The pixels from one row to the next. -/
def Framebuffer.stride (s : Framebuffer) : UInt32 := s.pitch / 4

/-- The index `sy * stride + sx`, in words of 32 bits. -/
def Framebuffer.index (s : Framebuffer) (sx sy : ℤ) : ℕ :=
  ((sy * s.stride.toNat + sx) % 2 ^ 32).toNat

/-- The loops of the three functions, over a rectangle at `(x, y)`; `paint` gives the value that a
pixel is to have, if any. -/
def drawLoop (s : Framebuffer) (x y w h : ℤ) (paint : ℕ → ℕ → UInt32 → Option UInt32)
    (dst : Store ℕ UInt32) : Store ℕ UInt32 :=
  (List.range h.toNat).foldl (fun dst (cy : ℕ) =>
    if int32 (y + cy) < 0 ∨ int32 (y + cy) ≥ int32 s.fbH.toNat then dst
    else (List.range w.toNat).foldl (fun dst (cx : ℕ) =>
      if int32 (x + cx) < 0 ∨ int32 (x + cx) ≥ int32 s.fbW.toNat then dst
      else dst.touch (s.index (int32 (x + cx)) (int32 (y + cy))) (paint cx cy)) dst) dst

/-- `draw_rect`. -/
def drawRect (s : Framebuffer) (x y w h : ℤ) (color : UInt32) (dst : Store ℕ UInt32) :
    Store ℕ UInt32 :=
  drawLoop s x y w h (fun _ _ _ => some color) dst

/-- What `draw_image` writes for a pixel of the image. -/
def imagePixel (cpx bg : UInt32) : Option UInt32 :=
  let alpha : UInt32 := (cpx >>> 24) &&& 255
  if alpha = 255 then some (cpx &&& 0xFFFFFF)
  else if alpha > 0 then
    let invAlpha : UInt32 := 255 - alpha
    let r : UInt32 :=
      (((cpx >>> 16) &&& (255 : UInt32)) * alpha + ((bg >>> 16) &&& (255 : UInt32)) * invAlpha) / 255
    let g : UInt32 :=
      (((cpx >>> 8) &&& (255 : UInt32)) * alpha + ((bg >>> 8) &&& (255 : UInt32)) * invAlpha) / 255
    let b : UInt32 := ((cpx &&& 255) * alpha + (bg &&& 255) * invAlpha) / 255
    some (pack r g b)
  else none

/-- `draw_image`. -/
def drawImage (s : Framebuffer) (x y imgW imgH : ℤ) (imgData : ℕ → UInt32)
    (dst : Store ℕ UInt32) : Store ℕ UInt32 :=
  drawLoop s x y imgW imgH
    (fun cx cy => imagePixel (imgData (int32 (int32 (cy * imgW) + cx)).toNat)) dst

/-- The image of the cursor, and the place in it that points. -/
structure Cursor where
  cursorW : ℤ
  cursorH : ℤ
  cursorHotX : ℤ
  cursorHotY : ℤ
  cursorData : ℕ → UInt32

/-- What `draw_cursor` writes for a pixel of the cursor. -/
def cursorPixel (cpx bg : UInt32) : Option UInt32 :=
  let alpha : UInt32 := (cpx >>> 24) &&& 255
  if alpha = 0 then none
  else
    let cr : UInt32 := (cpx >>> 16) &&& 255
    let cg : UInt32 := (cpx >>> 8) &&& 255
    let cb : UInt32 := cpx &&& 255
    if alpha = 255 then some (pack cr cg cb)
    else
      let br : UInt32 := (bg >>> 16) &&& 255
      let bg' : UInt32 := (bg >>> 8) &&& 255
      let bb : UInt32 := bg &&& 255
      let inv : UInt32 := 255 - alpha
      let r : UInt32 := (cr * 255 + br * inv) / 255
      let g : UInt32 := (cg * 255 + bg' * inv) / 255
      let b : UInt32 := (cb * 255 + bb * inv) / 255
      some (pack r g b)

/-- `draw_cursor`. -/
def drawCursor (s : Framebuffer) (c : Cursor) (mx my : ℤ) (dst : Store ℕ UInt32) :
    Store ℕ UInt32 :=
  drawLoop s (int32 (mx - c.cursorHotX)) (int32 (my - c.cursorHotY)) c.cursorW c.cursorH
    (fun cx cy => cursorPixel (c.cursorData (int32 (int32 (cy * c.cursorW) + cx)).toNat)) dst

/-! ### What a pixel is to become -/

/-- `out` is a pixel blended with the one that was there, by a rule for the channels of a pixel that
is neither opaque nor transparent. -/
structure IsBlend (mix : ℕ → ℕ → ℕ → ℕ) (src bg out : UInt32) : Prop where
  covers : channel src 24 = 255 →
    (∀ k ∈ [16, 8, 0], channel out k = channel src k) ∧ channel out 24 = 0
  leaves : channel src 24 = 0 → out = bg
  mixes : 0 < channel src 24 → channel src 24 < 255 →
    (∀ k ∈ [16, 8, 0], mix (channel src 24) (channel src k) (channel bg k) ≤ 255
      ∧ channel out k = mix (channel src 24) (channel src k) (channel bg k)) ∧ channel out 24 = 0

/-- The channels of an image are weighted with its alpha. -/
def mixImage (alpha c b : ℕ) : ℕ := (c * alpha + b * (255 - alpha)) / 255

/-- The channels of the cursor are weighted already. -/
def mixCursor (alpha c b : ℕ) : ℕ := (c * 255 + b * (255 - alpha)) / 255

/-- How often a pixel is written. -/
def timesWritten (src : UInt32) : ℕ := if channel src 24 = 0 then 0 else 1

theorem mixImage_le {alpha c b : ℕ} (ha : alpha ≤ 255) (hc : c ≤ 255) (hb : b ≤ 255) :
  mixImage alpha c b ≤ 255
  := by
  have hweights : c * alpha + b * (255 - alpha) ≤ 255 * 255 := by
    calc c * alpha + b * (255 - alpha)
        ≤ 255 * alpha + 255 * (255 - alpha) := by gcongr
      _ = 255 * 255 := by omega
  unfold mixImage
  omega

theorem mixCursor_le {alpha c b : ℕ} (ha : alpha ≤ 255) (hc : c ≤ alpha) (hb : b ≤ 255) :
  mixCursor alpha c b ≤ 255
  := by
  have hweights : c * 255 + b * (255 - alpha) ≤ 255 * 255 := by
    calc c * 255 + b * (255 - alpha)
        ≤ alpha * 255 + 255 * (255 - alpha) := by gcongr
      _ = 255 * 255 := by omega
  unfold mixCursor
  omega

/-- The channels as the functions take them out. -/
theorem toNat_channels (p : UInt32) :
  ((p >>> 24) &&& 255).toNat = channel p 24 ∧ ((p >>> 16) &&& 255).toNat = channel p 16
    ∧ ((p >>> 8) &&& 255).toNat = channel p 8 ∧ (p &&& 255).toNat = channel p 0
  := by
  refine ⟨toNat_shiftRight_and p (by decide), toNat_shiftRight_and p (by decide),
    toNat_shiftRight_and p (by decide), ?_⟩
  rw [toNat_and_mask, channel, pow_zero, Nat.div_one]

/-- Three mixed channels, packed, are a blend with what was there. -/
theorem isBlend_pack {mix : ℕ → ℕ → ℕ → ℕ} {src bg r g b : UInt32}
    (halpha : 0 < channel src 24 ∧ channel src 24 < 255)
    (hle : ∀ k ∈ [16, 8, 0], mix (channel src 24) (channel src k) (channel bg k) ≤ 255)
    (hr : r.toNat = mix (channel src 24) (channel src 16) (channel bg 16))
    (hg : g.toNat = mix (channel src 24) (channel src 8) (channel bg 8))
    (hb : b.toNat = mix (channel src 24) (channel src 0) (channel bg 0)) :
  IsBlend mix src bg (pack r g b)
  := by
  have h16 := hle 16 (by simp)
  have h8 := hle 8 (by simp)
  have h0 := hle 0 (by simp)
  obtain ⟨hpr, hpg, hpb, hpa⟩ := channel_pack (r := r) (g := g) (b := b) (by omega) (by omega)
    (by omega)
  constructor
  · intro hcovers
    omega
  · intro hleaves
    omega
  · intro _ _
    refine ⟨?_, hpa⟩
    apply forall_colours
    · exact ⟨h16, hpr.trans hr⟩
    · exact ⟨h8, hpg.trans hg⟩
    · exact ⟨h0, hpb.trans hb⟩

/-- A pixel that keeps the channels of an opaque one is a blend. -/
theorem isBlend_of_covers {mix : ℕ → ℕ → ℕ → ℕ} {src bg out : UInt32} (halpha : channel src 24 = 255)
    (h : (∀ k ∈ [16, 8, 0], channel out k = channel src k) ∧ channel out 24 = 0) :
  IsBlend mix src bg out
  := by
  constructor
  · exact fun _ => h
  · intro hleaves
    omega
  · intro _ hlt
    omega

/-- A transparent pixel leaves what was there. -/
theorem isBlend_of_leaves {mix : ℕ → ℕ → ℕ → ℕ} {src : UInt32} (halpha : channel src 24 = 0)
    (bg : UInt32) :
  IsBlend mix src bg bg
  := by
  constructor
  · intro hcovers
    omega
  · exact fun _ => rfl
  · intro hpos
    omega

/-- The alpha of a pixel, as the functions compare it. -/
theorem alpha_cases (src : UInt32) :
  (channel src 24 = 0 ∧ (src >>> 24) &&& 255 = 0)
    ∨ (channel src 24 = 255 ∧ (src >>> 24) &&& 255 = 255)
    ∨ ((0 < channel src 24 ∧ channel src 24 < 255) ∧ (src >>> 24) &&& 255 ≠ 0
      ∧ (src >>> 24) &&& 255 ≠ 255 ∧ ((255 : UInt32) - ((src >>> 24) &&& 255)).toNat = 255 - channel src 24)
  := by
  obtain ⟨halpha, -⟩ := toNat_channels src
  have hlt := channel_lt src 24
  have h255 : (255 : UInt32).toNat = 255 := rfl
  have h0 : (0 : UInt32).toNat = 0 := rfl
  rw [← UInt32.toNat_inj, ← UInt32.toNat_inj, Ne, Ne, ← UInt32.toNat_inj, ← UInt32.toNat_inj,
    UInt32.toNat_sub_of_le, halpha, h255, h0]
  · omega
  · rw [UInt32.le_iff_toNat_le, halpha, h255]
    omega

theorem timesWritten_of_ne {src : UInt32} (h : channel src 24 ≠ 0) :
  timesWritten src = 1
  := if_neg h

/-- `draw_image` blends a pixel of the image. -/
theorem imagePixel_isBlend (src bg : UInt32) :
  IsBlend mixImage src bg ((imagePixel src bg).getD bg)
    ∧ (if (imagePixel src bg).isSome then 1 else 0) = timesWritten src
  := by
  obtain ⟨halpha, hr, hg, hb⟩ := toNat_channels src
  obtain ⟨-, hbr, hbg, hbb⟩ := toNat_channels bg
  have hlt := channel_lt src
  have hltbg := channel_lt bg
  obtain ⟨hzero, hword⟩ | ⟨hfull, hword⟩ | ⟨hmid, hne0, hne255, hinv⟩ := alpha_cases src
  · have hnone : imagePixel src bg = none := by
      unfold imagePixel
      rw [hword]
      rfl
    rw [hnone, timesWritten, if_pos hzero]
    exact ⟨isBlend_of_leaves hzero bg, rfl⟩
  · have hsome : imagePixel src bg = some (src &&& 0xFFFFFF) := by
      unfold imagePixel
      rw [hword]
      rfl
    rw [hsome, timesWritten_of_ne (by omega)]
    exact ⟨isBlend_of_covers hfull (channel_and_mask src), rfl⟩
  · have hpos : (src >>> 24) &&& 255 > (0 : UInt32) := by
      rw [gt_iff_lt, UInt32.lt_iff_toNat_lt, halpha]
      exact hmid.1
    have hlt24 := hlt 24
    rw [timesWritten_of_ne (by omega), imagePixel]
    dsimp only
    rw [if_neg hne255, if_pos hpos]
    refine ⟨?_, rfl⟩
    apply isBlend_pack hmid
    · intro k _
      apply mixImage_le
      · omega
      · exact Nat.le_of_lt_succ (hlt k)
      · exact Nat.le_of_lt_succ (hltbg k)
    · exact toNat_weighted hr hbr halpha hinv (hlt 16) (hltbg 16) hlt24 (by omega)
    · exact toNat_weighted hg hbg halpha hinv (hlt 8) (hltbg 8) hlt24 (by omega)
    · exact toNat_weighted hb hbb halpha hinv (hlt 0) (hltbg 0) hlt24 (by omega)

/-- The channels of a pixel are weighted with its alpha. -/
def Premultiplied (src : UInt32) : Prop := ∀ k ∈ [16, 8, 0], channel src k ≤ channel src 24

/-- `draw_cursor` blends a pixel of the cursor. -/
theorem cursorPixel_isBlend {src : UInt32} (h : Premultiplied src) (bg : UInt32) :
  IsBlend mixCursor src bg ((cursorPixel src bg).getD bg)
    ∧ (if (cursorPixel src bg).isSome then 1 else 0) = timesWritten src
  := by
  obtain ⟨halpha, hr, hg, hb⟩ := toNat_channels src
  obtain ⟨-, hbr, hbg, hbb⟩ := toNat_channels bg
  have hlt := channel_lt src
  have hltbg := channel_lt bg
  have h255 : (255 : UInt32).toNat = 255 := rfl
  obtain ⟨hzero, hword⟩ | ⟨hfull, hword⟩ | ⟨hmid, hne0, hne255, hinv⟩ := alpha_cases src
  · have hnone : cursorPixel src bg = none := by
      unfold cursorPixel
      rw [hword]
      rfl
    rw [hnone, timesWritten, if_pos hzero]
    exact ⟨isBlend_of_leaves hzero bg, rfl⟩
  · have hsome : cursorPixel src bg
        = some (pack ((src >>> 16) &&& 255) ((src >>> 8) &&& 255) (src &&& 255)) := by
      unfold cursorPixel
      rw [hword]
      rfl
    obtain ⟨hpr, hpg, hpb, hpa⟩ := channel_pack (hr.trans_lt (hlt 16)) (hg.trans_lt (hlt 8))
      (hb.trans_lt (hlt 0))
    rw [hsome, timesWritten_of_ne (by omega)]
    refine ⟨isBlend_of_covers hfull ⟨?_, hpa⟩, rfl⟩
    apply forall_colours
    · exact hpr.trans hr
    · exact hpg.trans hg
    · exact hpb.trans hb
  · rw [timesWritten_of_ne (by omega), cursorPixel]
    dsimp only
    rw [if_neg hne0, if_neg hne255]
    refine ⟨?_, rfl⟩
    apply isBlend_pack hmid
    · intro k hk
      apply mixCursor_le
      · omega
      · exact h k hk
      · exact Nat.le_of_lt_succ (hltbg k)
    · exact toNat_weighted hr hbr h255 hinv (hlt 16) (hltbg 16) (by decide) (by omega)
    · exact toNat_weighted hg hbg h255 hinv (hlt 8) (hltbg 8) (by decide) (by omega)
    · exact toNat_weighted hb hbb h255 hinv (hlt 0) (hltbg 0) (by decide) (by omega)

/-! ### Clipping -/

/-- A frame buffer as it is described to the functions: not empty, with rows of whole pixels, at
least as long as they are wide. -/
structure Framebuffer.Valid (s : Framebuffer) : Prop where
  one_le_fbW : 1 ≤ s.fbW.toNat
  one_le_fbH : 1 ≤ s.fbH.toNat
  dvd_pitch : 4 ∣ s.pitch.toNat
  fbW_le : 4 * s.fbW.toNat ≤ s.pitch.toNat

/-- The rows are counted by an `int`, and a word of 32 bits reaches every pixel. -/
structure Framebuffer.Addressable (s : Framebuffer) : Prop where
  fbH_lt : s.fbH.toNat < 2 ^ 31
  pixels_le : s.fbH.toNat * s.stride.toNat ≤ 2 ^ 32

/-- Where a pixel of the screen is in the frame buffer. -/
def Framebuffer.address (s : Framebuffer) (X Y : ℕ) : ℕ := Y * s.stride.toNat + X

/-- The sums of a position and the indices of the loops stay in the range of `int`. -/
structure IntSums (x y w h : ℤ) : Prop where
  left : -2 ^ 31 ≤ x ∧ x < 2 ^ 31
  right : x + w ≤ 2 ^ 31
  top : -2 ^ 31 ≤ y ∧ y < 2 ^ 31
  bottom : y + h ≤ 2 ^ 31

/-- The pixel `(cx, cy)` of a rectangle at `(x, y)` is the pixel `(X, Y)` of the screen. -/
structure Framebuffer.Shows (s : Framebuffer) (x y w h : ℤ) (cx cy X Y : ℕ) : Prop where
  inW : (cx : ℤ) < w
  inH : (cy : ℤ) < h
  col : x + cx = X
  row : y + cy = Y
  onW : X < s.fbW.toNat
  onH : Y < s.fbH.toNat

/-- A rectangle was drawn: the pixels of it that are on the screen have become what they are to
become, and were written as often as they are to be; every other pixel of the memory was left
alone. -/
structure Clipped (s : Framebuffer) (x y w h : ℤ) (becomes : ℕ → ℕ → UInt32 → UInt32 → Prop)
    (times : ℕ → ℕ → ℕ) (dst dst' : Store ℕ UInt32) : Prop where
  inside : ∀ {cx cy X Y}, s.Shows x y w h cx cy X Y →
    becomes cx cy (dst.cell (s.address X Y)) (dst'.cell (s.address X Y))
      ∧ dst'.writes.count (s.address X Y) = dst.writes.count (s.address X Y) + times cx cy
  outside : ∀ {a}, (∀ cx cy X Y, s.Shows x y w h cx cy X Y → s.address X Y ≠ a) →
    dst'.cell a = dst.cell a ∧ dst'.writes.count a = dst.writes.count a

namespace Framebuffer

variable {s : Framebuffer} {x y w h : ℤ}

theorem Valid.fbW_le_stride (hs : s.Valid) :
  s.fbW.toNat ≤ s.stride.toNat
  := by
  have hpitch := hs.fbW_le
  have hstride : s.stride.toNat = s.pitch.toNat / 4 := UInt32.toNat_div s.pitch 4
  omega

theorem Valid.fbW_lt (hs : s.Valid) :
  s.fbW.toNat < 2 ^ 31
  := by
  have hpitch := hs.fbW_le
  have hword := s.pitch.toNat_lt
  omega

/-- The index that is computed for a pixel of the screen is where the pixel is. -/
theorem Valid.index_eq (hs : s.Valid) (haddr : s.Addressable) {X Y : ℕ} (hX : X < s.fbW.toNat)
    (hY : Y < s.fbH.toNat) :
  s.index X Y = s.address X Y
  := by
  have hstride := hs.fbW_le_stride
  have hrow : Y * s.stride.toNat + s.stride.toNat ≤ s.fbH.toNat * s.stride.toNat := by
    rw [← Nat.succ_mul]
    exact Nat.mul_le_mul_right _ hY
  have hpixels := haddr.pixels_le
  have hcast : ((Y : ℤ) * (s.stride.toNat : ℤ) + (X : ℤ)) = ((s.address X Y : ℕ) : ℤ) := by
    rw [address]
    push_cast
    rfl
  have hlt : s.address X Y < 2 ^ 32 := by
    rw [address]
    omega
  rw [index, hcast]
  omega

/-- Different pixels of the screen are in different places. -/
theorem Valid.address_inj (hs : s.Valid) {X Y X' Y' : ℕ} (hX : X < s.fbW.toNat)
    (hX' : X' < s.fbW.toNat) (h : s.address X Y = s.address X' Y') :
  X = X' ∧ Y = Y'
  := by
  have hstride := hs.fbW_le_stride
  have hpos : 0 < s.stride.toNat := by omega
  have hcol : ∀ {X Y}, X < s.fbW.toNat → s.address X Y % s.stride.toNat = X := by
    intro X Y hX
    rw [address, Nat.add_comm, Nat.add_mul_mod_self_right, Nat.mod_eq_of_lt (by omega)]
  have hrow : ∀ {X Y}, X < s.fbW.toNat → s.address X Y / s.stride.toNat = Y := by
    intro X Y hX
    rw [address, Nat.add_comm, Nat.add_mul_div_right _ _ hpos, Nat.div_eq_of_lt (by omega),
      Nat.zero_add]
  have hcols := hcol (Y := Y) hX
  have hrows := hrow (Y := Y) hX
  rw [h, hcol hX'] at hcols
  rw [h, hrow hX'] at hrows
  exact ⟨hcols.symm, hrows.symm⟩

/-- The pixels of a rectangle that the loops do not leave out, each by its row and its column. -/
def places (s : Framebuffer) (x y w h : ℤ) : List (ℕ × ℕ) :=
  (List.range h.toNat).filter
      (fun cy : ℕ => ¬ (int32 (y + cy) < 0 ∨ int32 (y + cy) ≥ int32 s.fbH.toNat))
    ×ˢ (List.range w.toNat).filter
      (fun cx : ℕ => ¬ (int32 (x + cx) < 0 ∨ int32 (x + cx) ≥ int32 s.fbW.toNat))

/-- The place that the loops compute for a pixel of a rectangle. -/
def placed (s : Framebuffer) (x y : ℤ) (k : ℕ × ℕ) : ℕ :=
  s.index (int32 (x + k.2)) (int32 (y + k.1))

theorem nodup_places (s : Framebuffer) (x y w h : ℤ) :
  (s.places x y w h).Nodup
  := (List.nodup_range.filter _).product (List.nodup_range.filter _)

theorem drawLoop_eq (s : Framebuffer) (x y w h : ℤ) (paint : ℕ → ℕ → UInt32 → Option UInt32)
    (dst : Store ℕ UInt32) :
  drawLoop s x y w h paint dst
    = dst.touchAll (s.places x y w h) (s.placed x y) (fun k => paint k.2 k.1)
  := Store.foldl_foldl_touch dst _ _ _ _
    (fun cy cx : ℕ => s.index (int32 (x + cx)) (int32 (y + cy))) (fun cy cx => paint cx cy)

/-- The sums of a shown pixel are computed without an overflow. -/
theorem Shows.sums_eq {cx cy X Y : ℕ} (hshow : s.Shows x y w h cx cy X Y)
    (hsums : IntSums x y w h) :
  int32 (x + cx) = X ∧ int32 (y + cy) = Y
  := by
  obtain ⟨hw, hh, hcol, hrow, -, -⟩ := hshow
  obtain ⟨hleft, hright, htop, hbottom⟩ := hsums
  rw [← hcol, ← hrow, int32_eq (by omega) (by omega), int32_eq (by omega) (by omega)]
  exact ⟨rfl, rfl⟩

theorem Shows.placed_eq (hs : s.Valid) (haddr : s.Addressable) {cx cy X Y : ℕ}
    (hshow : s.Shows x y w h cx cy X Y) (hsums : IntSums x y w h) :
  s.placed x y (cy, cx) = s.address X Y
  := by
  obtain ⟨hcol, hrow⟩ := hshow.sums_eq hsums
  rw [placed, hcol, hrow, hs.index_eq haddr hshow.onW hshow.onH]

/-- The loops leave out exactly the pixels that are not shown. -/
theorem mem_places_iff (hs : s.Valid) (haddr : s.Addressable) (hsums : IntSums x y w h)
    {cx cy : ℕ} :
  (cy, cx) ∈ s.places x y w h ↔ ∃ X Y, s.Shows x y w h cx cy X Y
  := by
  have hwidth : int32 s.fbW.toNat = s.fbW.toNat :=
    int32_eq (by omega) (by exact_mod_cast hs.fbW_lt)
  have hheight : int32 s.fbH.toNat = s.fbH.toNat :=
    int32_eq (by omega) (by exact_mod_cast haddr.fbH_lt)
  refine List.pair_mem_product.trans ?_
  rw [List.mem_filter, List.mem_filter, List.mem_range, List.mem_range, hwidth, hheight]
  simp only [decide_eq_true_eq, not_or, not_lt, ge_iff_le, not_le]
  constructor
  · rintro ⟨⟨hh, hy, hY⟩, hw, hx, hX⟩
    obtain ⟨hleft, hright, htop, hbottom⟩ := hsums
    rw [int32_eq (by omega) (by omega)] at hy hY hx hX
    refine ⟨(x + cx).toNat, (y + cy).toNat, ?_, ?_, ?_, ?_, ?_, ?_⟩
    all_goals omega
  · rintro ⟨X, Y, hshow⟩
    obtain ⟨hcol, hrow⟩ := hshow.sums_eq hsums
    obtain ⟨hw, hh, -, -, hX, hY⟩ := hshow
    rw [hcol, hrow]
    omega

theorem nodup_map_placed (hs : s.Valid) (haddr : s.Addressable) (hsums : IntSums x y w h) :
  ((s.places x y w h).map (s.placed x y)).Nodup
  := by
  apply (s.nodup_places x y w h).map_on
  rintro ⟨cy, cx⟩ hk ⟨cy', cx'⟩ hk' heq
  obtain ⟨X, Y, hshow⟩ := (mem_places_iff hs haddr hsums).mp hk
  obtain ⟨X', Y', hshow'⟩ := (mem_places_iff hs haddr hsums).mp hk'
  rw [hshow.placed_eq hs haddr hsums, hshow'.placed_eq hs haddr hsums] at heq
  obtain ⟨rfl, rfl⟩ := hs.address_inj hshow.onW hshow'.onW heq
  have hcol := hshow.col.trans hshow'.col.symm
  have hrow := hshow.row.trans hshow'.row.symm
  simp only [Prod.mk.injEq]
  omega

/-- The loops draw a clipped rectangle. -/
theorem clipped_drawLoop
    (hs : s.Valid) (haddr : s.Addressable) (hsums : IntSums x y w h)
    {paint : ℕ → ℕ → UInt32 → Option UInt32} {becomes : ℕ → ℕ → UInt32 → UInt32 → Prop}
    {times : ℕ → ℕ → ℕ}
    (hpaint : ∀ cx cy : ℕ, (cx : ℤ) < w → (cy : ℤ) < h → ∀ bg,
      becomes cx cy bg ((paint cx cy bg).getD bg)
        ∧ (if (paint cx cy bg).isSome then 1 else 0) = times cx cy)
    (dst : Store ℕ UInt32) :
  Clipped s x y w h becomes times dst (drawLoop s x y w h paint dst)
  := by
  have hnodup := nodup_map_placed hs haddr hsums
  rw [drawLoop_eq]
  constructor
  · intro cx cy X Y hshow
    have hmem : (cy, cx) ∈ s.places x y w h := (mem_places_iff hs haddr hsums).mpr ⟨X, Y, hshow⟩
    have hcell := Store.touchAll_cell_of_mem (f := fun k => paint k.2 k.1) dst hnodup hmem
    have hcount := Store.count_touchAll_writes (f := fun k => paint k.2 k.1) dst hnodup hmem
    rw [hshow.placed_eq hs haddr hsums] at hcell hcount
    obtain ⟨hbecomes, htimes⟩ := hpaint cx cy hshow.inW hshow.inH (dst.cell (s.address X Y))
    rw [hcell, hcount, ← htimes]
    exact ⟨hbecomes, rfl⟩
  · intro a hout
    have hplaces : ∀ k ∈ s.places x y w h, s.placed x y k ≠ a := by
      rintro ⟨cy, cx⟩ hk
      obtain ⟨X, Y, hshow⟩ := (mem_places_iff hs haddr hsums).mp hk
      rw [hshow.placed_eq hs haddr hsums]
      exact hout cx cy X Y hshow
    refine ⟨Store.touchAll_cell_of_not_mem dst hplaces, ?_⟩
    rw [Store.touchAll_writes dst hnodup, List.count_append, Nat.add_eq_left, List.count_eq_zero]
    intro hmem
    obtain ⟨k, hk, heq⟩ := List.mem_map.mp hmem
    exact hplaces k (List.mem_of_mem_filter hk) heq

end Framebuffer

/-! ### The three functions -/

/-- The index of a pixel of an image is computed without an overflow, and is one of the image. -/
theorem imageIndex_eq {w h : ℤ} (hsize : w.toNat * h.toNat ≤ 2 ^ 31) {cx cy : ℕ}
    (hx : (cx : ℤ) < w) (hy : (cy : ℤ) < h) :
  (int32 (int32 (cy * w) + cx)).toNat = cy * w.toNat + cx
    ∧ cy * w.toNat + cx < w.toNat * h.toNat
  := by
  obtain ⟨n, rfl⟩ := Int.eq_ofNat_of_zero_le (show 0 ≤ w by omega)
  rw [Int.toNat_natCast] at hsize ⊢
  have hrow : (cy + 1) * n ≤ h.toNat * n := Nat.mul_le_mul_right n (by omega)
  rw [Nat.add_mul, Nat.one_mul, Nat.mul_comm h.toNat] at hrow
  have hcast : (cy : ℤ) * (n : ℤ) = ((cy * n : ℕ) : ℤ) := by
    push_cast
    rfl
  rw [hcast, int32_eq (v := (cy * n : ℕ)) (by omega) (by omega), int32_eq (by omega) (by omega)]
  omega

/-- On a frame buffer that a word of 32 bits reaches, the three functions draw clipped rectangles: of
one colour, or blended with what was there. -/
theorem draw_clipped {s : Framebuffer} (hs : s.Valid) (haddr : s.Addressable)
    (dst : Store ℕ UInt32) :
  (∀ (x y w h : ℤ) (color : UInt32), IntSums x y w h →
    Clipped s x y w h (fun _ _ _ out => out = color) (fun _ _ => 1) dst
      (drawRect s x y w h color dst))
  ∧ (∀ (x y imgW imgH : ℤ) (imgData : ℕ → UInt32), IntSums x y imgW imgH →
    imgW.toNat * imgH.toNat ≤ 2 ^ 31 →
    Clipped s x y imgW imgH
      (fun cx cy => IsBlend mixImage (imgData (cy * imgW.toNat + cx)))
      (fun cx cy => timesWritten (imgData (cy * imgW.toNat + cx))) dst
      (drawImage s x y imgW imgH imgData dst))
  ∧ ∀ (c : Cursor) (mx my : ℤ),
    (∀ i < c.cursorW.toNat * c.cursorH.toNat, Premultiplied (c.cursorData i)) →
    IntSums (mx - c.cursorHotX) (my - c.cursorHotY) c.cursorW c.cursorH →
    c.cursorW.toNat * c.cursorH.toNat ≤ 2 ^ 31 →
    Clipped s (mx - c.cursorHotX) (my - c.cursorHotY) c.cursorW c.cursorH
      (fun cx cy => IsBlend mixCursor (c.cursorData (cy * c.cursorW.toNat + cx)))
      (fun cx cy => timesWritten (c.cursorData (cy * c.cursorW.toNat + cx))) dst
      (drawCursor s c mx my dst)
  := by
  refine ⟨?_, ?_, ?_⟩
  · intro x y w h color hsums
    apply Framebuffer.clipped_drawLoop hs haddr hsums
    intro cx cy _ _ bg
    exact ⟨rfl, rfl⟩
  · intro x y imgW imgH imgData hsums hsize
    apply Framebuffer.clipped_drawLoop hs haddr hsums
    intro cx cy hx hy bg
    rw [(imageIndex_eq hsize hx hy).1]
    exact imagePixel_isBlend _ bg
  · intro c mx my hpre hsums hsize
    rw [drawCursor, int32_eq hsums.left.1 hsums.left.2, int32_eq hsums.top.1 hsums.top.2]
    apply Framebuffer.clipped_drawLoop hs haddr hsums
    intro cx cy hx hy bg
    obtain ⟨hindex, hlt⟩ := imageIndex_eq hsize hx hy
    rw [hindex]
    exact cursorPixel_isBlend (hpre _ hlt) bg

/-- A frame buffer of two by two pixels, with a third one at the end of each row. -/
def smallBuffer : Framebuffer := ⟨2, 2, 12⟩

theorem smallBuffer_valid :
  smallBuffer.Valid
  := ⟨by decide, by decide, by decide, by decide⟩

theorem smallBuffer_addressable :
  smallBuffer.Addressable
  := ⟨by decide, by decide⟩

/-- A half transparent white pixel, over the corner of a black screen, leaves grey there and nothing
elsewhere. -/
theorem draw_clipped_corner :
  IsBlend mixImage 0x80FFFFFF 0
      ((drawImage smallBuffer (-1) 1 2 2 (fun _ => 0x80FFFFFF) ⟨fun _ => 0, []⟩).cell 3)
    ∧ (drawImage smallBuffer (-1) 1 2 2 (fun _ => 0x80FFFFFF) ⟨fun _ => 0, []⟩).writes.count 3 = 1
  := ((draw_clipped smallBuffer_valid smallBuffer_addressable ⟨fun _ => 0, []⟩).2.1 (-1) 1 2 2
    (fun _ => 0x80FFFFFF) ⟨by decide, by decide, by decide, by decide⟩ (by decide)).inside
    (show smallBuffer.Shows (-1) 1 2 2 1 0 0 1 from
      ⟨by decide, by decide, by decide, by decide, by decide, by decide⟩)

/-- With rows that are long enough, the index of a pixel is cut to 32 bits, and the rectangle is not
drawn where it is placed; and of an opaque pixel only the three colours are stored. -/
theorem not_clipped_longRows :
  (⟨1, 16, 0x80000000⟩ : Framebuffer).Valid ∧ IntSums 0 8 1 1
    ∧ ¬ Clipped ⟨1, 16, 0x80000000⟩ 0 8 1 1 (fun _ _ _ out => out = 7) (fun _ _ => 1)
      ⟨fun _ => 0, []⟩ (drawRect ⟨1, 16, 0x80000000⟩ 0 8 1 1 7 ⟨fun _ => 0, []⟩)
    ∧ (drawImage smallBuffer 0 0 1 1 (fun _ => 0xFF102030) ⟨fun _ => 0, []⟩).cell 0 ≠ 0xFF102030
  := by
  refine ⟨⟨by decide, by decide, by decide, by decide⟩, ⟨by decide, by decide, by decide, by decide⟩,
    ?_, by decide⟩
  intro hclipped
  have hshow : (⟨1, 16, 0x80000000⟩ : Framebuffer).Shows 0 8 1 1 0 0 0 8 :=
    ⟨by decide, by decide, by decide, by decide, by decide, by decide⟩
  have hinside := (hclipped.inside hshow).1
  revert hinside
  decide

end LnxCad
