import LnxCad.Lib.Bresenham
import LnxCad.Lib.Footprint

/-!
# The surface of the renderer

The renderer draws into a frame buffer, of which only the part between the scissors may be
written.  Single pixels are checked against the scissors, horizontal runs are cut to them and then
written without a check, and a line that is not horizontal goes pixel by pixel.

A function that draws in one colour draws a set of pixels: those of them that the scissors let
through have the colour afterwards, and nothing else is written.
-/

namespace LnxCad.Render

open Bresenham

/-! ### Pixels -/

/-- A value as a `short`. -/
def short (v : ℤ) : ℤ := Int.bmod v (2 ^ 16)

theorem short_eq {v : ℤ} (hlo : -2 ^ 15 ≤ v) (hhi : v < 2 ^ 15) :
  short v = v
  := by
  apply Int.bmod_eq_of_le
  · norm_num
    omega
  · norm_num
    omega

theorem short_bounds (v : ℤ) :
  -2 ^ 15 ≤ short v ∧ short v < 2 ^ 15
  := by
  have hlo : -((2 ^ 16 : ℕ) / 2 : ℤ) ≤ short v := Int.le_bmod (by norm_num)
  have hhi : short v < ((2 ^ 16 : ℕ) + 1) / 2 := Int.bmod_lt (by norm_num)
  norm_num at hlo hhi ⊢
  exact ⟨hlo, hhi⟩

/-- An image of pixels of four bytes. -/
structure Image where
  w : ℤ
  h : ℤ
  pitch : ℤ
deriving DecidableEq

/-- The offset of a pixel in bytes. -/
def Image.address (fb : Image) (x y : ℤ) : ℤ := y * fb.pitch + 4 * x

/-- The scissors: the first column and row, and the ends of both. -/
structure Scissors where
  x : ℤ
  y : ℤ
  w : ℤ
  h : ℤ
deriving DecidableEq

/-- The pixels of the frame buffer, each known by its offset. -/
abbrev Pixels := Store ℤ UInt32

/-- `nk_rawfb_scissor`. -/
def scissor (fb : Image) (x y w h : ℤ) : Scissors :=
  ⟨min (max x 0) fb.w, min (max y 0) fb.h, min (max (w + x) 0) fb.w, min (max (h + y) 0) fb.h⟩

/-- `nk_rawfb_ctx_setpixel`. -/
def ctxSetpixel (fb : Image) (s : Scissors) (x0 y0 : ℤ) (col : UInt32) (m : Pixels) : Pixels :=
  let x0 := short x0
  let y0 := short y0
  if y0 < s.h ∧ y0 ≥ s.y ∧ x0 ≥ s.x ∧ x0 < s.w then m.write (fb.address x0 y0) col else m

/-! ### Horizontal runs -/

/-- Some pixels from an offset on. -/
def fillRun (col : UInt32) (pixels : ℤ) (n : ℕ) (m : Pixels) : Pixels :=
  (List.range n).foldl (fun m (i : ℕ) => m.write (pixels + 4 * i) col) m

/-- The copies of `nk_rawfb_line_horizontal`, of `n` bytes: as long as there are more than the
pattern has, the whole pattern, and then the rest. -/
def fillBytes (col : UInt32) (n : ℕ) (pixels : ℤ) (m : Pixels) : Pixels :=
  if 64 < n then fillBytes col (n - 64) (pixels + 64) (fillRun col pixels 16 m)
  else fillRun col pixels (n / 4) m
termination_by n
decreasing_by omega

/-- `nk_rawfb_line_horizontal`. -/
def lineHorizontal (fb : Image) (x0 y x1 : ℤ) (col : UInt32) (m : Pixels) : Pixels :=
  let x0 := short x0
  let y := short y
  let x1 := short x1
  fillBytes col ((x1 - x0) * 4 % 2 ^ 32).toNat (y * fb.pitch + x0 * 4) m

/-! ### Lines -/

/-- One turn of the loops of `nk_rawfb_stroke_line`. -/
def lineTurn (d : Slope) (p : Pen) : Pen :=
  let p :=
    if p.fraction ≥ 0 then
      { p with minor := short (p.minor + d.stepMinor), fraction := p.fraction - d.major2 }
    else p
  { p with major := short (p.major + d.stepMajor), fraction := p.fraction + d.minor2 }

/-- A loop of `nk_rawfb_stroke_line`, for so many turns at most. -/
def lineLoop (d : Slope) (stop : ℤ) (draw : Pen → Pixels → Pixels) : ℕ → Pen → Pixels → Pixels
  | 0, _, m => m
  | n + 1, p, m =>
      if p.major = stop then m
      else lineLoop d stop draw n (lineTurn d p) (draw (lineTurn d p) m)

/-- `nk_rawfb_stroke_line`; no loop takes more turns than there are values of a `short`. -/
def strokeLine (fb : Image) (s : Scissors) (x0 y0 x1 y1 : ℤ) (col : UInt32) (m : Pixels) :
    Pixels :=
  let x0 := short x0
  let y0 := short y0
  let x1 := short x1
  let y1 := short y1
  let dy := y1 - y0
  let dx := x1 - x0
  if dy = 0 then
    if dx = 0 ∨ y0 ≥ s.h ∨ y0 < s.y then m
    else
      let (x0, x1) := if dx < 0 then (x1, x0) else (x0, x1)
      lineHorizontal fb (max s.x (min s.w x0)) y0 (max s.x (min s.w x1)) col m
  else
    let (dy, stepy) := if dy < 0 then (-dy, (-1 : ℤ)) else (dy, 1)
    let (dx, stepx) := if dx < 0 then (-dx, (-1 : ℤ)) else (dx, 1)
    let dy := dy * 2
    let dx := dx * 2
    let m := ctxSetpixel fb s x0 y0 col m
    if dx > dy then
      lineLoop ⟨stepx, stepy, dx, dy⟩ x1 (fun p => ctxSetpixel fb s p.major p.minor col) 65536
        ⟨x0, y0, dy - dx / 2⟩ m
    else
      lineLoop ⟨stepy, stepx, dy, dx⟩ y1 (fun p => ctxSetpixel fb s p.minor p.major col) 65536
        ⟨y0, x0, dx - dy / 2⟩ m

/-! ### What is drawn -/

/-- A frame buffer whose rows and columns a `short` counts, with rows of at least their pixels, and
whose bytes an `int` counts. -/
structure Image.Valid (fb : Image) : Prop where
  w_nonneg : 0 ≤ fb.w
  h_nonneg : 0 ≤ fb.h
  w_lt : fb.w < 2 ^ 15
  h_lt : fb.h < 2 ^ 15
  le_pitch : 4 * fb.w ≤ fb.pitch
  size_lt : fb.h * fb.pitch < 2 ^ 31

/-- The scissors are inside the frame buffer. -/
structure Scissors.Inside (s : Scissors) (fb : Image) : Prop where
  x_nonneg : 0 ≤ s.x
  y_nonneg : 0 ≤ s.y
  x_le : s.x ≤ s.w
  w_le : s.w ≤ fb.w
  h_le : s.h ≤ fb.h

/-- The scissors let a pixel through. -/
def Scissors.Holds (s : Scissors) (X Y : ℤ) : Prop := s.x ≤ X ∧ X < s.w ∧ s.y ≤ Y ∧ Y < s.h

/-- The offsets of the pixels of a set that the scissors let through. -/
def region (fb : Image) (s : Scissors) (P : ℤ → ℤ → Prop) : Set ℤ :=
  {a | ∃ X Y, s.Holds X Y ∧ P X Y ∧ a = fb.address X Y}

/-- A function draws a set of pixels in a colour. -/
def Draws (fb : Image) (s : Scissors) (col : UInt32) (P : ℤ → ℤ → Prop) (f : Pixels → Pixels) :
    Prop :=
  ∀ m, Store.Painted (region fb s P) col m (f m)

section Draws

variable {fb : Image} {s : Scissors} {col : UInt32} {P Q : ℤ → ℤ → Prop} {f g : Pixels → Pixels}

theorem Draws.congr (h : Draws fb s col P f) (hPQ : ∀ X Y, s.Holds X Y → (P X Y ↔ Q X Y)) :
  Draws fb s col Q f
  := by
  have heq : region fb s P = region fb s Q := by
    ext a
    constructor
    · rintro ⟨X, Y, hholds, hP, ha⟩
      exact ⟨X, Y, hholds, (hPQ X Y hholds).mp hP, ha⟩
    · rintro ⟨X, Y, hholds, hQ, ha⟩
      exact ⟨X, Y, hholds, (hPQ X Y hholds).mpr hQ, ha⟩
  intro m
  rw [← heq]
  exact h m

theorem Draws.nothing (h : ∀ X Y, s.Holds X Y → ¬ P X Y) :
  Draws fb s col P (fun m => m)
  := by
  have heq : region fb s P = ∅ := by
    apply Set.eq_empty_of_forall_notMem
    rintro a ⟨X, Y, hholds, hP, -⟩
    exact h X Y hholds hP
  intro m
  rw [heq]
  exact Store.Painted.refl col m

theorem Draws.comp (hf : Draws fb s col P f) (hg : Draws fb s col Q g) :
  Draws fb s col (fun X Y => P X Y ∨ Q X Y) (fun m => g (f m))
  := by
  have heq : region fb s (fun X Y => P X Y ∨ Q X Y) = region fb s P ∪ region fb s Q := by
    ext a
    constructor
    · rintro ⟨X, Y, hholds, hP | hQ, ha⟩
      · exact Or.inl ⟨X, Y, hholds, hP, ha⟩
      · exact Or.inr ⟨X, Y, hholds, hQ, ha⟩
    · rintro (⟨X, Y, hholds, hP, ha⟩ | ⟨X, Y, hholds, hQ, ha⟩)
      · exact ⟨X, Y, hholds, Or.inl hP, ha⟩
      · exact ⟨X, Y, hholds, Or.inr hQ, ha⟩
  intro m
  rw [heq]
  exact (hf m).union (hg (f m))

/-- A loop draws what its turns draw. -/
theorem Draws.foldl {κ : Type*} {l : List κ} {f : κ → Pixels → Pixels} {P : κ → ℤ → ℤ → Prop}
    (h : ∀ k ∈ l, Draws fb s col (P k) (f k)) :
  Draws fb s col (fun X Y => ∃ k ∈ l, P k X Y) (fun m => l.foldl (fun m k => f k m) m)
  := by
  induction l with
  | nil =>
      apply Draws.nothing
      simp
  | cons k l ih =>
      have hrest := ih (fun k' hk' => h k' (by simp [hk']))
      apply ((h k (by simp)).comp hrest).congr
      intro X Y _
      simp

end Draws

/-! ### Pixels and runs -/

section Surface

variable {fb : Image} {s : Scissors}

theorem Image.Valid.address_inj (hfb : fb.Valid) {X Y X' Y' : ℤ} (hX : 0 ≤ X) (hX' : X < fb.w)
    (hX0 : 0 ≤ X') (hXw : X' < fb.w) (h : fb.address X Y = fb.address X' Y') :
  X = X' ∧ Y = Y'
  := by
  have hpitch := hfb.le_pitch
  unfold Image.address at h
  have hrows : (Y - Y') * fb.pitch = 4 * (X' - X) := by
    rw [sub_mul]
    omega
  obtain hlt | heq | hgt := lt_trichotomy Y Y'
  · have hle : (Y - Y') * fb.pitch ≤ (-1) * fb.pitch := by
      apply mul_le_mul_of_nonneg_right
      · omega
      · omega
    omega
  · subst heq
    omega
  · have hle : 1 * fb.pitch ≤ (Y - Y') * fb.pitch := by
      apply mul_le_mul_of_nonneg_right
      · omega
      · omega
    omega

/-- A frame buffer of an ordinary size. -/
theorem valid_vga :
  Image.Valid ⟨640, 480, 2560⟩
  := by
  constructor
  all_goals norm_num

/-- A scissor command leaves the scissors inside the frame buffer. -/
theorem scissor_inside (hfb : fb.Valid) (x y : ℤ) {w h : ℤ} (hw : 0 ≤ w) :
  (scissor fb x y w h).Inside fb
  := by
  have hw' := hfb.w_nonneg
  have hh' := hfb.h_nonneg
  unfold scissor
  constructor
  all_goals
    dsimp only
    omega

theorem draws_ctxSetpixel (fb : Image) (s : Scissors) (x0 y0 : ℤ) (col : UInt32) :
  Draws fb s col (fun X Y => X = short x0 ∧ Y = short y0) (ctxSetpixel fb s x0 y0 col)
  := by
  intro m
  unfold ctxSetpixel
  dsimp only
  split
  case isTrue hin =>
    obtain ⟨hlt, hge, hge', hlt'⟩ := hin
    have heq : region fb s (fun X Y => X = short x0 ∧ Y = short y0)
        = {fb.address (short x0) (short y0)} := by
      ext a
      constructor
      · rintro ⟨X, Y, -, ⟨rfl, rfl⟩, rfl⟩
        rfl
      · rintro rfl
        exact ⟨short x0, short y0, ⟨hge', hlt', hge, hlt⟩, ⟨rfl, rfl⟩, rfl⟩
    rw [heq]
    exact Store.Painted.write m _ col
  case isFalse hout =>
    apply Draws.nothing
    rintro X Y ⟨hx, hw, hy, hh⟩ ⟨rfl, rfl⟩
    exact hout ⟨hh, hy, hx, hw⟩

theorem fillRun_add (col : UInt32) (pixels : ℤ) (n k : ℕ) (m : Pixels) :
  fillRun col pixels (n + k) m = fillRun col (pixels + 4 * n) k (fillRun col pixels n m)
  := by
  unfold fillRun
  rw [List.range_add, List.foldl_append, List.foldl_map]
  congr 1
  funext m i
  congr 1
  push_cast
  ring

/-- The pieces make one run. -/
theorem fillBytes_eq (col : UInt32) (n : ℕ) (pixels : ℤ) (m : Pixels) :
  fillBytes col (4 * n) pixels m = fillRun col pixels n m
  := by
  induction n using Nat.strong_induction_on generalizing pixels m with
  | h n ih =>
      rw [fillBytes]
      split
      case isTrue hlong =>
        obtain ⟨k, rfl⟩ := Nat.exists_eq_add_of_le (show 16 ≤ n by omega)
        have hrest : 4 * (16 + k) - 64 = 4 * k := by omega
        rw [hrest, ih k (by omega), fillRun_add]
        norm_num
      case isFalse =>
        rw [Nat.mul_div_cancel_left n (by norm_num)]

/-- A run that is cut to the scissors draws its pixels. -/
theorem draws_lineHorizontal (hfb : fb.Valid) (hs : s.Inside fb) {x0 x1 y : ℤ} (hx : x0 ≤ x1)
    (hy : s.y ≤ y) (hy' : y < s.h) (col : UInt32) :
  Draws fb s col (fun X Y => Y = y ∧ x0 ≤ X ∧ X < x1)
    (lineHorizontal fb (max s.x (min s.w x0)) y (max s.x (min s.w x1)) col)
  := by
  have hw := hfb.w_lt
  have hh := hfb.h_lt
  obtain ⟨hsx, hsy, hsxw, hsw, hsh⟩ := hs
  obtain ⟨l, hl⟩ : ∃ l, l = max s.x (min s.w x0) := ⟨_, rfl⟩
  obtain ⟨n, hn⟩ : ∃ n : ℕ, max s.x (min s.w x1) = l + n := ⟨(max s.x (min s.w x1) - l).toNat, by omega⟩
  have hlen : ((l + n - l) * 4 % 2 ^ 32).toNat = 4 * n := by
    norm_num
    omega
  intro m
  rw [← hl, hn, lineHorizontal]
  rw [short_eq (v := l) (by omega) (by omega), short_eq (v := y) (by omega) (by omega),
    short_eq (v := l + n) (by omega) (by omega), hlen, fillBytes_eq]
  have heq : region fb s (fun X Y => Y = y ∧ x0 ≤ X ∧ X < x1)
      = {a | ∃ i ∈ List.range n, a ∈ ({y * fb.pitch + l * 4 + 4 * (i : ℤ)} : Set ℤ)} := by
    ext a
    simp only [List.mem_range, Set.mem_singleton_iff, Set.mem_ofPred_eq]
    constructor
    · rintro ⟨X, Y, ⟨hX, hX', -, -⟩, ⟨rfl, hx0, hx1⟩, rfl⟩
      refine ⟨(X - l).toNat, by omega, ?_⟩
      unfold Image.address
      omega
    · rintro ⟨i, hi, rfl⟩
      refine ⟨l + i, y, ⟨?_, ?_, hy, hy'⟩, ⟨rfl, ?_, ?_⟩, ?_⟩
      · omega
      · omega
      · omega
      · omega
      · unfold Image.address
        ring
  rw [heq]
  apply Store.Painted.foldl
  intro i _ m
  exact Store.Painted.write m _ col

end Surface

end LnxCad.Render
