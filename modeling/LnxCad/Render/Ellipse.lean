import LnxCad.Lib.Ellipse
import LnxCad.Lib.Int32
import LnxCad.Render.Polygon

/-!
# Circles and arcs

The functions for circles and for arcs share one pair of loops, the two halves of a quarter.  With a
size from 2 to 1024 no `int` overflows in them, and they go exactly through the pixels that are
closest to an ellipse.  Both halves are of the ellipse of the given size if width and height are even,
else of two different ones.  With a width or a height of 1 the loops never end.
-/

namespace LnxCad.Render

open Ellipse

variable {fb : Image} {s : Scissors} {σ : Type}

/-! ### The loops -/

/-- The end of a turn of the loops for ellipses. -/
def ellipseTurn (a b : ℤ) (p : Pen) : Pen :=
  let p :=
    if p.sigma ≥ 0 then
      { p with sigma := int32 (p.sigma + 4 * a * (1 - p.y)), y := int32 (p.y - 1) }
    else p
  { p with sigma := int32 (p.sigma + b * (4 * p.x + 6)), x := int32 (p.x + 1) }

/-- The loops go on. -/
def ellipseTest (a b : ℤ) (p : Pen) : Prop := int32 (b * p.x) ≤ int32 (a * p.y)

instance ellipseTest.decidable (a b : ℤ) (p : Pen) : Decidable (ellipseTest a b p) :=
  inferInstanceAs (Decidable (_ ≤ _))

/-- A loop for ellipses, for so many turns at most. -/
def ellipseLoop (a b : ℤ) (draw : ℤ → ℤ → σ → σ) : ℕ → Pen → σ → σ
  | 0, _, m => m
  | n + 1, p, m =>
      if ellipseTest a b p then ellipseLoop a b draw n (ellipseTurn a b p) (draw p.x p.y m) else m

/-- A loop for ellipses ends within some turns. -/
def ellipseEnds (a b : ℤ) : ℕ → Pen → Bool
  | 0, _ => false
  | n + 1, p => if ellipseTest a b p then ellipseEnds a b n (ellipseTurn a b p) else true

/-- Where the loops begin. -/
def ellipseStart (a b h : ℤ) : Pen := ⟨0, h, int32 (2 * b + a * (1 - 2 * h))⟩

/-- Half of a width or a height. -/
def half (v : ℤ) : ℤ := short (Int.tdiv (v + 1) 2)

/-- Both halves of a quarter of an ellipse of width `w` and height `h`. -/
def quarter (draw : ℤ → ℤ → σ → σ) (n : ℕ) (w h : ℤ) (m : σ) : σ :=
  let a2 := w * w / 4
  let b2 := h * h / 4
  let m := ellipseLoop a2 b2 draw n (ellipseStart a2 b2 (half h)) m
  ellipseLoop b2 a2 (fun y x => draw x y) n (ellipseStart b2 a2 (half w)) m

/-- Both loops of a quarter end within some turns. -/
def quarterEnds (n : ℕ) (w h : ℤ) : Bool :=
  let a2 := w * w / 4
  let b2 := h * h / 4
  ellipseEnds a2 b2 n (ellipseStart a2 b2 (half h)) && ellipseEnds b2 a2 n (ellipseStart b2 a2 (half w))

/-! ### The functions -/

/-- `nk_rawfb_stroke_circle`. -/
def strokeCircle (n : ℕ) (fb : Image) (s : Scissors) (x0 y0 w h : ℤ) (col : UInt32) (m : Pixels) :
    Pixels :=
  let w := short w
  let h := short h
  let x0 := short (short x0 + half w)
  let y0 := short (short y0 + half h)
  quarter (fun x y m =>
    let m := ctxSetpixel fb s (x0 + x) (y0 + y) col m
    let m := ctxSetpixel fb s (x0 - x) (y0 + y) col m
    let m := ctxSetpixel fb s (x0 + x) (y0 - y) col m
    ctxSetpixel fb s (x0 - x) (y0 - y) col m) n w h m

/-- `nk_rawfb_fill_circle`. -/
def fillCircle (n : ℕ) (fb : Image) (s : Scissors) (x0 y0 w h : ℤ) (col : UInt32) (m : Pixels) :
    Pixels :=
  let w := short w
  let h := short h
  let x0 := short (short x0 + half w)
  let y0 := short (short y0 + half h)
  quarter (fun x y m =>
    let m := strokeLine fb s (x0 - x) (y0 + y) (x0 + x) (y0 + y) col m
    strokeLine fb s (x0 - x) (y0 - y) (x0 + x) (y0 - y) col m) n w h m

/-- The pixel of an arc, by its angle. -/
def arcPoint (angle x0 y0 x y : ℤ) : Point :=
  if angle = 180 then ⟨x0 + x, y0 + y⟩
  else if angle = 270 then ⟨x0 - x, y0 + y⟩
  else if angle = 0 then ⟨x0 + x, y0 - y⟩
  else ⟨x0 - x, y0 - y⟩

/-- `nk_rawfb_stroke_arc`. -/
def strokeArc (n : ℕ) (fb : Image) (s : Scissors) (x0 y0 w h angle : ℤ) (col : UInt32) (m : Pixels) :
    Pixels :=
  let w := short w
  let h := short h
  if angle ≠ 0 ∧ angle ≠ 90 ∧ angle ≠ 180 ∧ angle ≠ 270 then m
  else if w < 1 ∨ h < 1 then m
  else
    let x0 := short (short x0 + half w)
    let y0 := short (short y0 + half h)
    quarter (fun x y m =>
      ctxSetpixel fb s (arcPoint angle x0 y0 x y).x (arcPoint angle x0 y0 x y).y col m) n w h m

/-- `nk_rawfb_fill_arc`: a fan of triangles from the centre; the state holds the last point too. -/
def fillArc (n : ℕ) (fb : Image) (s : Scissors) (cross : Crossing) (x0 y0 w h angle : ℤ)
    (col : UInt32) (m : Pixels) : Pixels :=
  let w := short w
  let h := short h
  if w < 1 ∨ h < 1 then m
  else if angle ≠ 0 ∧ angle ≠ 90 ∧ angle ≠ 180 ∧ angle ≠ 270 then m
  else
    let x0 := short (short x0 + half w)
    let y0 := short (short y0 + half h)
    (quarter (fun x y (mp : Pixels × Point) =>
      let p : Point := ⟨short (arcPoint angle x0 y0 x y).x, short (arcPoint angle x0 y0 x y).y⟩
      (fillPolygon fb s cross [⟨x0, y0⟩, p, mp.2] col mp.1, p)) n w h (m, ⟨x0, y0⟩)).1

/-! ### The loops are exact -/

/-- The pixels that a loop visits. -/
def ellipsePath (a b : ℤ) : ℕ → Pen → List (ℤ × ℤ)
  | 0, _ => []
  | n + 1, p =>
      if ellipseTest a b p then (p.x, p.y) :: ellipsePath a b n (ellipseTurn a b p) else []

theorem ellipseLoop_eq (a b : ℤ) (draw : ℤ → ℤ → σ → σ) (n : ℕ) (p : Pen) (m : σ) :
  ellipseLoop a b draw n p m = (ellipsePath a b n p).foldl (fun m q => draw q.1 q.2 m) m
  := by
  induction n generalizing p m with
  | zero => rfl
  | succ n ih =>
      rw [ellipseLoop, ellipsePath]
      split
      · rw [ih, List.foldl_cons]
      · rfl

/-- The pixels that the loops of a quarter visit. -/
def quarterPath (n : ℕ) (w h : ℤ) : List (ℤ × ℤ) :=
  let a2 := w * w / 4
  let b2 := h * h / 4
  ellipsePath a2 b2 n (ellipseStart a2 b2 (half h))
    ++ (ellipsePath b2 a2 n (ellipseStart b2 a2 (half w))).map Prod.swap

/-- The loops of a quarter are a loop over the pixels that they visit. -/
theorem quarter_eq (draw : ℤ → ℤ → σ → σ) (n : ℕ) (w h : ℤ) (m : σ) :
  quarter draw n w h m = (quarterPath n w h).foldl (fun m q => draw q.1 q.2 m) m
  := by
  unfold quarter quarterPath
  dsimp only
  rw [ellipseLoop_eq, ellipseLoop_eq, List.foldl_append, List.foldl_map]
  rfl

/-- The sizes for which nothing overflows. -/
structure Small (a b h : ℤ) : Prop where
  a_pos : 0 < a
  b_pos : 0 < b
  a_le : a ≤ 2 ^ 18
  b_le : b ≤ 2 ^ 18
  h_pos : 1 ≤ h
  h_le : h ≤ 2 ^ 9

section Small

variable {a b h : ℤ} {p : Pen}

theorem Small.area_le (hs : Small a b h) :
  0 ≤ a * h ∧ a * h ≤ 2 ^ 27
  := by
  obtain ⟨ha, -, ha', -, hh, hh'⟩ := hs
  constructor
  · positivity
  · calc a * h ≤ 2 ^ 18 * h := mul_le_mul_of_nonneg_right ha' (by omega)
      _ ≤ 2 ^ 18 * 2 ^ 9 := mul_le_mul_of_nonneg_left hh' (by norm_num)
      _ = 2 ^ 27 := by norm_num

theorem Small.start_eq (hs : Small a b h) :
  ellipseStart a b h = start a b h
  := by
  obtain ⟨hlo, hhi⟩ := hs.area_le
  obtain ⟨ha, hb, ha', hb', hh, hh'⟩ := hs
  have hsigma : 2 * b + a * (1 - 2 * h) = 2 * b + a - 2 * (a * h) := by ring
  unfold ellipseStart start
  rw [int32_eq]
  · rw [hsigma]
    omega
  · rw [hsigma]
    omega

theorem Small.test_iff (hs : Small a b h) (hp : Reached a b h p) :
  ellipseTest a b p ↔ b * p.x ≤ a * p.y
  := by
  obtain ⟨hlo, hhi⟩ := hs.area_le
  obtain ⟨ha, hb, ha', hb', hh, hh'⟩ := hs
  have hbx : 0 ≤ b * p.x := mul_nonneg hb.le hp.x_nonneg
  have hay : a * p.y ≤ a * h := mul_le_mul_of_nonneg_left hp.y_le ha.le
  have hay' : a * (-1) ≤ a * p.y := mul_le_mul_of_nonneg_left hp.y_ge ha.le
  have hle := hp.x_le
  unfold ellipseTest
  rw [int32_eq (v := b * p.x) (by omega) (by omega), int32_eq (v := a * p.y) (by omega) (by omega)]

theorem Small.turn_eq (hs : Small a b h) (hp : Reached a b h p) (hloop : b * p.x ≤ a * p.y) :
  ellipseTurn a b p = next a b p
  := by
  obtain ⟨hlo, hhi⟩ := hs.area_le
  obtain ⟨ha, hb, ha', hb', hh, hh'⟩ := hs
  obtain ⟨hsigma, hsigma'⟩ := hp.sigma_bounds ha hb.le hloop
  have hx := hp.x_nonneg
  have hy := hp.y_nonneg ha hb.le hloop
  have hyle := hp.y_le
  have hay : a * p.y ≤ a * h := mul_le_mul_of_nonneg_left hyle ha.le
  have hay' : 0 ≤ a * p.y := by positivity
  have hbx : 0 ≤ b * p.x := by positivity
  have hxle : p.x ≤ b * p.x := le_mul_of_one_le_left hx (by omega)
  have hdown : 4 * a * (1 - p.y) = 4 * a - 4 * (a * p.y) := by ring
  have hright : b * (4 * p.x + 6) = 4 * (b * p.x) + 6 * b := by ring
  unfold ellipseTurn next
  by_cases hge : p.sigma ≥ 0
  · simp only [if_pos hge]
    rw [hdown, hright, int32_eq (v := p.sigma + (4 * a - 4 * (a * p.y))) (by omega) (by omega),
      int32_eq (v := p.y - 1) (by omega) (by omega), int32_eq (v := p.x + 1) (by omega) (by omega),
      int32_eq (by omega) (by omega)]
  · simp only [if_neg hge]
    rw [hright, int32_eq (v := p.x + 1) (by omega) (by omega), int32_eq (by omega) (by omega)]

/-- A loop visits the walk of its half. -/
theorem Small.path_eq (hs : Small a b h) {n : ℕ} (hp : Reached a b h p) :
  ellipsePath a b n p = walk a b n p
  := by
  induction n generalizing p with
  | zero => rfl
  | succ n ih =>
      rw [ellipsePath, walk]
      by_cases hloop : b * p.x ≤ a * p.y
      · rw [if_pos ((hs.test_iff hp).mpr hloop), if_pos hloop, hs.turn_eq hp hloop,
          ih (hp.next hs.a_pos hs.b_pos.le hloop)]
      · rw [if_neg (fun h => hloop ((hs.test_iff hp).mp h)), if_neg hloop]

/-- With enough turns a loop ends. -/
theorem Small.ends (hs : Small a b h) {n : ℕ} (hp : Reached a b h p)
    (hn : a * p.y - b * p.x < n) :
  ellipseEnds a b (n + 1) p = true
  := by
  induction n generalizing p with
  | zero =>
      rw [ellipseEnds, if_neg]
      rw [hs.test_iff hp]
      push_cast at hn
      omega
  | succ n ih =>
      rw [ellipseEnds]
      split
      case isTrue htest =>
        have hloop := (hs.test_iff hp).mp htest
        rw [hs.turn_eq hp hloop]
        exact ih (hp.next hs.a_pos hs.b_pos.le hloop) (lt_of_next hs.a_pos hs.b_pos hn)
      case isFalse => rfl

end Small

/-! ### Circles of ordinary sizes -/

/-- A pixel of a quarter of width `w` and height `h`, seen from its centre: the flat part is of an
ellipse that rounds half of the height, the steep part of one that rounds half of the width. -/
def OnQuarter (w h x y : ℤ) : Prop :=
  OnFlat (w * w / 4) (h * h / 4) (w * w / 4 * ((h + 1) / 2) ^ 2) x y
    ∨ OnFlat (h * h / 4) (w * w / 4) (h * h / 4 * ((w + 1) / 2) ^ 2) y x

/-- With even sizes nothing is rounded. -/
theorem onQuarter_iff {w h : ℤ} (hw : Even w) (hh : Even h) (x y : ℤ) :
  OnQuarter w h x y ↔ OnEllipse (w / 2) (h / 2) x y
  := by
  obtain ⟨A, rfl⟩ := hw
  obtain ⟨B, rfl⟩ := hh
  have hsquare : ∀ v : ℤ, (v + v) * (v + v) / 4 = v ^ 2 := by
    intro v
    rw [show (v + v) * (v + v) = 4 * v ^ 2 by ring]
    omega
  have hround : ∀ v : ℤ, (v + v + 1) / 2 = v := by
    intro v
    omega
  have hhalf : ∀ v : ℤ, (v + v) / 2 = v := by
    intro v
    omega
  unfold OnQuarter OnEllipse
  rw [hsquare, hsquare, hround, hround, hhalf, hhalf, mul_comm (B ^ 2) (A ^ 2)]

theorem half_eq {v : ℤ} (hlo : 0 ≤ v) (hhi : v < 2 ^ 15) :
  half v = (v + 1) / 2
  := by
  unfold half
  rw [Int.tdiv_eq_ediv_of_nonneg (by omega), short_eq]
  · omega
  · omega

theorem area_bounds {v : ℤ} (hlo : 2 ≤ v) (hhi : v ≤ 1024) :
  0 < v * v / 4 ∧ v * v / 4 ≤ 2 ^ 18
  := by
  have h1 : 2 * 2 ≤ v * v := mul_le_mul hlo hlo (by norm_num) (by omega)
  have h2 : v * v ≤ 1024 * 1024 := mul_le_mul hhi hhi (by omega) (by norm_num)
  omega

theorem small_of_size {w h : ℤ} (hw : 2 ≤ w ∧ w ≤ 1024) (hh : 2 ≤ h ∧ h ≤ 1024) :
  Small (w * w / 4) (h * h / 4) (half h)
  := by
  obtain ⟨ha, ha'⟩ := area_bounds hw.1 hw.2
  obtain ⟨hb, hb'⟩ := area_bounds hh.1 hh.2
  have hhalf : half h = (h + 1) / 2 := half_eq (by omega) (by omega)
  constructor
  · exact ha
  · exact hb
  · exact ha'
  · exact hb'
  · omega
  · omega

/-- Enough turns for the loops of a quarter. -/
def turns (w h : ℤ) : ℕ := (w * w / 4 * half h).toNat + (h * h / 4 * half w).toNat + 2

section Size

variable {w h : ℤ} (hw : 2 ≤ w ∧ w ≤ 1024) (hh : 2 ≤ h ∧ h ≤ 1024)

include hw hh

theorem mem_quarterPath {n : ℕ} (hn : turns w h ≤ n) (x y : ℤ) :
  (x, y) ∈ quarterPath n w h ↔ OnQuarter w h x y
  := by
  have hs := small_of_size hw hh
  have hs' := small_of_size hh hw
  have hhalf : half h = (h + 1) / 2 := half_eq (by omega) (by omega)
  have hhalf' : half w = (w + 1) / 2 := half_eq (by omega) (by omega)
  have hfirst := mem_walk hs.a_pos hs.b_pos (n := n)
    (reached_start hs.a_pos hs.b_pos.le hs.h_pos) (by
      have harea := hs.area_le
      change w * w / 4 * half h - h * h / 4 * 0 < n
      unfold turns at hn
      omega) x y
  have hsecond := mem_walk hs'.a_pos hs'.b_pos (n := n)
    (reached_start hs'.a_pos hs'.b_pos.le hs'.h_pos) (by
      have harea := hs'.area_le
      change h * h / 4 * half w - w * w / 4 * 0 < n
      unfold turns at hn
      omega) y x
  have hswap : (x, y) ∈ (walk (h * h / 4) (w * w / 4) n
      (start (h * h / 4) (w * w / 4) (half w))).map Prod.swap
      ↔ (y, x) ∈ walk (h * h / 4) (w * w / 4) n (start (h * h / 4) (w * w / 4) (half w)) := by
    rw [List.mem_map]
    constructor
    · rintro ⟨⟨y', x'⟩, hmem, heq⟩
      obtain ⟨rfl, rfl⟩ := Prod.mk.inj heq
      exact hmem
    · intro hmem
      exact ⟨(y, x), hmem, rfl⟩
  unfold quarterPath OnQuarter
  dsimp only
  rw [← hhalf, ← hhalf', ← onHalf_iff hs.a_pos hs.b_pos hs.h_pos,
    ← onHalf_iff hs'.a_pos hs'.b_pos hs'.h_pos, hs.start_eq, hs'.start_eq,
    hs.path_eq (reached_start hs.a_pos hs.b_pos.le hs.h_pos),
    hs'.path_eq (reached_start hs'.a_pos hs'.b_pos.le hs'.h_pos), List.mem_append, hswap, hfirst,
    hsecond]
  unfold OnHalf start
  tauto

theorem quarterEnds_of_turns {n : ℕ} (hn : turns w h ≤ n) :
  quarterEnds n w h = true
  := by
  have hs := small_of_size hw hh
  have hs' := small_of_size hh hw
  obtain ⟨n, rfl⟩ : ∃ n', n = n' + 1 := ⟨n - 1, by
    unfold turns at hn
    omega⟩
  have hfirst := hs.ends (n := n) (reached_start hs.a_pos hs.b_pos.le hs.h_pos) (by
    have harea := hs.area_le
    change w * w / 4 * half h - h * h / 4 * 0 < n
    unfold turns at hn
    omega)
  have hsecond := hs'.ends (n := n) (reached_start hs'.a_pos hs'.b_pos.le hs'.h_pos) (by
    have harea := hs'.area_le
    change h * h / 4 * half w - w * w / 4 * 0 < n
    unfold turns at hn
    omega)
  unfold quarterEnds
  dsimp only
  rw [hs.start_eq, hs'.start_eq, hfirst, hsecond]
  rfl

/-- The loops of a circle draw, in one colour, what they draw at the pixels of a quarter. -/
theorem draws_quarter {col : UInt32} {draw : ℤ → ℤ → Pixels → Pixels} (P : ℤ → ℤ → ℤ → ℤ → Prop)
    {n : ℕ} (hn : turns w h ≤ n)
    (hdraw : ∀ x y, OnQuarter w h x y → Draws fb s col (P x y) (draw x y)) :
  Draws fb s col (fun X Y => ∃ x y, OnQuarter w h x y ∧ P x y X Y) (quarter draw n w h)
  := by
  have heq : quarter draw n w h
      = fun m => (quarterPath n w h).foldl (fun m q => draw q.1 q.2 m) m := by
    funext m
    exact quarter_eq draw n w h m
  have hfold : Draws fb s col (fun X Y => ∃ q ∈ quarterPath n w h, P q.1 q.2 X Y)
      (fun m => (quarterPath n w h).foldl (fun m q => draw q.1 q.2 m) m) := by
    apply Draws.foldl
    rintro ⟨x, y⟩ hmem
    exact hdraw x y ((mem_quarterPath hw hh hn x y).mp hmem)
  rw [heq]
  apply hfold.congr
  intro X Y _
  constructor
  · rintro ⟨⟨x, y⟩, hmem, hP⟩
    exact ⟨x, y, (mem_quarterPath hw hh hn x y).mp hmem, hP⟩
  · rintro ⟨x, y, hon, hP⟩
    exact ⟨(x, y), (mem_quarterPath hw hh hn x y).mpr hon, hP⟩

end Size

theorem onHalf_bounds {a b h x y : ℤ} (hs : Small a b h) (hh : h ^ 2 ≤ 2 * b)
    (hon : OnHalf a b h x y) :
  0 ≤ x ∧ x < 2 ^ 10 ∧ 0 ≤ y ∧ y ≤ 2 ^ 9
  := by
  obtain ⟨hx, hslope, hinside, -⟩ := hon
  obtain ⟨ha, hb, ha', hb', hh0, hh'⟩ := hs
  have hy : 0 ≤ y := by
    by_contra hneg
    have hbx : 0 ≤ b * x := by positivity
    have hay : a * y < 0 := mul_neg_of_pos_of_neg ha (by omega)
    omega
  have hsum : residual a b h x y + residual a b h x (y - 1)
      = 2 * (b * x ^ 2) + a * (y ^ 2 + (y - 1) ^ 2 - 2 * h ^ 2) := by
    unfold Ellipse.residual
    ring
  rw [hsum] at hinside
  have hysq : 0 ≤ y ^ 2 + (y - 1) ^ 2 := by positivity
  have hbx : 0 ≤ b * x ^ 2 := by positivity
  refine ⟨hx, ?_, hy, ?_⟩
  · have hle : b * x ^ 2 < b * (2 * a) := by
      have h1 : a * (-(4 * b)) ≤ a * (y ^ 2 + (y - 1) ^ 2 - 2 * h ^ 2) :=
        mul_le_mul_of_nonneg_left (by omega) ha.le
      have h2 : a * (-(4 * b)) = -(2 * (b * (2 * a))) := by ring
      omega
    have hsq : x ^ 2 < 2 * a := lt_of_mul_lt_mul_left hle hb.le
    by_contra hge
    have hbig : (2 ^ 10 : ℤ) ^ 2 ≤ x ^ 2 := pow_le_pow_left₀ (by norm_num) (by omega) 2
    omega
  · have hneg : y ^ 2 + (y - 1) ^ 2 - 2 * h ^ 2 < 0 := by
      by_contra hge
      have hprod : 0 ≤ a * (y ^ 2 + (y - 1) ^ 2 - 2 * h ^ 2) := mul_nonneg ha.le (by omega)
      omega
    by_contra hge
    have h1 : (h + 1) ^ 2 ≤ y ^ 2 := pow_le_pow_left₀ (by omega) (by omega) 2
    have h2 : h ^ 2 ≤ (y - 1) ^ 2 := pow_le_pow_left₀ (by omega) (by omega) 2
    have h3 : (h + 1) ^ 2 = h ^ 2 + 2 * h + 1 := by ring
    omega

theorem sq_half_le {v : ℤ} (hlo : 2 ≤ v) (hhi : v < 2 ^ 15) :
  half v ^ 2 ≤ 2 * (v * v / 4)
  := by
  rw [half_eq (by omega) hhi]
  obtain ⟨k, rfl | rfl⟩ : ∃ k, v = 2 * k ∨ v = 2 * k + 1 := ⟨v / 2, by omega⟩
  · have h1 : (2 * k + 1) / 2 = k := by omega
    have h2 : 2 * k * (2 * k) / 4 = k ^ 2 := by
      rw [show 2 * k * (2 * k) = 4 * k ^ 2 by ring]
      omega
    rw [h1, h2]
    have h3 : 0 ≤ k ^ 2 := by positivity
    omega
  · have h1 : (2 * k + 1 + 1) / 2 = k + 1 := by omega
    have h2 : (2 * k + 1) * (2 * k + 1) / 4 = k ^ 2 + k := by
      rw [show (2 * k + 1) * (2 * k + 1) = 4 * (k ^ 2 + k) + 1 by ring]
      omega
    rw [h1, h2]
    have hk : 1 ≤ k := by omega
    have h3 : 1 ≤ k ^ 2 := one_le_pow₀ hk
    have h4 : (k + 1) ^ 2 = k ^ 2 + 2 * k + 1 := by ring
    omega

/-- A quarter of an ellipse stays near its centre. -/
theorem onQuarter_bounds {w h x y : ℤ} (hw : 2 ≤ w ∧ w ≤ 1024) (hh : 2 ≤ h ∧ h ≤ 1024)
    (hon : OnQuarter w h x y) :
  (0 ≤ x ∧ x < 2 ^ 10) ∧ 0 ≤ y ∧ y < 2 ^ 10
  := by
  have hs := small_of_size hw hh
  have hs' := small_of_size hh hw
  unfold OnQuarter at hon
  rw [← half_eq (v := h) (by omega) (by omega), ← half_eq (v := w) (by omega) (by omega),
    ← onHalf_iff hs.a_pos hs.b_pos hs.h_pos, ← onHalf_iff hs'.a_pos hs'.b_pos hs'.h_pos] at hon
  obtain hon | hon := hon
  · have hb := onHalf_bounds hs (sq_half_le hh.1 (by omega)) hon
    omega
  · have hb := onHalf_bounds hs' (sq_half_le hw.1 (by omega)) hon
    omega

section Circle

variable {x0 y0 w h : ℤ} {n : ℕ} (hx0 : |x0| ≤ 2 ^ 14) (hy0 : |y0| ≤ 2 ^ 14)
  (hw : 2 ≤ w ∧ w ≤ 1024) (hh : 2 ≤ h ∧ h ≤ 1024) (hn : turns w h ≤ n)

include hx0 hy0 hw hh hn

/-- A circle is drawn as the pixels of its four quarters. -/
theorem draws_strokeCircle (fb : Image) (s : Scissors) (col : UInt32) :
  Draws fb s col (fun X Y => OnQuarter w h |X - (x0 + half w)| |Y - (y0 + half h)|)
    (strokeCircle n fb s x0 y0 w h col)
  := by
  rw [abs_le] at hx0 hy0
  have hhalf : half w = (w + 1) / 2 := half_eq (by omega) (by omega)
  have hhalf' : half h = (h + 1) / 2 := half_eq (by omega) (by omega)
  have hcircle : strokeCircle n fb s x0 y0 w h col
      = quarter (fun x y m =>
        let m := ctxSetpixel fb s (x0 + half w + x) (y0 + half h + y) col m
        let m := ctxSetpixel fb s (x0 + half w - x) (y0 + half h + y) col m
        let m := ctxSetpixel fb s (x0 + half w + x) (y0 + half h - y) col m
        ctxSetpixel fb s (x0 + half w - x) (y0 + half h - y) col m) n w h := by
    funext m
    unfold strokeCircle
    dsimp only
    rw [short_eq (v := w) (by omega) (by omega), short_eq (v := h) (by omega) (by omega),
      short_eq (v := x0) (by omega) (by omega), short_eq (v := y0) (by omega) (by omega),
      short_eq (v := x0 + half w) (by omega) (by omega),
      short_eq (v := y0 + half h) (by omega) (by omega)]
  rw [hcircle]
  have hdraws := draws_quarter hw hh
    (fun x y X Y => ((X = short (x0 + half w + x) ∧ Y = short (y0 + half h + y)
        ∨ X = short (x0 + half w - x) ∧ Y = short (y0 + half h + y))
      ∨ X = short (x0 + half w + x) ∧ Y = short (y0 + half h - y))
      ∨ X = short (x0 + half w - x) ∧ Y = short (y0 + half h - y)) hn
    (fun x y _ => (((draws_ctxSetpixel fb s _ _ col).comp (draws_ctxSetpixel fb s _ _ col)).comp
      (draws_ctxSetpixel fb s _ _ col)).comp (draws_ctxSetpixel fb s _ _ col))
  apply hdraws.congr
  intro X Y _
  constructor
  · rintro ⟨x, y, hon, hplace⟩
    obtain ⟨hx, hy⟩ := onQuarter_bounds hw hh hon
    rw [short_eq (v := x0 + half w + x) (by omega) (by omega),
      short_eq (v := x0 + half w - x) (by omega) (by omega),
      short_eq (v := y0 + half h + y) (by omega) (by omega),
      short_eq (v := y0 + half h - y) (by omega) (by omega)] at hplace
    have hX : |X - (x0 + half w)| = x := by
      obtain hX | hX : X - (x0 + half w) = x ∨ X - (x0 + half w) = -x := by omega
      · rw [hX, abs_of_nonneg hx.1]
      · rw [hX, abs_neg, abs_of_nonneg hx.1]
    have hY : |Y - (y0 + half h)| = y := by
      obtain hY | hY : Y - (y0 + half h) = y ∨ Y - (y0 + half h) = -y := by omega
      · rw [hY, abs_of_nonneg hy.1]
      · rw [hY, abs_neg, abs_of_nonneg hy.1]
    rw [hX, hY]
    exact hon
  · intro hon
    obtain ⟨hx, hy⟩ := onQuarter_bounds hw hh hon
    refine ⟨|X - (x0 + half w)|, |Y - (y0 + half h)|, hon, ?_⟩
    rw [short_eq (v := x0 + half w + _) (by omega) (by omega),
      short_eq (v := x0 + half w - _) (by omega) (by omega),
      short_eq (v := y0 + half h + _) (by omega) (by omega),
      short_eq (v := y0 + half h - _) (by omega) (by omega)]
    obtain hX | hX := abs_cases (X - (x0 + half w))
    · obtain hY | hY := abs_cases (Y - (y0 + half h))
      · omega
      · omega
    · obtain hY | hY := abs_cases (Y - (y0 + half h))
      · omega
      · omega

/-- A filled circle covers, in every row of the circle, the pixels between its two sides, without
the right one. -/
theorem draws_fillCircle (hfb : fb.Valid) (hs : s.Inside fb) (col : UInt32) :
  Draws fb s col (fun X Y => ∃ x, OnQuarter w h x |Y - (y0 + half h)|
    ∧ x0 + half w - x ≤ X ∧ X < x0 + half w + x) (fillCircle n fb s x0 y0 w h col)
  := by
  rw [abs_le] at hx0 hy0
  have hhalf : half w = (w + 1) / 2 := half_eq (by omega) (by omega)
  have hhalf' : half h = (h + 1) / 2 := half_eq (by omega) (by omega)
  have hcircle : fillCircle n fb s x0 y0 w h col
      = quarter (fun x y m =>
        let m := strokeLine fb s (x0 + half w - x) (y0 + half h + y) (x0 + half w + x)
          (y0 + half h + y) col m
        strokeLine fb s (x0 + half w - x) (y0 + half h - y) (x0 + half w + x)
          (y0 + half h - y) col m) n w h := by
    funext m
    unfold fillCircle
    dsimp only
    rw [short_eq (v := w) (by omega) (by omega), short_eq (v := h) (by omega) (by omega),
      short_eq (v := x0) (by omega) (by omega), short_eq (v := y0) (by omega) (by omega),
      short_eq (v := x0 + half w) (by omega) (by omega),
      short_eq (v := y0 + half h) (by omega) (by omega)]
  have hrow : ∀ x y, OnQuarter w h x y → Draws fb s col
      (fun X Y => (Y = y0 + half h + y ∧ min (x0 + half w - x) (x0 + half w + x) ≤ X
          ∧ X < max (x0 + half w - x) (x0 + half w + x))
        ∨ (Y = y0 + half h - y ∧ min (x0 + half w - x) (x0 + half w + x) ≤ X
          ∧ X < max (x0 + half w - x) (x0 + half w + x)))
      (fun m =>
        let m := strokeLine fb s (x0 + half w - x) (y0 + half h + y) (x0 + half w + x)
          (y0 + half h + y) col m
        strokeLine fb s (x0 + half w - x) (y0 + half h - y) (x0 + half w + x)
          (y0 + half h - y) col m) := by
    intro x y hon
    obtain ⟨hx, hy⟩ := onQuarter_bounds hw hh hon
    apply Draws.comp
    · apply draws_strokeLine_horizontal hfb hs
      · omega
      · omega
      · omega
    · apply draws_strokeLine_horizontal hfb hs
      · omega
      · omega
      · omega
  rw [hcircle]
  have hdraws := draws_quarter hw hh
    (fun x y X Y =>
      (Y = y0 + half h + y ∧ min (x0 + half w - x) (x0 + half w + x) ≤ X
        ∧ X < max (x0 + half w - x) (x0 + half w + x))
      ∨ (Y = y0 + half h - y ∧ min (x0 + half w - x) (x0 + half w + x) ≤ X
        ∧ X < max (x0 + half w - x) (x0 + half w + x))) hn hrow
  apply hdraws.congr
  intro X Y _
  constructor
  · rintro ⟨x, y, hon, hplace⟩
    obtain ⟨hx, hy⟩ := onQuarter_bounds hw hh hon
    have hY : |Y - (y0 + half h)| = y := by
      obtain hY | hY : Y - (y0 + half h) = y ∨ Y - (y0 + half h) = -y := by omega
      · rw [hY, abs_of_nonneg hy.1]
      · rw [hY, abs_neg, abs_of_nonneg hy.1]
    rw [← hY] at hon
    exact ⟨x, hon, by omega, by omega⟩
  · rintro ⟨x, hon, hlo, hhi⟩
    refine ⟨x, |Y - (y0 + half h)|, hon, ?_⟩
    obtain hY | hY := abs_cases (Y - (y0 + half h))
    · left
      omega
    · right
      omega

end Circle

/-- Of a circle with sizes from 2 to 1024 the loops end, and it is drawn, or filled, exactly; with
even sizes it is the ellipse of that width and height. -/
theorem circle_exact (hfb : fb.Valid) (hs : s.Inside fb) {x0 y0 w h : ℤ} (hx0 : |x0| ≤ 2 ^ 14)
    (hy0 : |y0| ≤ 2 ^ 14) (hw : 2 ≤ w ∧ w ≤ 1024) (hh : 2 ≤ h ∧ h ≤ 1024) (col : UInt32) :
  (Even w → Even h → ∀ x y, OnQuarter w h x y ↔ OnEllipse (w / 2) (h / 2) x y)
    ∧ ∃ k, ∀ n ≥ k, quarterEnds n w h = true
      ∧ Draws fb s col (fun X Y => OnQuarter w h |X - (x0 + half w)| |Y - (y0 + half h)|)
        (strokeCircle n fb s x0 y0 w h col)
      ∧ Draws fb s col (fun X Y => ∃ x, OnQuarter w h x |Y - (y0 + half h)|
        ∧ x0 + half w - x ≤ X ∧ X < x0 + half w + x) (fillCircle n fb s x0 y0 w h col)
  := by
  refine ⟨onQuarter_iff, turns w h, fun n hn => ⟨quarterEnds_of_turns hw hh hn, ?_, ?_⟩⟩
  · exact draws_strokeCircle hx0 hy0 hw hh hn fb s col
  · exact draws_fillCircle hx0 hy0 hw hh hn hfb hs col

theorem circle_exact_vga :
  (Even (30 : ℤ) → Even (16 : ℤ) → ∀ x y, OnQuarter 30 16 x y ↔ OnEllipse (30 / 2) (16 / 2) x y)
    ∧ ∃ k, ∀ n ≥ k, quarterEnds n 30 16 = true
      ∧ Draws ⟨640, 480, 2560⟩ (scissor ⟨640, 480, 2560⟩ 0 0 640 480) 255
        (fun X Y => OnQuarter 30 16 |X - (-5 + half 30)| |Y - (7 + half 16)|)
        (strokeCircle n ⟨640, 480, 2560⟩ (scissor ⟨640, 480, 2560⟩ 0 0 640 480) (-5) 7 30 16 255)
      ∧ Draws ⟨640, 480, 2560⟩ (scissor ⟨640, 480, 2560⟩ 0 0 640 480) 255
        (fun X Y => ∃ x, OnQuarter 30 16 x |Y - (7 + half 16)|
          ∧ -5 + half 30 - x ≤ X ∧ X < -5 + half 30 + x)
        (fillCircle n ⟨640, 480, 2560⟩ (scissor ⟨640, 480, 2560⟩ 0 0 640 480) (-5) 7 30 16 255)
  := @circle_exact _ _ valid_vga (scissor_inside valid_vga 0 0 (by norm_num)) (-5) 7 30 16
    (by norm_num) (by norm_num) (by norm_num) (by norm_num) 255

/-! ### Circles on which the loops never end -/

/-- A half of an ellipse without extent never ends. -/
theorem ends_point (n : ℕ) (p : Pen) :
  ellipseEnds 0 0 n p = false
  := by
  induction n generalizing p with
  | zero => rfl
  | succ n ih =>
      rw [ellipseEnds, if_pos]
      · exact ih _
      · unfold ellipseTest
        rw [zero_mul, zero_mul]

/-- A half along which the ellipse is flat never ends: the error stays negative, so that the other
coordinate stays at one. -/
theorem ends_flat {a : ℤ} (ha : 0 < a) (ha' : a ≤ 2 ^ 18) (n : ℕ) (p : Pen) (hy : p.y = 1)
    (hsigma : p.sigma = -a) :
  ellipseEnds a 0 n p = false
  := by
  induction n generalizing p with
  | zero => rfl
  | succ n ih =>
      have hturn : ellipseTurn a 0 p = ⟨int32 (p.x + 1), 1, -a⟩ := by
        unfold ellipseTurn
        rw [if_neg (by omega)]
        dsimp only
        rw [zero_mul, add_zero, hsigma, hy, int32_eq (v := -a) (by omega) (by omega)]
      rw [ellipseEnds, if_pos, hturn]
      · exact ih _ rfl rfl
      · unfold ellipseTest
        rw [zero_mul, hy, mul_one, int32_eq (v := a) (by omega) (by omega)]
        exact ha.le

/-- The first loop of an ellipse without width ends, and so does the second one of an ellipse without
height. -/
theorem ends_thin {b : ℤ} (hb : 0 < b) (hb' : b ≤ 2 ^ 18) (y : ℤ) :
  ellipseEnds 0 b 2 (ellipseStart 0 b y) = true
  := by
  have hzero : int32 0 = 0 := rfl
  have hx : (ellipseTurn 0 b (ellipseStart 0 b y)).x = 1 := by
    unfold ellipseTurn ellipseStart
    dsimp only
    split <;> rfl
  have htest : ¬ ellipseTest 0 b (ellipseTurn 0 b (ellipseStart 0 b y)) := by
    unfold ellipseTest
    rw [hx, mul_one, zero_mul, int32_eq (v := b) (by omega) (by omega), hzero]
    omega
  rw [ellipseEnds, if_pos]
  · rw [ellipseEnds, if_neg htest]
  · unfold ellipseTest ellipseStart
    dsimp only
    rw [zero_mul, mul_zero]

/-- The second loop of an ellipse without width ends, and so does the first one of an ellipse without
height. -/
theorem ends_low {a : ℤ} (ha : 0 < a) (ha' : a ≤ 2 ^ 18) :
  ellipseEnds a 0 2 (ellipseStart a 0 0) = true
  := by
  have hzero : int32 0 = 0 := rfl
  have hstart : ellipseStart a 0 0 = ⟨0, 0, a⟩ := by
    unfold ellipseStart
    rw [mul_zero, sub_zero, mul_one, zero_add, int32_eq (by omega) (by omega)]
  have hy : (ellipseTurn a 0 ⟨0, 0, a⟩).y = -1 := by
    unfold ellipseTurn
    rw [if_pos ha.le]
    rfl
  have htest : ¬ ellipseTest a 0 (ellipseTurn a 0 ⟨0, 0, a⟩) := by
    unfold ellipseTest
    rw [hy, zero_mul, int32_eq (v := a * -1) (by omega) (by omega), hzero]
    omega
  rw [hstart, ellipseEnds, if_pos]
  · rw [ellipseEnds, if_neg htest]
  · unfold ellipseTest
    rw [zero_mul, mul_zero]

/-- The loop along an axis on which the ellipse has a size of one never ends. -/
theorem ends_one (n : ℕ) {v : ℤ} (hlo : 0 ≤ v) (hhi : v ≤ 1024) :
  ellipseEnds (v * v / 4) 0 n (ellipseStart (v * v / 4) 0 1) = false
  := by
  obtain hsmall | hlarge : v ≤ 1 ∨ 2 ≤ v := by omega
  · have hzero : v * v / 4 = 0 := by
      obtain rfl | rfl : v = 0 ∨ v = 1 := by omega
      · rfl
      · rfl
    rw [hzero]
    exact ends_point n _
  · obtain ⟨ha, ha'⟩ := area_bounds hlarge hhi
    apply ends_flat ha ha' n _ rfl
    unfold ellipseStart
    have hsigma : 2 * 0 + v * v / 4 * (1 - 2 * 1) = -(v * v / 4) := by ring
    rw [hsigma]
    exact int32_eq (by omega) (by omega)

/-- The loops end within some turns if neither size is one and not both are zero. -/
theorem exists_quarterEnds_iff {w h : ℤ} (hw : 0 ≤ w ∧ w ≤ 1024) (hh : 0 ≤ h ∧ h ≤ 1024) :
  (∃ n, quarterEnds n w h = true) ↔ w ≠ 1 ∧ h ≠ 1 ∧ (w ≠ 0 ∨ h ≠ 0)
  := by
  constructor
  · rintro ⟨n, hends⟩
    unfold quarterEnds at hends
    rw [Bool.and_eq_true] at hends
    obtain ⟨hfirst, hsecond⟩ := hends
    refine ⟨?_, ?_, ?_⟩
    · rintro rfl
      rw [show (1 * 1 / 4 : ℤ) = 0 by norm_num, show half 1 = 1 by decide,
        ends_one n hh.1 hh.2] at hsecond
      cases hsecond
    · rintro rfl
      rw [show (1 * 1 / 4 : ℤ) = 0 by norm_num, show half 1 = 1 by decide,
        ends_one n hw.1 hw.2] at hfirst
      cases hfirst
    · by_contra hboth
      obtain ⟨rfl, rfl⟩ : w = 0 ∧ h = 0 := by omega
      rw [show (0 * 0 / 4 : ℤ) = 0 by norm_num, ends_point] at hfirst
      cases hfirst
  · rintro ⟨hw1, hh1, hboth⟩
    obtain hw0 | hw2 : w = 0 ∨ 2 ≤ w := by omega
    · subst hw0
      obtain ⟨hb, hb'⟩ := area_bounds (v := h) (by omega) hh.2
      refine ⟨2, ?_⟩
      unfold quarterEnds
      rw [show (0 * 0 / 4 : ℤ) = 0 by norm_num, show half 0 = 0 by decide]
      dsimp only
      rw [ends_thin hb hb', ends_low hb hb']
      rfl
    · obtain hh0 | hh2 : h = 0 ∨ 2 ≤ h := by omega
      · subst hh0
        obtain ⟨ha, ha'⟩ := area_bounds hw2 hw.2
        refine ⟨2, ?_⟩
        unfold quarterEnds
        rw [show (0 * 0 / 4 : ℤ) = 0 by norm_num, show half 0 = 0 by decide]
        dsimp only
        rw [ends_low ha ha', ends_thin ha ha']
        rfl
      · exact ⟨turns w h, quarterEnds_of_turns ⟨hw2, hw.2⟩ ⟨hh2, hh.2⟩ (le_refl _)⟩

theorem exists_quarterEnds_iff_one :
  (∃ n, quarterEnds n 1 500 = true) ↔ (1 : ℤ) ≠ 1 ∧ (500 : ℤ) ≠ 1 ∧ ((1 : ℤ) ≠ 0 ∨ (500 : ℤ) ≠ 0)
  := exists_quarterEnds_iff (by norm_num) (by norm_num)

end LnxCad.Render
