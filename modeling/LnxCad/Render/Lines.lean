import LnxCad.Render.Surface

/-!
# Lines and filled rectangles

A line that is not horizontal is drawn along its longer axis, one pixel at a time, each within half
a pixel of the ideal line, and from one end to the other.  A horizontal one is drawn without its
right end.  A filled rectangle is a run of horizontal lines.
-/

namespace LnxCad.Render

open Bresenham

variable {fb : Image} {s : Scissors}

/-! ### Lines -/

/-- A line between two ends goes one pixel at a time along its longer axis, from the first end
towards the second, and each pixel is within half a pixel of the ideal line. -/
structure IsDigitalLine (x0 y0 x1 y1 : ℤ) (pts : List (ℤ × ℤ)) : Prop where
  length_eq : (pts.length : ℤ) = max |x1 - x0| |y1 - y0| + 1
  start : pts.head? = some (x0, y0)
  stop : pts.getLast? = some (x1, y1)
  along : ∀ (i : ℕ) (X Y : ℤ), pts[i]? = some (X, Y) →
    if |y1 - y0| < |x1 - x0| then
      X - x0 = i * (x1 - x0).sign
        ∧ 2 * |(Y - y0) * (x1 - x0) - (X - x0) * (y1 - y0)| ≤ |x1 - x0|
    else
      Y - y0 = i * (y1 - y0).sign
        ∧ 2 * |(X - x0) * (y1 - y0) - (Y - y0) * (x1 - x0)| ≤ |y1 - y0|

/-- What the loops need to know of a line: no value leaves a `short`, and only the last step
reaches the end. -/
structure LoopLine (d : Slope) (a b : ℤ) (p : Pen) (stop : ℤ) : Prop where
  line : IsLine d a b p
  major : ∀ k, 0 ≤ k → k ≤ a → short (p.major + k * d.stepMajor) = p.major + k * d.stepMajor
  minor : ∀ q, 0 ≤ q → q ≤ b → short (p.minor + q * d.stepMinor) = p.minor + q * d.stepMinor
  stop : ∀ k, 0 ≤ k → k ≤ a → (p.major + k * d.stepMajor = stop ↔ k = a)

theorem lineTurn_eq {d : Slope} {a b stop : ℤ} {p p' : Pen} {k q : ℤ}
    (h : LoopLine d a b p stop) (hk : 0 ≤ k) (hka : k < a) (hreach : Reaches d p k q p')
    (hnear : Near a b k q) :
  lineTurn d p' = next d p'
  := by
  have hnext := hreach.next
  obtain ⟨hq, hqb⟩ := (hnear.next h.line hreach).bounds h.line.pos h.line.nonneg (by omega) (by omega)
  have hmajor := h.major (k + 1) (by omega) (by omega)
  have hminor := h.minor _ hq hqb
  rw [← hnext.1] at hmajor
  rw [← hnext.2.1] at hminor
  revert hmajor hminor
  unfold lineTurn next
  by_cases hge : p'.fraction ≥ 0
  · simp only [if_pos hge]
    intro hmajor hminor
    rw [hmajor, hminor]
  · simp only [if_neg hge]
    intro hmajor _
    rw [hmajor]

/-- A loop draws the pixels of the path, and comes to its end. -/
theorem lineLoop_eq {d : Slope} {a b stop : ℤ} {p : Pen} (h : LoopLine d a b p stop)
    (draw : Pen → Pixels → Pixels) (j : ℕ) {n : ℕ} (hn : j < n) {p' : Pen} {k q : ℤ} (hk : 0 ≤ k)
    (hj : k + j = a) (hreach : Reaches d p k q p') (hnear : Near a b k q) (m : Pixels) :
  lineLoop d stop draw n p' m = (path d j p').foldl (fun m p => draw p m) m
  := by
  induction j generalizing n p' k q m with
  | zero =>
      obtain ⟨n, rfl⟩ : ∃ n', n = n' + 1 := ⟨n - 1, by omega⟩
      rw [lineLoop, if_pos]
      · rfl
      · rw [hreach.1]
        exact (h.stop k hk (by omega)).mpr (by omega)
  | succ j ih =>
      obtain ⟨n, rfl⟩ : ∃ n', n = n' + 1 := ⟨n - 1, by omega⟩
      have hlt : k < a := by omega
      rw [lineLoop, if_neg]
      · rw [lineTurn_eq h hk hlt hreach hnear, ih (by omega) (by omega) (by omega) hreach.next
          (hnear.next h.line hreach)]
        rfl
      · rw [hreach.1]
        intro heq
        have := (h.stop k hk hlt.le).mp heq
        omega

/-- The loops draw the path behind the first pixel. -/
theorem lineLoop_start {d : Slope} {a b stop : ℤ} {p : Pen} (h : LoopLine d a b p stop)
    (ha : a < 65536) (draw : Pen → Pixels → Pixels) (m : Pixels) :
  lineLoop d stop draw 65536 p m = (path d a.toNat p).foldl (fun m p => draw p m) m
  := by
  have hpos := h.line.pos
  exact lineLoop_eq h draw a.toNat (by omega) (le_refl 0) (by omega) (Reaches.refl d p)
    (Near.refl hpos b) m

/-- The pixel after some steps of a line, by the axes. -/
theorem path_get {d : Slope} {a b stop : ℤ} {p r : Pen} (h : LoopLine d a b p stop) {i : ℕ}
    (hi : (p :: path d a.toNat p)[i]? = some r) :
  ∃ q, 0 ≤ q ∧ q ≤ b ∧ Near a b i q ∧ r.major = p.major + i * d.stepMajor
    ∧ r.minor = p.minor + q * d.stepMinor
  := by
  have hpos := h.line.pos
  cases i with
  | zero =>
      obtain rfl : p = r := by simpa using hi
      refine ⟨0, le_refl 0, h.line.nonneg, Near.refl hpos b, ?_, ?_⟩
      · simp
      · simp
  | succ i =>
      rw [List.getElem?_cons_succ] at hi
      have hlen : i < a.toNat := by
        have hsome := List.getElem?_eq_some_iff.mp hi
        obtain ⟨hlt, -⟩ := hsome
        rwa [length_path] at hlt
      obtain ⟨q, hnear, hreach⟩ := path_near h.line (Reaches.refl d p) (Near.refl hpos b) hi
      have hcast : (0 : ℤ) + i + 1 = (i + 1 : ℕ) := by
        push_cast
        ring
      rw [hcast] at hnear hreach
      obtain ⟨hq, hqb⟩ := hnear.bounds hpos h.line.nonneg (by omega) (by omega)
      exact ⟨q, hq, hqb, hnear, hreach.1, hreach.2.1⟩

/-- The last pixel of a line is its end. -/
theorem path_last {d : Slope} {a b stop : ℤ} {p : Pen} (h : LoopLine d a b p stop) :
  ∃ r, (p :: path d a.toNat p).getLast? = some r ∧ r.major = p.major + a * d.stepMajor
    ∧ r.minor = p.minor + b * d.stepMinor
  := by
  have hpos := h.line.pos
  have hlen : (p :: path d a.toNat p).length = a.toNat + 1 := by rw [List.length_cons, length_path]
  obtain ⟨r, hr⟩ : ∃ r, (p :: path d a.toNat p)[a.toNat]? = some r :=
    ⟨_, List.getElem?_eq_getElem (by omega)⟩
  refine ⟨r, ?_, ?_⟩
  · rw [List.getLast?_eq_getElem?, hlen]
    exact hr
  · obtain ⟨q, -, -, hnear, hmajor, hminor⟩ := path_get h hr
    rw [Int.toNat_of_nonneg hpos.le] at hnear hmajor
    rw [hnear.eq_end hpos] at hminor
    exact ⟨hmajor, hminor⟩

/-- The direction of a distance. -/
def direction (v : ℤ) : ℤ := if v < 0 then -1 else 1

theorem direction_cases (v : ℤ) :
  (if v < 0 then (-v, (-1 : ℤ)) else (v, 1)) = (|v|, direction v)
  := by
  unfold direction
  split
  case isTrue h => rw [abs_of_neg h]
  case isFalse h => rw [abs_of_nonneg (by omega)]

theorem abs_mul_direction (v : ℤ) :
  |v| * direction v = v
  := by
  unfold direction
  split
  case isTrue h => rw [abs_of_neg h, neg_mul_neg, mul_one]
  case isFalse h => rw [abs_of_nonneg (by omega), mul_one]

theorem abs_direction (v : ℤ) :
  |direction v| = 1
  := by
  unfold direction
  split <;> rfl

theorem direction_eq_sign {v : ℤ} (h : v ≠ 0) :
  direction v = v.sign
  := by
  unfold direction
  split
  case isTrue hneg => rw [Int.sign_eq_neg_one_of_neg hneg]
  case isFalse hge => rw [Int.sign_eq_one_of_pos (by omega)]

/-- A value on the way between two shorts is a short. -/
theorem short_between {u v k : ℤ} (hu : -2 ^ 15 ≤ u ∧ u < 2 ^ 15) (hv : -2 ^ 15 ≤ v ∧ v < 2 ^ 15)
    (hk : 0 ≤ k) (hle : k ≤ |v - u|) :
  short (u + k * direction (v - u)) = u + k * direction (v - u)
  := by
  unfold direction
  split
  case isTrue hneg =>
    rw [abs_of_neg hneg] at hle
    apply short_eq
    · omega
    · omega
  case isFalse hpos =>
    rw [abs_of_nonneg (by omega)] at hle
    apply short_eq
    · omega
    · omega

/-- A loop of the function, along the axis on which the ends are farther apart. -/
theorem loopLine_between {u v u' v' : ℤ} (hu : -2 ^ 15 ≤ u ∧ u < 2 ^ 15)
    (hv : -2 ^ 15 ≤ v ∧ v < 2 ^ 15) (hu' : -2 ^ 15 ≤ u' ∧ u' < 2 ^ 15)
    (hv' : -2 ^ 15 ≤ v' ∧ v' < 2 ^ 15) (hne : u ≠ v) (hle : |v' - u'| ≤ |v - u|) :
  LoopLine ⟨direction (v - u), direction (v' - u'), |v - u| * 2, |v' - u'| * 2⟩ |v - u| |v' - u'|
    ⟨u, u', |v' - u'| * 2 - |v - u| * 2 / 2⟩ v
  := by
  have hpos : 0 < |v - u| := abs_pos.mpr (by omega)
  have hend := abs_mul_direction (v - u)
  constructor
  · constructor
    · exact hpos
    · exact abs_nonneg _
    · exact hle
    · exact mul_comm _ _
    · exact mul_comm _ _
    · dsimp only
      omega
  · intro k hk hka
    exact short_between hu hv hk hka
  · intro q hq hqb
    exact short_between hu' hv' hq hqb
  · intro k hk hka
    dsimp only
    constructor
    · intro heq
      have hmul : k * direction (v - u) = |v - u| * direction (v - u) := by omega
      have hne' : direction (v - u) ≠ 0 := by
        unfold direction
        split <;> omega
      exact mul_right_cancel₀ hne' hmul
    · rintro rfl
      omega

/-- A loop, behind the first pixel, draws the pixels of the path. -/
theorem draws_lineLoop {d : Slope} {a b stop : ℤ} {p : Pen} (h : LoopLine d a b p stop)
    (ha : a < 65536) (place : Pen → ℤ × ℤ)
    (hplace : ∀ r, short r.major = r.major → short r.minor = r.minor →
      short (place r).1 = (place r).1 ∧ short (place r).2 = (place r).2) (col : UInt32) :
  Draws fb s col (fun X Y => (X, Y) ∈ (p :: path d a.toNat p).map place)
    (fun m => lineLoop d stop (fun r => ctxSetpixel fb s (place r).1 (place r).2 col) 65536 p
      (ctxSetpixel fb s (place p).1 (place p).2 col m))
  := by
  have heq : (fun m => lineLoop d stop (fun r => ctxSetpixel fb s (place r).1 (place r).2 col) 65536 p
        (ctxSetpixel fb s (place p).1 (place p).2 col m))
      = fun m => (p :: path d a.toNat p).foldl
        (fun m r => ctxSetpixel fb s (place r).1 (place r).2 col m) m := by
    funext m
    rw [lineLoop_start h ha, List.foldl_cons]
  rw [heq]
  have hdraws : Draws fb s col
      (fun X Y => ∃ r ∈ p :: path d a.toNat p, X = short (place r).1 ∧ Y = short (place r).2)
      (fun m => (p :: path d a.toNat p).foldl
        (fun m r => ctxSetpixel fb s (place r).1 (place r).2 col m) m) :=
    Draws.foldl (fun r _ => draws_ctxSetpixel fb s (place r).1 (place r).2 col)
  apply hdraws.congr
  intro X Y _
  rw [List.mem_map]
  have hshort : ∀ r ∈ p :: path d a.toNat p,
      short (place r).1 = (place r).1 ∧ short (place r).2 = (place r).2 := by
    intro r hr
    obtain ⟨i, hi⟩ := List.mem_iff_getElem?.mp hr
    obtain ⟨q, hq, hqb, hnear, hmajor, hminor⟩ := path_get h hi
    have hlen : i ≤ a.toNat := by
      have hlt := (List.getElem?_eq_some_iff.mp hi).1
      rw [List.length_cons, length_path] at hlt
      omega
    have hpos := h.line.pos
    apply hplace r
    · rw [hmajor]
      exact h.major i (by omega) (by omega)
    · rw [hminor]
      exact h.minor q hq hqb
  constructor
  · rintro ⟨r, hr, hX, hY⟩
    obtain ⟨hx, hy⟩ := hshort r hr
    refine ⟨r, hr, ?_⟩
    rw [hX, hY, hx, hy]
  · rintro ⟨r, hr, heq⟩
    obtain ⟨hx, hy⟩ := hshort r hr
    refine ⟨r, hr, ?_⟩
    rw [hx, hy, heq]
    exact ⟨rfl, rfl⟩

/-- What a pixel of a line is off, in terms of the steps along the axes. -/
theorem off_of_near {u v : ℤ} (hne : v - u ≠ 0) (u' v' : ℤ) {i q : ℤ}
    (hnear : Near |v - u| |v' - u'| i q) :
  u + i * direction (v - u) - u = i * (v - u).sign
    ∧ 2 * |(u' + q * direction (v' - u') - u') * (v - u)
      - (u + i * direction (v - u) - u) * (v' - u')| ≤ |v - u|
  := by
  have hu := abs_mul_direction (v - u)
  have hu' := abs_mul_direction (v' - u')
  constructor
  · rw [add_sub_cancel_left, direction_eq_sign hne]
  · have hprod : (u' + q * direction (v' - u') - u') * (v - u)
        - (u + i * direction (v - u) - u) * (v' - u')
        = (|v - u| * q - |v' - u'| * i) * (direction (v - u) * direction (v' - u')) := by
      calc (u' + q * direction (v' - u') - u') * (v - u)
            - (u + i * direction (v - u) - u) * (v' - u')
          = q * direction (v' - u') * (|v - u| * direction (v - u))
            - i * direction (v - u) * (|v' - u'| * direction (v' - u')) := by
            rw [hu, hu']
            ring
        _ = (|v - u| * q - |v' - u'| * i) * (direction (v - u) * direction (v' - u')) := by ring
    rw [hprod, abs_mul, abs_mul, abs_direction, abs_direction, mul_one, mul_one]
    obtain ⟨hlo, hhi⟩ := hnear
    have habs : |2 * (|v - u| * q - |v' - u'| * i)| ≤ |v - u| := by
      rw [abs_le]
      omega
    rwa [abs_mul, abs_two] at habs

/-- The pixels of a loop, placed by their axes, make a line between the ends. -/
theorem isDigitalLine_path {u v u' v' x0 y0 x1 y1 : ℤ} (place : Pen → ℤ × ℤ) {b : ℤ}
    (h : LoopLine ⟨direction (v - u), direction (v' - u'), |v - u| * 2, |v' - u'| * 2⟩ |v - u|
      |v' - u'| ⟨u, u', b⟩ v)
    (hmax : max |x1 - x0| |y1 - y0| = |v - u|)
    (hstart : place ⟨u, u', b⟩ = (x0, y0))
    (hstop : ∀ r : Pen, r.major = v → r.minor = v' → place r = (x1, y1))
    (halong : ∀ (i : ℕ) (r : Pen), r.major - u = i * (v - u).sign →
      2 * |(r.minor - u') * (v - u) - (r.major - u) * (v' - u')| ≤ |v - u| →
      if |y1 - y0| < |x1 - x0| then
        (place r).1 - x0 = i * (x1 - x0).sign
          ∧ 2 * |((place r).2 - y0) * (x1 - x0) - ((place r).1 - x0) * (y1 - y0)| ≤ |x1 - x0|
      else
        (place r).2 - y0 = i * (y1 - y0).sign
          ∧ 2 * |((place r).1 - x0) * (y1 - y0) - ((place r).2 - y0) * (x1 - x0)| ≤ |y1 - y0|) :
  IsDigitalLine x0 y0 x1 y1
    ((⟨u, u', b⟩ :: path ⟨direction (v - u), direction (v' - u'), |v - u| * 2, |v' - u'| * 2⟩
      |v - u|.toNat ⟨u, u', b⟩).map place)
  := by
  have hpos := h.line.pos
  constructor
  · rw [List.length_map, List.length_cons, length_path, hmax]
    omega
  · rw [List.map_cons, List.head?_cons, hstart]
  · obtain ⟨r, hlast, hmajor, hminor⟩ := path_last h
    rw [List.getLast?_map, hlast, Option.map_some, hstop r]
    · rw [hmajor]
      dsimp only
      rw [abs_mul_direction]
      omega
    · rw [hminor]
      dsimp only
      rw [abs_mul_direction]
      omega
  · intro i X Y hi
    rw [List.getElem?_map, Option.map_eq_some_iff] at hi
    obtain ⟨r, hr, hplace⟩ := hi
    obtain ⟨q, hq, hqb, hnear, hmajor, hminor⟩ := path_get h hr
    have hoff := off_of_near (abs_pos.mp hpos) u' v' hnear
    dsimp only at hmajor hminor
    rw [← hmajor, ← hminor] at hoff
    have h' := halong i r hoff.1 hoff.2
    rwa [hplace] at h'

/-- A line that is not horizontal is drawn pixel by pixel, from one end to the other, each pixel
within half a pixel of it. -/
theorem draws_strokeLine (fb : Image) (s : Scissors) {x0 y0 x1 y1 : ℤ}
    (hx0 : -2 ^ 15 ≤ x0 ∧ x0 < 2 ^ 15) (hy0 : -2 ^ 15 ≤ y0 ∧ y0 < 2 ^ 15)
    (hx1 : -2 ^ 15 ≤ x1 ∧ x1 < 2 ^ 15) (hy1 : -2 ^ 15 ≤ y1 ∧ y1 < 2 ^ 15) (hne : y0 ≠ y1)
    (col : UInt32) :
  ∃ pts, IsDigitalLine x0 y0 x1 y1 pts
    ∧ Draws fb s col (fun X Y => (X, Y) ∈ pts) (strokeLine fb s x0 y0 x1 y1 col)
  := by
  have hstroke : strokeLine fb s x0 y0 x1 y1 col
      = fun m =>
        if |x1 - x0| * 2 > |y1 - y0| * 2 then
          lineLoop ⟨direction (x1 - x0), direction (y1 - y0), |x1 - x0| * 2, |y1 - y0| * 2⟩ x1
            (fun p => ctxSetpixel fb s p.major p.minor col) 65536
            ⟨x0, y0, |y1 - y0| * 2 - |x1 - x0| * 2 / 2⟩ (ctxSetpixel fb s x0 y0 col m)
        else
          lineLoop ⟨direction (y1 - y0), direction (x1 - x0), |y1 - y0| * 2, |x1 - x0| * 2⟩ y1
            (fun p => ctxSetpixel fb s p.minor p.major col) 65536
            ⟨y0, x0, |x1 - x0| * 2 - |y1 - y0| * 2 / 2⟩ (ctxSetpixel fb s x0 y0 col m) := by
    funext m
    rw [strokeLine, short_eq hx0.1 hx0.2, short_eq hy0.1 hy0.2, short_eq hx1.1 hx1.2,
      short_eq hy1.1 hy1.2]
    dsimp only
    rw [if_neg (by omega), direction_cases, direction_cases]
  have hx : |x1 - x0| < 65536 := by
    rw [abs_lt]
    omega
  have hy : |y1 - y0| < 65536 := by
    rw [abs_lt]
    omega
  rw [hstroke]
  by_cases hshallow : |y1 - y0| < |x1 - x0|
  · have hne' : x0 ≠ x1 := by
      rintro rfl
      rw [sub_self, abs_zero] at hshallow
      exact absurd (abs_nonneg (y1 - y0)) (by omega)
    have hloop := loopLine_between hx0 hx1 hy0 hy1 hne' hshallow.le
    refine ⟨_, isDigitalLine_path (fun r => (r.major, r.minor)) hloop ?_ rfl ?_ ?_, ?_⟩
    · exact max_eq_left hshallow.le
    · rintro r rfl rfl
      rfl
    · intro i r hi hoff
      rw [if_pos hshallow]
      exact ⟨hi, hoff⟩
    · simp only [if_pos (show |x1 - x0| * 2 > |y1 - y0| * 2 by omega)]
      exact draws_lineLoop hloop hx (fun r => (r.major, r.minor)) (fun r h h' => ⟨h, h'⟩) col
  · have hloop := loopLine_between hy0 hy1 hx0 hx1 hne (not_lt.mp hshallow)
    refine ⟨_, isDigitalLine_path (fun r => (r.minor, r.major)) hloop ?_ rfl ?_ ?_, ?_⟩
    · exact max_eq_right (not_lt.mp hshallow)
    · rintro r rfl rfl
      rfl
    · intro i r hi hoff
      rw [if_neg hshallow]
      exact ⟨hi, hoff⟩
    · simp only [if_neg (show ¬ |x1 - x0| * 2 > |y1 - y0| * 2 by omega)]
      exact draws_lineLoop hloop hy (fun r => (r.minor, r.major)) (fun r h h' => ⟨h', h⟩) col

/-- A horizontal line is drawn from its left end up to its right one. -/
theorem draws_strokeLine_horizontal (hfb : fb.Valid) (hs : s.Inside fb) {x0 y x1 : ℤ}
    (hx0 : -2 ^ 15 ≤ x0 ∧ x0 < 2 ^ 15) (hy : -2 ^ 15 ≤ y ∧ y < 2 ^ 15)
    (hx1 : -2 ^ 15 ≤ x1 ∧ x1 < 2 ^ 15) (col : UInt32) :
  Draws fb s col (fun X Y => Y = y ∧ min x0 x1 ≤ X ∧ X < max x0 x1) (strokeLine fb s x0 y x1 y col)
  := by
  have hstroke : strokeLine fb s x0 y x1 y col
      = fun m => if x1 - x0 = 0 ∨ y ≥ s.h ∨ y < s.y then m
        else lineHorizontal fb (max s.x (min s.w (min x0 x1))) y (max s.x (min s.w (max x0 x1)))
          col m := by
    funext m
    rw [strokeLine, short_eq hx0.1 hx0.2, short_eq hy.1 hy.2, short_eq hx1.1 hx1.2]
    dsimp only
    rw [if_pos (sub_self y)]
    by_cases hneg : x1 - x0 < 0
    · rw [if_pos hneg, min_eq_right (show x1 ≤ x0 by omega), max_eq_left (show x1 ≤ x0 by omega)]
    · rw [if_neg hneg, min_eq_left (show x0 ≤ x1 by omega), max_eq_right (show x0 ≤ x1 by omega)]
  rw [hstroke]
  by_cases hout : x1 - x0 = 0 ∨ y ≥ s.h ∨ y < s.y
  · simp only [if_pos hout]
    apply Draws.nothing
    rintro X Y ⟨-, -, hY, hY'⟩ ⟨rfl, hX, hX'⟩
    omega
  · simp only [if_neg hout]
    exact draws_lineHorizontal hfb hs min_le_max (by omega) (by omega) col

/-- Every line draws some pixels. -/
theorem exists_draws_strokeLine (hfb : fb.Valid) (hs : s.Inside fb) (x0 y0 x1 y1 : ℤ)
    (col : UInt32) :
  ∃ P, Draws fb s col P (strokeLine fb s x0 y0 x1 y1 col)
  := by
  have hstroke : strokeLine fb s x0 y0 x1 y1 col
      = strokeLine fb s (short x0) (short y0) (short x1) (short y1) col := by
    funext m
    have hshort : ∀ v, short (short v) = short v :=
      fun v => short_eq (short_bounds v).1 (short_bounds v).2
    unfold strokeLine
    rw [hshort, hshort, hshort, hshort]
  rw [hstroke]
  by_cases hy : short y0 = short y1
  · rw [← hy]
    exact ⟨_, draws_strokeLine_horizontal hfb hs (short_bounds x0) (short_bounds y0) (short_bounds x1)
      col⟩
  · obtain ⟨pts, -, hdraws⟩ := draws_strokeLine fb s (short_bounds x0) (short_bounds y0)
      (short_bounds x1) (short_bounds y1) hy col
    exact ⟨_, hdraws⟩

/-- A line between two places is a run of pixels without its right end if it is horizontal, and a
digital line otherwise; what the scissors let through of it is drawn, and nothing else is written. -/
theorem strokeLine_exact (hfb : fb.Valid) (hs : s.Inside fb) {x0 y0 x1 y1 : ℤ}
    (hx0 : -2 ^ 15 ≤ x0 ∧ x0 < 2 ^ 15) (hy0 : -2 ^ 15 ≤ y0 ∧ y0 < 2 ^ 15)
    (hx1 : -2 ^ 15 ≤ x1 ∧ x1 < 2 ^ 15) (hy1 : -2 ^ 15 ≤ y1 ∧ y1 < 2 ^ 15) (col : UInt32) :
  if y0 = y1 then
    Draws fb s col (fun X Y => Y = y0 ∧ min x0 x1 ≤ X ∧ X < max x0 x1)
      (strokeLine fb s x0 y0 x1 y1 col)
  else
    ∃ pts, IsDigitalLine x0 y0 x1 y1 pts
      ∧ Draws fb s col (fun X Y => (X, Y) ∈ pts) (strokeLine fb s x0 y0 x1 y1 col)
  := by
  split
  case isTrue heq =>
    subst heq
    exact draws_strokeLine_horizontal hfb hs hx0 hy0 hx1 col
  case isFalse hne => exact draws_strokeLine fb s hx0 hy0 hx1 hy1 hne col

theorem strokeLine_exact_vga :
  ∃ pts, IsDigitalLine (-7) 3 900 500 pts
    ∧ Draws ⟨640, 480, 2560⟩ (scissor ⟨640, 480, 2560⟩ 10 10 100 100) 255 (fun X Y => (X, Y) ∈ pts)
      (strokeLine ⟨640, 480, 2560⟩ (scissor ⟨640, 480, 2560⟩ 10 10 100 100) (-7) 3 900 500 255)
  := by
  have hs : (scissor ⟨640, 480, 2560⟩ 10 10 100 100).Inside ⟨640, 480, 2560⟩ :=
    scissor_inside valid_vga 10 10 (by norm_num)
  have hne : ¬ (3 : ℤ) = 500 := by norm_num
  have hexact := @strokeLine_exact _ _ valid_vga hs (-7) 3 900 500 (by norm_num) (by norm_num)
    (by norm_num) (by norm_num) 255
  rwa [if_neg hne] at hexact

end LnxCad.Render
