import Mathlib.Tactic

/-!
# Ellipses of pixels

A quarter of an ellipse is drawn in two halves, each along the axis on which it moves faster.  A
running error tells when to step along the other axis as well.  It is the sum of the residuals of
the two candidates for the next pixel, so that of every column the pixel is chosen that comes closest
to the equation of the ellipse.
-/

namespace Ellipse

/-- The pixel reached, seen from the centre: the coordinate that grows, the one that falls, and the
error. -/
structure Pen where
  x : ℤ
  y : ℤ
  sigma : ℤ
deriving DecidableEq

/-- The next pixel. -/
def next (a b : ℤ) (p : Pen) : Pen :=
  let p :=
    if p.sigma ≥ 0 then { p with sigma := p.sigma + 4 * a * (1 - p.y), y := p.y - 1 }
    else p
  { p with sigma := p.sigma + b * (4 * p.x + 6), x := p.x + 1 }

theorem next_x (a b : ℤ) (p : Pen) :
  (next a b p).x = p.x + 1
  := by
  unfold next
  split <;> rfl

theorem next_y_le (a b : ℤ) (p : Pen) :
  (next a b p).y ≤ p.y
  := by
  unfold next
  split
  · change p.y - 1 ≤ p.y
    omega
  · exact le_refl p.y

/-- The first pixel, for an ellipse of a height. -/
def start (a b h : ℤ) : Pen := ⟨0, h, 2 * b + a * (1 - 2 * h)⟩

/-- The pixels, as long as the coordinate that grows moves faster. -/
def walk (a b : ℤ) : ℕ → Pen → List (ℤ × ℤ)
  | 0, _ => []
  | n + 1, p => if b * p.x ≤ a * p.y then (p.x, p.y) :: walk a b n (next a b p) else []

/-- How far outside of an ellipse a pixel is. -/
def residual (a b h x y : ℤ) : ℤ := b * x ^ 2 + a * y ^ 2 - a * h ^ 2

/-- Towards the inside of an ellipse the residual of a pixel, summed over neighbours, is negative, and
towards the outside it is not. -/
def Nearest (a b h x y : ℤ) : Prop :=
  residual a b h x y + residual a b h x (y - 1) < 0
    ∧ 0 ≤ residual a b h x y + residual a b h x (y + 1)

/-- The pixels of the part of an ellipse where the coordinate that grows moves faster. -/
def OnHalf (a b h x y : ℤ) : Prop := 0 ≤ x ∧ b * x ≤ a * y ∧ Nearest a b h x y

/-- What is known of a pixel when the loop tests it. -/
structure Reached (a b h : ℤ) (p : Pen) : Prop where
  x_nonneg : 0 ≤ p.x
  y_ge : -1 ≤ p.y
  y_le : p.y ≤ h
  x_le : b * p.x ≤ a * h + b
  sigma_eq : p.sigma = residual a b h (p.x + 1) p.y + residual a b h (p.x + 1) (p.y - 1)
  outside : 0 ≤ residual a b h p.x p.y + residual a b h p.x (p.y + 1)
  inside : b * p.x ≤ a * p.y → residual a b h p.x p.y + residual a b h p.x (p.y - 1) < 0

section Reached

variable {a b h : ℤ} {p : Pen}

theorem reached_start (ha : 0 < a) (hb : 0 ≤ b) (hh : 1 ≤ h) :
  Reached a b h (start a b h)
  := by
  constructor
  · exact le_refl 0
  · change -1 ≤ h
    omega
  · exact le_refl h
  · have hsum : 0 ≤ a * h + b := by positivity
    change b * 0 ≤ a * h + b
    omega
  · unfold start residual
    dsimp only
    ring
  · have houtside : residual a b h 0 h + residual a b h 0 (h + 1) = a * (2 * h + 1) := by
      unfold residual
      ring
    change 0 ≤ residual a b h 0 h + residual a b h 0 (h + 1)
    rw [houtside]
    positivity
  · have hinside : residual a b h 0 h + residual a b h 0 (h - 1) = -(a * (2 * h - 1)) := by
      unfold residual
      ring
    have hpos : 0 < a * (2 * h - 1) := mul_pos ha (by omega)
    rintro -
    change residual a b h 0 h + residual a b h 0 (h - 1) < 0
    omega

/-- While the loop goes on, the coordinate that falls is not negative. -/
theorem Reached.y_nonneg (hp : Reached a b h p) (ha : 0 < a) (hb : 0 ≤ b)
    (hloop : b * p.x ≤ a * p.y) :
  0 ≤ p.y
  := by
  have hx := hp.x_nonneg
  by_contra hneg
  have hbx : 0 ≤ b * p.x := by positivity
  have hay : a * p.y < 0 := mul_neg_of_pos_of_neg ha (by omega)
  omega

/-- The invariant of the loop: the error decides between the two candidates by their residuals, and
where the candidate below is taken twice in a row, the half is over. -/
theorem Reached.next (hp : Reached a b h p) (ha : 0 < a) (hb : 0 ≤ b) (hloop : b * p.x ≤ a * p.y) :
  Reached a b h (next a b p)
  := by
  have hx := hp.x_nonneg
  have hy := hp.y_nonneg ha hb hloop
  have hyle := hp.y_le
  have hsigma := hp.sigma_eq
  have hbx : 0 ≤ b * (2 * p.x + 1) := by positivity
  have hah : a * p.y ≤ a * h := mul_le_mul_of_nonneg_left hyle ha.le
  have hxle : b * (p.x + 1) ≤ a * h + b := by
    rw [mul_add, mul_one]
    omega
  unfold Ellipse.next
  by_cases hge : p.sigma ≥ 0
  · simp only [if_pos hge]
    constructor
    · change 0 ≤ p.x + 1
      omega
    · change -1 ≤ p.y - 1
      omega
    · change p.y - 1 ≤ h
      omega
    · exact hxle
    · dsimp only
      rw [hsigma]
      unfold residual
      ring
    · have hcandidates : residual a b h (p.x + 1) (p.y - 1) + residual a b h (p.x + 1) (p.y - 1 + 1)
          = p.sigma := by
        rw [hsigma, sub_add_cancel]
        ring
      dsimp only
      rw [hcandidates]
      exact hge
    · have hdiff : residual a b h (p.x + 1) (p.y - 1) + residual a b h (p.x + 1) (p.y - 1 - 1)
          = residual a b h p.x p.y + residual a b h p.x (p.y - 1)
            + (4 * (b * p.x - a * p.y) + 2 * b + 4 * a) := by
        unfold residual
        ring
      dsimp only
      intro hnext
      have hinside := hp.inside hloop
      have hslope : b * (p.x + 1) - a * (p.y - 1) = (b * p.x - a * p.y) + b + a := by ring
      rw [hdiff]
      omega
  · simp only [if_neg hge]
    constructor
    · change 0 ≤ p.x + 1
      omega
    · exact hp.y_ge
    · exact hyle
    · exact hxle
    · dsimp only
      rw [hsigma]
      unfold residual
      ring
    · have hdiff : residual a b h (p.x + 1) p.y + residual a b h (p.x + 1) (p.y + 1)
          = residual a b h p.x p.y + residual a b h p.x (p.y + 1) + 2 * (b * (2 * p.x + 1)) := by
        unfold residual
        ring
      have houtside := hp.outside
      dsimp only
      rw [hdiff]
      omega
    · rintro -
      dsimp only
      rw [← hsigma]
      omega

/-- Bounds of the error, by the height. -/
theorem Reached.sigma_bounds (hp : Reached a b h p) (ha : 0 < a) (hb : 0 ≤ b)
    (hloop : b * p.x ≤ a * p.y) :
  -(4 * (a * h)) ≤ p.sigma ∧ p.sigma ≤ 4 * (a * h) + 2 * b
  := by
  have hx := hp.x_nonneg
  have hbx : 0 ≤ b * (2 * p.x + 1) := by positivity
  have hah : a * p.y ≤ a * h := mul_le_mul_of_nonneg_left hp.y_le ha.le
  have hupper : p.sigma = residual a b h p.x p.y + residual a b h p.x (p.y - 1)
      + (4 * (b * p.x) + 2 * b) := by
    rw [hp.sigma_eq]
    unfold residual
    ring
  have hlower : p.sigma = residual a b h p.x p.y + residual a b h p.x (p.y + 1)
      + (2 * (b * (2 * p.x + 1)) - 4 * (a * p.y)) := by
    rw [hp.sigma_eq]
    unfold residual
    ring
  have hinside := hp.inside hloop
  have houtside := hp.outside
  omega

/-- A pixel inside of an ellipse is not above one outside that lies no further on. -/
theorem le_of_inside_of_outside (ha : 0 < a) (hb : 0 ≤ b) {x y X Y : ℤ} (hx : 0 ≤ x) (hX : x ≤ X)
    (hy : -1 ≤ y) (houtside : 0 ≤ residual a b h x y + residual a b h x (y + 1))
    (hinside : residual a b h X Y + residual a b h X (Y - 1) < 0) :
  Y ≤ y
  := by
  by_contra hlt
  have hmono : 0 ≤ 2 * (b * ((X - x) * (X + x))) := by
    have h1 : 0 ≤ X - x := by omega
    have h2 : 0 ≤ X + x := by omega
    positivity
  have habove : 0 ≤ 2 * (a * ((Y - y - 1) * (Y + y))) := by
    have h1 : 0 ≤ Y - y - 1 := by omega
    obtain h0 | hpos : Y - y - 1 = 0 ∨ 0 ≤ Y + y := by omega
    · rw [h0]
      simp
    · positivity
  have hdiff : residual a b h X Y + residual a b h X (Y - 1)
      = residual a b h x y + residual a b h x (y + 1)
        + 2 * (b * ((X - x) * (X + x))) + 2 * (a * ((Y - y - 1) * (Y + y))) := by
    unfold residual
    ring
  omega

/-- Where the loop stops, the half is over. -/
theorem Reached.over (hp : Reached a b h p) (ha : 0 < a) (hb : 0 ≤ b) (hloop : ¬ b * p.x ≤ a * p.y)
    {X Y : ℤ} (hX : p.x ≤ X) :
  ¬ OnHalf a b h X Y
  := by
  rintro ⟨hX0, hslope, hinside, -⟩
  have hx := hp.x_nonneg
  have hle := le_of_inside_of_outside ha hb hx hX hp.y_ge hp.outside hinside
  have hay : a * Y ≤ a * p.y := mul_le_mul_of_nonneg_left hle ha.le
  have hbx : b * p.x ≤ b * X := mul_le_mul_of_nonneg_left hX hb
  omega

/-- The turns that are left. -/
theorem lt_of_next (ha : 0 < a) (hb : 0 < b) {n : ℕ} (hn : a * p.y - b * p.x < (n + 1 : ℕ)) :
  a * (next a b p).y - b * (next a b p).x < n
  := by
  have hy : a * (next a b p).y ≤ a * p.y := mul_le_mul_of_nonneg_left (next_y_le a b p) ha.le
  rw [next_x, mul_add, mul_one]
  push_cast at hn
  omega

/-- The walk goes through the pixels of the half, and through no others. -/
theorem mem_walk (ha : 0 < a) (hb : 0 < b) {n : ℕ} (hp : Reached a b h p)
    (hn : a * p.y - b * p.x < n) (X Y : ℤ) :
  (X, Y) ∈ walk a b n p ↔ p.x ≤ X ∧ OnHalf a b h X Y
  := by
  induction n generalizing p with
  | zero =>
      simp only [walk, List.not_mem_nil, false_iff]
      rintro ⟨hX, hon⟩
      rw [Nat.cast_zero] at hn
      exact hp.over ha hb.le (by omega) hX hon
  | succ n ih =>
      rw [walk]
      split
      case isTrue hloop =>
        have hy := hp.y_nonneg ha hb.le hloop
        rw [List.mem_cons, ih (hp.next ha hb.le hloop) (lt_of_next ha hb hn), next_x,
          Prod.mk.injEq]
        constructor
        · rintro (⟨rfl, rfl⟩ | ⟨hX, hon⟩)
          · exact ⟨le_refl _, hp.x_nonneg, hloop, hp.inside hloop, hp.outside⟩
          · exact ⟨by omega, hon⟩
        · rintro ⟨hX, hon⟩
          obtain heq | hlt := hX.eq_or_lt
          · subst heq
            left
            obtain ⟨hx, hslope, hinside, houtside⟩ := hon
            have hY : 0 ≤ Y := by
              by_contra hneg
              have hbX : 0 ≤ b * p.x := by positivity
              have haY : a * Y < 0 := mul_neg_of_pos_of_neg ha (by omega)
              omega
            have hle := le_of_inside_of_outside ha hb.le hx (le_refl _) hp.y_ge hp.outside hinside
            have hge := le_of_inside_of_outside ha hb.le hx (le_refl _) (by omega) houtside
              (hp.inside hloop)
            exact ⟨rfl, by omega⟩
          · exact Or.inr ⟨by omega, hon⟩
      case isFalse hloop =>
        simp only [List.not_mem_nil, false_iff]
        rintro ⟨hX, hon⟩
        exact hp.over ha hb.le hloop hX hon

end Reached

/-! ### The pixels of an ellipse -/

/-- A pixel comes closest, of all pixels of its column, to the equation `b * x ^ 2 + a * y ^ 2 = c` of
an ellipse; of two pixels that come as close it is the inner one. -/
structure Closest (a b c x y : ℤ) : Prop where
  nonneg : 0 ≤ y
  inside : ∀ y', 0 ≤ y' → y' < y → |b * x ^ 2 + a * y ^ 2 - c| < |b * x ^ 2 + a * y' ^ 2 - c|
  outside : ∀ y', y < y' → |b * x ^ 2 + a * y ^ 2 - c| ≤ |b * x ^ 2 + a * y' ^ 2 - c|

/-- The pixels of the part of an ellipse `b * x ^ 2 + a * y ^ 2 = c` on which `x` moves faster. -/
def OnFlat (a b c x y : ℤ) : Prop := 0 ≤ x ∧ b * x ≤ a * y ∧ Closest a b c x y

/-- The pixels of a quarter of the ellipse with the half-axes `A` and `B`: of every column where it is
flat, and of every row where it is steep, the closest one. -/
def OnEllipse (A B x y : ℤ) : Prop :=
  OnFlat (A ^ 2) (B ^ 2) (A ^ 2 * B ^ 2) x y ∨ OnFlat (B ^ 2) (A ^ 2) (A ^ 2 * B ^ 2) y x

theorem abs_lt_abs_iff {u v : ℤ} (h : u < v) :
  |v| < |u| ↔ u + v < 0
  := by
  obtain hu | hu := abs_cases u
  · obtain hv | hv := abs_cases v
    · omega
    · omega
  · obtain hv | hv := abs_cases v
    · omega
    · omega

theorem residual_lt (ha : 0 < a) {x y y' : ℤ} (hy : 0 ≤ y) (hlt : y < y') :
  residual a b h x y < residual a b h x y'
  := by
  have hsq : y ^ 2 < y' ^ 2 := pow_lt_pow_left₀ hlt hy (by norm_num)
  have hmul := mul_lt_mul_of_pos_left hsq ha
  unfold residual
  omega

/-- The loop goes through the pixels that are closest. -/
theorem onHalf_iff (ha : 0 < a) (hb : 0 < b) (hh : 1 ≤ h) (x y : ℤ) :
  OnHalf a b h x y ↔ OnFlat a b (a * h ^ 2) x y
  := by
  have hresidual : ∀ y, b * x ^ 2 + a * y ^ 2 - a * h ^ 2 = residual a b h x y := fun y => rfl
  constructor
  · rintro ⟨hx, hslope, hinside, houtside⟩
    have hy : 0 ≤ y := by
      by_contra hneg
      have hbx : 0 ≤ b * x := by positivity
      have hay : a * y < 0 := mul_neg_of_pos_of_neg ha (by omega)
      omega
    refine ⟨hx, hslope, hy, fun y' hy' hlt => ?_, fun y' hlt => ?_⟩
    · rw [hresidual, hresidual, abs_lt_abs_iff (residual_lt ha hy' hlt)]
      obtain heq | hless : y' = y - 1 ∨ y' < y - 1 := by omega
      · rw [heq]
        omega
      · have hmono := residual_lt (b := b) (h := h) (x := x) ha hy' hless
        omega
    · rw [hresidual, hresidual, ← not_lt, abs_lt_abs_iff (residual_lt ha hy hlt)]
      obtain heq | hmore : y' = y + 1 ∨ y + 1 < y' := by omega
      · rw [heq]
        omega
      · have hmono := residual_lt (b := b) (h := h) (x := x) ha (by omega) hmore
        omega
  · rintro ⟨hx, hslope, hy, hinside, houtside⟩
    simp only [hresidual] at hinside houtside
    have hpos : 1 ≤ y := by
      by_contra hzero
      obtain rfl : y = 0 := by omega
      -- a column that the loop meets at the axis is the first one, whose closest pixel is the top
      obtain rfl : x = 0 := by
        by_contra hne
        have hbx : 0 < b * x := mul_pos hb (by omega)
        omega
      have htop := houtside h (by omega)
      have hlow : residual a b h 0 0 < residual a b h 0 h := residual_lt ha (le_refl 0) (by omega)
      have hzero : residual a b h 0 h = 0 := by
        unfold residual
        ring
      rw [hzero, abs_zero, abs_nonpos_iff] at htop
      omega
    have hless := hinside (y - 1) (by omega) (by omega)
    rw [abs_lt_abs_iff (residual_lt ha (by omega) (by omega))] at hless
    have hmore := houtside (y + 1) (by omega)
    rw [← not_lt, abs_lt_abs_iff (residual_lt ha hy (by omega))] at hmore
    exact ⟨hx, hslope, by omega, by omega⟩

end Ellipse
