import Mathlib.Tactic

/-!
# Lines of pixels

A line is drawn one pixel at a time along its longer axis.  A running fraction tells when to step
along the shorter one as well: it is kept between two bounds, so that the pixels stay within half a
pixel of the line and the last one is its end.
-/

namespace Bresenham

/-- The pixel reached, by its place on the longer and on the shorter axis, and the fraction. -/
structure Pen where
  major : ℤ
  minor : ℤ
  fraction : ℤ
deriving DecidableEq

/-- The steps along the axes, and twice the distances to go. -/
structure Slope where
  stepMajor : ℤ
  stepMinor : ℤ
  major2 : ℤ
  minor2 : ℤ

/-- The next pixel. -/
def next (d : Slope) (p : Pen) : Pen :=
  let p :=
    if p.fraction ≥ 0 then
      { p with minor := p.minor + d.stepMinor, fraction := p.fraction - d.major2 }
    else p
  { p with major := p.major + d.stepMajor, fraction := p.fraction + d.minor2 }

/-- The pixels behind the first one. -/
def path (d : Slope) : ℕ → Pen → List Pen
  | 0, _ => []
  | n + 1, p => next d p :: path d n (next d p)

/-- The pixel after `k` steps, of which `q` went along the shorter axis as well. -/
def Reaches (d : Slope) (p : Pen) (k q : ℤ) (p' : Pen) : Prop :=
  p'.major = p.major + k * d.stepMajor ∧ p'.minor = p.minor + q * d.stepMinor
    ∧ p'.fraction = p.fraction + k * d.minor2 - q * d.major2

theorem Reaches.refl (d : Slope) (p : Pen) :
  Reaches d p 0 0 p
  := by
  unfold Reaches
  omega

theorem Reaches.next {d : Slope} {p p' : Pen} {k q : ℤ} (h : Reaches d p k q p') :
  Reaches d p (k + 1) (q + if p'.fraction ≥ 0 then 1 else 0) (next d p')
  := by
  obtain ⟨hmajor, hminor, hfraction⟩ := h
  unfold Reaches Bresenham.next
  by_cases hge : p'.fraction ≥ 0
  · simp only [if_pos hge]
    rw [hmajor, hminor, hfraction]
    refine ⟨?_, ?_, ?_⟩
    all_goals ring
  · simp only [if_neg hge]
    rw [hmajor, hminor, hfraction]
    refine ⟨?_, ?_, ?_⟩
    all_goals ring

/-- A line that goes `a` steps along the longer axis and `b` along the shorter one. -/
structure IsLine (d : Slope) (a b : ℤ) (p : Pen) : Prop where
  pos : 0 < a
  nonneg : 0 ≤ b
  le : b ≤ a
  major2 : d.major2 = 2 * a
  minor2 : d.minor2 = 2 * b
  fraction : p.fraction = 2 * b - a

/-- Each pixel is within half a pixel of the line. -/
def Near (a b k q : ℤ) : Prop := -a ≤ 2 * (b * k - a * q) ∧ 2 * (b * k - a * q) < a

theorem Near.refl {a : ℤ} (h : 0 < a) (b : ℤ) :
  Near a b 0 0
  := by
  unfold Near
  rw [mul_zero, mul_zero]
  omega

/-- On the way, the steps along the shorter axis are no more than those of the whole line. -/
theorem Near.bounds {a b k q : ℤ} (ha : 0 < a) (hb : 0 ≤ b) (hk : 0 ≤ k) (hka : k ≤ a)
    (h : Near a b k q) :
  0 ≤ q ∧ q ≤ b
  := by
  obtain ⟨hlo, hhi⟩ := h
  have hbk : 0 ≤ b * k := mul_nonneg hb hk
  have hba : b * k ≤ a * b := by
    rw [mul_comm a b]
    exact mul_le_mul_of_nonneg_left hka hb
  constructor
  · by_contra hneg
    have hle : a * q ≤ a * (-1) := mul_le_mul_of_nonneg_left (by omega) ha.le
    omega
  · by_contra hmore
    have hle : a * (b + 1) ≤ a * q := mul_le_mul_of_nonneg_left (by omega) ha.le
    have hexp : a * (b + 1) = a * b + a := by ring
    omega

theorem Near.next {d : Slope} {a b : ℤ} {p p' : Pen} {k q : ℤ} (hline : IsLine d a b p)
    (hreach : Reaches d p k q p') (hnear : Near a b k q) :
  Near a b (k + 1) (q + if p'.fraction ≥ 0 then 1 else 0)
  := by
  obtain ⟨hpos, hnonneg, hle, hmajor2, hminor2, hstart⟩ := hline
  obtain ⟨-, -, hfraction⟩ := hreach
  obtain ⟨hlo, hhi⟩ := hnear
  have hsum : p'.fraction = 2 * b - a + 2 * (b * k - a * q) := by
    rw [hfraction, hstart, hmajor2, hminor2]
    ring
  have hk : b * (k + 1) = b * k + b := by ring
  by_cases hge : p'.fraction ≥ 0
  · rw [if_pos hge]
    have hq : a * (q + 1) = a * q + a := by ring
    unfold Near
    rw [hk, hq]
    omega
  · rw [if_neg hge, add_zero]
    unfold Near
    rw [hk]
    omega

/-- The pixels behind one that is near the line are near it as well, one for each step. -/
theorem path_near {d : Slope} {a b : ℤ} {p : Pen} (hline : IsLine d a b p) {n i : ℕ} {p' r : Pen}
    {k q : ℤ} (hreach : Reaches d p k q p') (hnear : Near a b k q) (hi : (path d n p')[i]? = some r) :
  ∃ q', Near a b (k + i + 1) q' ∧ Reaches d p (k + i + 1) q' r
  := by
  induction n generalizing p' k q i with
  | zero => cases hi
  | succ n ih =>
      have hnext := hnear.next hline hreach
      cases i with
      | zero =>
          obtain rfl : next d p' = r := by simpa [path] using hi
          rw [Nat.cast_zero, add_zero]
          exact ⟨_, hnext, hreach.next⟩
      | succ i =>
          obtain ⟨q', hnear', hreach'⟩ := ih hreach.next hnext (by simpa [path] using hi)
          have hk : k + 1 + i + 1 = k + (i + 1 : ℕ) + 1 := by
            push_cast
            ring
          rw [hk] at hnear' hreach'
          exact ⟨q', hnear', hreach'⟩

theorem length_path (d : Slope) (n : ℕ) (p : Pen) :
  (path d n p).length = n
  := by
  induction n generalizing p with
  | zero => rfl
  | succ n ih => rw [path, List.length_cons, ih]

/-- After as many steps as the line is long, the number of steps along the shorter axis is known. -/
theorem Near.eq_end {a b q : ℤ} (hpos : 0 < a) (h : Near a b a q) :
  q = b
  := by
  obtain ⟨hlo, hhi⟩ := h
  have hsub : b * a - a * q = a * (b - q) := by ring
  rw [hsub] at hlo hhi
  by_contra hne
  obtain hlt | hgt := Int.lt_or_gt_of_ne hne
  · have hone : a * 1 ≤ a * (b - q) := by
      apply mul_le_mul_of_nonneg_left
      · omega
      · omega
    omega
  · have hone : a * (b - q) ≤ a * (-1) := by
      apply mul_le_mul_of_nonneg_left
      · omega
      · omega
    omega

end Bresenham
