import LnxCad.Lib.Exchange
import LnxCad.Render.Lines

/-!
# Filled polygons

Row by row, the places where the edges of a polygon cross the row are collected and sorted, and the
pixels between the first and the second are filled, those between the third and the fourth, and so
on.  A closed outline crosses a row an even number of times, so the places come in pairs, and a pixel
is filled exactly if the number of crossings to its left is odd.

Where an edge crosses a row is computed in floating point; nothing depends on the outcome.
-/

namespace LnxCad.Render

variable {fb : Image} {s : Scissors}

/-! ### The function -/

/-- `struct nk_vec2i`. -/
structure Point where
  x : ℤ
  y : ℤ
deriving DecidableEq

/-- The column where an edge crosses a row. -/
abbrev Crossing := Point → Point → ℤ → ℤ

/-- An edge, from its end to its start, crosses a row. -/
def Crosses (pi pj : Point) (pixelY : ℤ) : Prop :=
  (pi.y < pixelY ∧ pj.y ≥ pixelY) ∨ (pj.y < pixelY ∧ pi.y ≥ pixelY)

instance Crosses.decidable (pi pj : Point) (pixelY : ℤ) : Decidable (Crosses pi pj pixelY) :=
  inferInstanceAs (Decidable (_ ∨ _))

/-- The nodes of a row, over the points behind a point. -/
def nodesFrom (cross : Crossing) (pixelY : ℤ) : Point → List Point → List ℤ
  | _, [] => []
  | pj, pi :: pnts =>
      if Crosses pi pj pixelY then cross pi pj pixelY :: nodesFrom cross pixelY pi pnts
      else nodesFrom cross pixelY pi pnts

/-- The nodes of a row; the edge behind the last point leads to the first one. -/
def nodes (cross : Crossing) (pixelY : ℤ) (pnts : List Point) : List ℤ :=
  match pnts.getLast? with
  | none => []
  | some pj => nodesFrom cross pixelY pj pnts

/-- Pixels of a row. -/
def fillSpan (fb : Image) (s : Scissors) (x0 x1 y : ℤ) (col : UInt32) (m : Pixels) : Pixels :=
  (List.range (x1 - x0).toNat).foldl (fun m (i : ℕ) => ctxSetpixel fb s (x0 + i) y col m) m

/-- The pixels between pairs of nodes. -/
def fillPairs (fb : Image) (s : Scissors) (left right y : ℤ) (col : UInt32) :
    List ℤ → Pixels → Pixels
  | n0 :: n1 :: nodeX, m =>
      if n0 ≥ right then m
      else
        let m :=
          if n1 > left then
            let n0 := if n0 < left then left else n0
            let n1 := if n1 > right then right else n1
            fillSpan fb s n0 n1 y col m
          else m
        fillPairs fb s left right y col nodeX m
  | _, m => m

/-- The first column of a polygon. -/
def left (pnts : List Point) : ℤ := pnts.foldl (fun l p => if l > p.x then p.x else l) 10000

/-- The first row. -/
def top (pnts : List Point) : ℤ := pnts.foldl (fun t p => if t > p.y then p.y else t) 10000

/-- The end of the columns. -/
def right (pnts : List Point) : ℤ := pnts.foldl (fun r p => if r < p.x then p.x else r) 0 + 1

/-- The end of the rows. -/
def bottom (pnts : List Point) : ℤ := pnts.foldl (fun b p => if b < p.y then p.y else b) 0 + 1

/-- `nk_rawfb_fill_polygon`. -/
def fillPolygon (fb : Image) (s : Scissors) (cross : Crossing) (pnts : List Point) (col : UInt32)
    (m : Pixels) : Pixels :=
  if pnts = [] then m
  else
    let pnts := pnts.take 64
    (List.range (bottom pnts - top pnts).toNat).foldl (fun m (i : ℕ) =>
      fillPairs fb s (left pnts) (right pnts) (top pnts + i) col
        (Exchange.sort (nodes cross (top pnts + i) pnts)) m) m

/-! ### Nodes -/

/-- Along some points, an odd number of edges crosses a row exactly if it separates the ends. -/
theorem odd_nodesFrom (cross : Crossing) (pixelY : ℤ) (pj : Point) (pnts : List Point) {last : Point}
    (hlast : (pj :: pnts).getLast? = some last) :
  Odd (nodesFrom cross pixelY pj pnts).length ↔ ¬ (pj.y < pixelY ↔ last.y < pixelY)
  := by
  induction pnts generalizing pj with
  | nil =>
      obtain rfl : pj = last := by simpa using hlast
      simp [nodesFrom]
  | cons pi pnts ih =>
      have hrest := ih pi (by simpa [List.getLast?_cons_cons] using hlast)
      rw [nodesFrom]
      split
      case isTrue hcross =>
        rw [List.length_cons, Nat.odd_add_one, hrest]
        unfold Crosses at hcross
        have hsides : (pi.y < pixelY) ↔ ¬ pj.y < pixelY := by omega
        tauto
      case isFalse hcross =>
        rw [hrest]
        unfold Crosses at hcross
        have hsides : (pi.y < pixelY) ↔ pj.y < pixelY := by omega
        tauto

/-- A closed outline crosses a row an even number of times. -/
theorem even_nodes (cross : Crossing) (pixelY : ℤ) (pnts : List Point) :
  Even (nodes cross pixelY pnts).length
  := by
  unfold nodes
  cases hlast : pnts.getLast? with
  | none => simp
  | some pj =>
      dsimp only
      cases pnts with
      | nil => cases hlast
      | cons p pnts =>
          rw [← Nat.not_odd_iff_even, odd_nodesFrom cross pixelY pj (p :: pnts)
            (by rw [List.getLast?_cons_cons, hlast])]
          simp

/-- No edge crosses a row that no point is above. -/
theorem nodesFrom_eq_nil {cross : Crossing} {pixelY : ℤ} {pj : Point} {pnts : List Point}
    (h : (∀ p ∈ pj :: pnts, p.y < pixelY) ∨ ∀ p ∈ pj :: pnts, pixelY ≤ p.y) :
  nodesFrom cross pixelY pj pnts = []
  := by
  induction pnts generalizing pj with
  | nil => rfl
  | cons pi pnts ih =>
      rw [nodesFrom, if_neg]
      · apply ih
        obtain h | h := h
        · exact Or.inl (fun p hp => h p (by simp only [List.mem_cons] at hp ⊢; tauto))
        · exact Or.inr (fun p hp => h p (by simp only [List.mem_cons] at hp ⊢; tauto))
      · unfold Crosses
        obtain h | h := h
        · have hi := h pi (by simp)
          have hj := h pj (by simp)
          omega
        · have hi := h pi (by simp)
          have hj := h pj (by simp)
          omega

/-! ### Columns and rows -/

theorem foldl_lower {f : Point → ℤ} (pnts : List Point) (init : ℤ) :
  pnts.foldl (fun l p => if l > f p then f p else l) init ≤ init
    ∧ ∀ p ∈ pnts, pnts.foldl (fun l p => if l > f p then f p else l) init ≤ f p
  := by
  induction pnts generalizing init with
  | nil => simp
  | cons p pnts ih =>
      obtain ⟨hinit, hall⟩ := ih (if init > f p then f p else init)
      have hmin : (if init > f p then f p else init) ≤ init
          ∧ (if init > f p then f p else init) ≤ f p := by
        split <;> omega
      rw [List.foldl_cons]
      constructor
      · exact le_trans hinit hmin.1
      · intro p' hp'
        obtain rfl | hp' := List.mem_cons.mp hp'
        · exact le_trans hinit hmin.2
        · exact hall p' hp'

theorem foldl_upper {f : Point → ℤ} (pnts : List Point) (init : ℤ) :
  init ≤ pnts.foldl (fun r p => if r < f p then f p else r) init
    ∧ ∀ p ∈ pnts, f p ≤ pnts.foldl (fun r p => if r < f p then f p else r) init
  := by
  induction pnts generalizing init with
  | nil => simp
  | cons p pnts ih =>
      obtain ⟨hinit, hall⟩ := ih (if init < f p then f p else init)
      have hmax : init ≤ (if init < f p then f p else init)
          ∧ f p ≤ (if init < f p then f p else init) := by
        split <;> omega
      rw [List.foldl_cons]
      constructor
      · exact le_trans hmax.1 hinit
      · intro p' hp'
        obtain rfl | hp' := List.mem_cons.mp hp'
        · exact le_trans hmax.2 hinit
        · exact hall p' hp'

/-- What all coordinates and the first value satisfy, the outcome of a search satisfies. -/
theorem foldl_choice {f : Point → ℤ} {c : ℤ → ℤ → Prop} [∀ a b, Decidable (c a b)] {P : ℤ → Prop}
    {pnts : List Point} {init : ℤ} (hinit : P init) (hall : ∀ p ∈ pnts, P (f p)) :
  P (pnts.foldl (fun l p => if c l (f p) then f p else l) init)
  := by
  induction pnts generalizing init with
  | nil => exact hinit
  | cons p pnts ih =>
      rw [List.foldl_cons]
      apply ih
      · split
        · exact hall p (by simp)
        · exact hinit
      · intro p' hp'
        exact hall p' (by simp [hp'])

/-- The points of a polygon have coordinates that are shorts. -/
def ShortPoints (pnts : List Point) : Prop :=
  ∀ p ∈ pnts, (-2 ^ 15 ≤ p.x ∧ p.x < 2 ^ 15) ∧ -2 ^ 15 ≤ p.y ∧ p.y < 2 ^ 15

/-- A pixel in the columns of a polygon, to the right of an odd number of crossings. -/
def OddInside (cross : Crossing) (pnts : List Point) (X Y : ℤ) : Prop :=
  left pnts ≤ X ∧ X < right pnts ∧ Odd ((nodes cross Y pnts).countP (· ≤ X))

/-- A row with a crossing is one of the rows of the polygon. -/
theorem row_of_nodes {cross : Crossing} {pnts : List Point} {Y : ℤ} (h : nodes cross Y pnts ≠ []) :
  top pnts ≤ Y ∧ Y < bottom pnts
  := by
  by_contra hout
  apply h
  unfold nodes
  cases hlast : pnts.getLast? with
  | none => rfl
  | some pj =>
      have hmem : pj ∈ pnts := List.mem_of_getLast? hlast
      dsimp only
      apply nodesFrom_eq_nil
      rw [not_and_or, not_le, not_lt] at hout
      obtain habove | hbelow := hout
      · right
        intro p hp
        have hp' : p ∈ pnts := by
          obtain rfl | hp := List.mem_cons.mp hp
          · exact hmem
          · exact hp
        have hle := (foldl_lower (f := Point.y) pnts 10000).2 p hp'
        unfold top at habove
        omega
      · left
        intro p hp
        have hp' : p ∈ pnts := by
          obtain rfl | hp := List.mem_cons.mp hp
          · exact hmem
          · exact hp
        have hle := (foldl_upper (f := Point.y) pnts 0).2 p hp'
        unfold bottom at hbelow
        omega

/-! ### Filling -/

theorem draws_fillSpan (fb : Image) (s : Scissors) {x0 x1 y : ℤ} (hx0 : -2 ^ 15 ≤ x0)
    (hx1 : x1 ≤ 2 ^ 15) (hy : -2 ^ 15 ≤ y ∧ y < 2 ^ 15) (col : UInt32) :
  Draws fb s col (fun X Y => Y = y ∧ x0 ≤ X ∧ X < x1) (fillSpan fb s x0 x1 y col)
  := by
  have hdraws : Draws fb s col
      (fun X Y => ∃ i ∈ List.range (x1 - x0).toNat, X = short (x0 + i) ∧ Y = short y)
      (fillSpan fb s x0 x1 y col) :=
    Draws.foldl (fun i _ => draws_ctxSetpixel fb s (x0 + i) y col)
  apply hdraws.congr
  intro X Y _
  rw [short_eq hy.1 hy.2]
  constructor
  · rintro ⟨i, hi, hX, rfl⟩
    rw [List.mem_range] at hi
    rw [short_eq (by omega) (by omega)] at hX
    omega
  · rintro ⟨rfl, hlo, hhi⟩
    refine ⟨(X - x0).toNat, List.mem_range.mpr (by omega), ?_, rfl⟩
    rw [short_eq (by omega) (by omega)]
    omega

/-- Of nodes that are all to the right of a pixel, none counts. -/
theorem countP_le_eq_zero {nodeX : List ℤ} {n X : ℤ} (hn : ∀ k ∈ nodeX, n ≤ k) (h : X < n) :
  nodeX.countP (· ≤ X) = 0
  := by
  rw [List.countP_eq_zero]
  intro k hk
  have hle := hn k hk
  simp only [decide_eq_true_eq]
  omega

theorem fillPairs_cons (fb : Image) (s : Scissors) (l r y : ℤ) (col : UInt32) (n0 n1 : ℤ)
    (nodeX : List ℤ) :
  fillPairs fb s l r y col (n0 :: n1 :: nodeX)
    = fun m =>
      if n0 ≥ r then m
      else fillPairs fb s l r y col nodeX
        (if n1 > l then
          fillSpan fb s (if n0 < l then l else n0) (if n1 > r then r else n1) y col m
        else m)
  := rfl

/-- Sorted nodes, an even number of them, fill the pixels to the right of an odd number. -/
theorem draws_fillPairs (fb : Image) (s : Scissors) {l r y : ℤ} (hl : -2 ^ 15 ≤ l) (hr : r ≤ 2 ^ 15)
    (hy : -2 ^ 15 ≤ y ∧ y < 2 ^ 15) (col : UInt32) {nodeX : List ℤ}
    (hsorted : nodeX.Pairwise (· ≤ ·)) (heven : Even nodeX.length) :
  Draws fb s col (fun X Y => Y = y ∧ l ≤ X ∧ X < r ∧ Odd (nodeX.countP (· ≤ X)))
    (fillPairs fb s l r y col nodeX)
  := by
  induction nodeX using List.twoStepInduction with
  | nil =>
      apply Draws.nothing
      simp
  | singleton n =>
      simp at heven
  | cons_cons n0 n1 nodeX ih _ =>
      obtain ⟨hn0, hrest⟩ := List.pairwise_cons.mp hsorted
      obtain ⟨hn1, hnodes⟩ := List.pairwise_cons.mp hrest
      have h01 := hn0 n1 (by simp)
      have heven' : Even nodeX.length := by
        rw [List.length_cons, List.length_cons, Nat.even_add_one, Nat.even_add_one, not_not] at heven
        exact heven
      -- the crossings to the left of a pixel, by where it is
      have hodd : ∀ X, Odd ((n0 :: n1 :: nodeX).countP (· ≤ X))
          ↔ (n0 ≤ X ∧ X < n1) ∨ Odd (nodeX.countP (· ≤ X)) := by
        intro X
        rw [List.countP_cons, List.countP_cons]
        by_cases h0 : n0 ≤ X
        · by_cases h1 : n1 ≤ X
          · have hnot : ¬ X < n1 := not_lt.mpr h1
            simp only [h0, h1, hnot, decide_true, if_true, and_false, false_or]
            rw [Nat.odd_add_one, Nat.odd_add_one, not_not]
          · have hzero : nodeX.countP (· ≤ X) = 0 := countP_le_eq_zero hn1 (by omega)
            simp [hzero, h0, h1, not_le.mp h1]
        · have h1 : ¬ n1 ≤ X := by omega
          have hzero : nodeX.countP (· ≤ X) = 0 := countP_le_eq_zero hn1 (by omega)
          simp [hzero, h0, h1]
      have hsome := ih hnodes heven'
      rw [fillPairs_cons]
      by_cases hbreak : n0 ≥ r
      · simp only [if_pos hbreak]
        apply Draws.nothing
        rintro X Y - ⟨-, -, hX, hXodd⟩
        rw [countP_le_eq_zero (n := n0) (X := X)] at hXodd
        · simp at hXodd
        · intro k hk
          obtain rfl | hk := List.mem_cons.mp hk
          · exact le_refl _
          · exact hn0 k hk
        · omega
      · simp only [if_neg hbreak]
        by_cases hleft : n1 > l
        · simp only [if_pos hleft]
          have hspan : Draws fb s col (fun X Y => Y = y ∧ (if n0 < l then l else n0) ≤ X
              ∧ X < if n1 > r then r else n1)
              (fillSpan fb s (if n0 < l then l else n0) (if n1 > r then r else n1) y col) := by
            apply draws_fillSpan fb s _ _ hy
            · split <;> omega
            · split <;> omega
          apply (hspan.comp hsome).congr
          intro X Y _
          rw [hodd X]
          constructor
          · rintro (⟨rfl, hlo, hhi⟩ | ⟨rfl, hl', hr', h⟩)
            · split at hlo <;> split at hhi <;> refine ⟨rfl, ?_, ?_, Or.inl ⟨?_, ?_⟩⟩ <;> omega
            · exact ⟨rfl, hl', hr', Or.inr h⟩
          · rintro ⟨rfl, hl', hr', ⟨h0, h1⟩ | h⟩
            · left
              refine ⟨rfl, ?_, ?_⟩
              · split <;> omega
              · split <;> omega
            · exact Or.inr ⟨rfl, hl', hr', h⟩
        · simp only [if_neg hleft]
          apply hsome.congr
          intro X Y _
          rw [hodd X]
          constructor
          · rintro ⟨rfl, hl', hr', h⟩
            exact ⟨rfl, hl', hr', Or.inr h⟩
          · rintro ⟨rfl, hl', hr', ⟨h0, h1⟩ | h⟩
            · omega
            · exact ⟨rfl, hl', hr', h⟩

/-- A polygon is filled by the even-odd rule. -/
theorem draws_fillPolygon (fb : Image) (s : Scissors) (cross : Crossing) {pnts : List Point}
    (hpnts : ShortPoints pnts) (hlen : pnts.length ≤ 64) (col : UInt32) :
  Draws fb s col (OddInside cross pnts) (fillPolygon fb s cross pnts col)
  := by
  have htake : pnts.take 64 = pnts := List.take_of_length_le hlen
  have hfill : fillPolygon fb s cross pnts col
      = fun m => if pnts = [] then m
        else (List.range (bottom pnts - top pnts).toNat).foldl (fun m (i : ℕ) =>
          fillPairs fb s (left pnts) (right pnts) (top pnts + i) col
            (Exchange.sort (nodes cross (top pnts + i) pnts)) m) m := by
    funext m
    rw [fillPolygon, htake]
  rw [hfill]
  by_cases hnil : pnts = []
  · simp only [if_pos hnil]
    apply Draws.nothing
    rintro X Y - ⟨-, -, hodd⟩
    rw [hnil] at hodd
    simp [nodes] at hodd
  · simp only [if_neg hnil]
    have hleft : -2 ^ 15 ≤ left pnts :=
      foldl_choice (f := Point.x) (c := (· > ·)) (P := (-2 ^ 15 ≤ ·)) (by norm_num)
        (fun p hp => (hpnts p hp).1.1)
    have hright : right pnts ≤ 2 ^ 15 := by
      have hlt : right pnts - 1 < 2 ^ 15 := by
        rw [right, add_sub_cancel_right]
        exact foldl_choice (f := Point.x) (c := (· < ·)) (P := (· < 2 ^ 15)) (by norm_num)
          (fun p hp => (hpnts p hp).1.2)
      omega
    have htop : -2 ^ 15 ≤ top pnts :=
      foldl_choice (f := Point.y) (c := (· > ·)) (P := (-2 ^ 15 ≤ ·)) (by norm_num)
        (fun p hp => (hpnts p hp).2.1)
    have hbottom : bottom pnts ≤ 2 ^ 15 := by
      have hlt : bottom pnts - 1 < 2 ^ 15 := by
        rw [bottom, add_sub_cancel_right]
        exact foldl_choice (f := Point.y) (c := (· < ·)) (P := (· < 2 ^ 15)) (by norm_num)
          (fun p hp => (hpnts p hp).2.2)
      omega
    have hrows : Draws fb s col
        (fun X Y => ∃ i ∈ List.range (bottom pnts - top pnts).toNat,
          Y = top pnts + i ∧ left pnts ≤ X ∧ X < right pnts
            ∧ Odd ((Exchange.sort (nodes cross (top pnts + i) pnts)).countP (· ≤ X)))
        (fun m => (List.range (bottom pnts - top pnts).toNat).foldl (fun m (i : ℕ) =>
          fillPairs fb s (left pnts) (right pnts) (top pnts + i) col
            (Exchange.sort (nodes cross (top pnts + i) pnts)) m) m) := by
      apply Draws.foldl
      intro i hi
      rw [List.mem_range] at hi
      apply draws_fillPairs fb s hleft hright (by omega) col (Exchange.sort_sorted _)
      rw [(Exchange.sort_perm _).length_eq]
      exact even_nodes cross _ pnts
    apply hrows.congr
    intro X Y _
    unfold OddInside
    constructor
    · rintro ⟨i, -, rfl, hl, hr, hodd⟩
      rw [(Exchange.sort_perm _).countP_eq] at hodd
      exact ⟨hl, hr, hodd⟩
    · rintro ⟨hl, hr, hodd⟩
      have hne : nodes cross Y pnts ≠ [] := by
        intro hnone
        rw [hnone] at hodd
        simp at hodd
      obtain ⟨hlo, hhi⟩ := row_of_nodes hne
      have hrow : top pnts + ((Y - top pnts).toNat : ℤ) = Y := by omega
      refine ⟨(Y - top pnts).toNat, List.mem_range.mpr (by omega), hrow.symm, hl, hr, ?_⟩
      rw [hrow, (Exchange.sort_perm _).countP_eq]
      exact hodd

/-- The crossing without errors of rounding. -/
def exactCrossing : Crossing := fun pi pj pixelY =>
  (pi.x * (pj.y - pi.y) + (pixelY - pi.y) * (pj.x - pi.x)).tdiv (pj.y - pi.y)

theorem draws_fillPolygon_diamond :
  Draws ⟨640, 480, 2560⟩ (scissor ⟨640, 480, 2560⟩ 0 0 640 480) 255
    (OddInside exactCrossing [⟨10, 0⟩, ⟨20, 10⟩, ⟨10, 20⟩, ⟨0, 10⟩])
    (fillPolygon ⟨640, 480, 2560⟩ (scissor ⟨640, 480, 2560⟩ 0 0 640 480) exactCrossing
      [⟨10, 0⟩, ⟨20, 10⟩, ⟨10, 20⟩, ⟨0, 10⟩] 255)
  := by
  apply draws_fillPolygon
  · intro p hp
    simp only [List.mem_cons, List.not_mem_nil, or_false] at hp
    obtain rfl | rfl | rfl | rfl := hp
    all_goals norm_num
  · decide

end LnxCad.Render
