import LineBasic.Proofs.Display.Canvas.Line
import LineBasic.Proofs.Display.Drawing

/-!
# The points of a line

A line passes the points that come nearest to the straight line between its ends, one for every
step along its longer extent; where two points are equally near it takes the one that is not as far
along the shorter extent. The pen finds them by its balance, without a division: after every step
the balance is what is left of the weights of both extents at the nearest point, and whether twice
the balance is below the longer extent decides whether the next point is further along the shorter
one.

Main statement: `Canvas.line_colors_nearest_points`.
-/

namespace LineBasic

namespace Shape

/-- The whole number nearest to `i * minor / major`, and the lesser one of two that are equally
near. It is 0 if `major` is. -/
def nearest (major minor : Int) (i : Nat) : Int :=
  ⌈((2 * i * minor - major : Int) : ℚ) / ((2 * major : Int) : ℚ)⌉

/-- The balance after `i` steps along the major extent. -/
def ahead (major minor : Int) (i : Nat) : Int :=
  (nearest major minor i + 1) * major - (i + 1) * minor

section

variable {major minor : Int} {i : Nat}

theorem nearest_eq_iff {k : Int} (pos : 0 < major) :
    nearest major minor i = k ↔
      (2 * k - 1) * major < 2 * i * minor ∧ 2 * i * minor ≤ (2 * k + 1) * major := by
  have pos' : (0 : ℚ) < ((2 * major : Int) : ℚ) := by
    exact_mod_cast Int.mul_pos (by decide) pos
  rw [nearest, Int.ceil_eq_iff, lt_div_iff₀ pos', div_le_iff₀ pos']
  norm_cast
  constructor
  · rintro ⟨low, high⟩
    constructor <;> linarith
  · rintro ⟨low, high⟩
    constructor <;> linarith

theorem nearest_bounds (pos : 0 < major) (minor : Int) (i : Nat) :
    (2 * nearest major minor i - 1) * major < 2 * i * minor ∧
      2 * i * minor ≤ (2 * nearest major minor i + 1) * major :=
  (nearest_eq_iff pos).mp rfl

@[simp] theorem nearest_of_none (minor : Int) (i : Nat) : nearest 0 minor i = 0 := by
  simp [nearest]

theorem nearest_start (h : 0 ≤ major) : nearest major minor 0 = 0 := by
  rcases Int.lt_or_eq_of_le h with pos | rfl
  · rw [nearest_eq_iff pos]
    constructor <;> simp <;> omega
  · exact nearest_of_none minor 0

/-- At the end of the major extent all of the minor one has been walked. -/
theorem nearest_last (nonneg : 0 ≤ minor) (le : minor ≤ major) :
    nearest major minor major.toNat = minor := by
  rcases Int.lt_or_eq_of_le (Int.le_trans nonneg le) with pos | rfl
  · rw [nearest_eq_iff pos, Int.toNat_of_nonneg (Int.le_of_lt pos)]
    constructor <;> linarith [Int.mul_comm minor major]
  · rw [nearest_of_none]
    exact Int.le_antisymm nonneg le

theorem nearest_nonneg (h : 0 ≤ major) (nonneg : 0 ≤ minor) : 0 ≤ nearest major minor i := by
  rcases Int.lt_or_eq_of_le h with pos | rfl
  · obtain ⟨-, high⟩ := nearest_bounds pos minor i
    have walked : 0 ≤ 2 * (i : Int) * minor := Int.mul_nonneg (by omega) nonneg
    have positive : 0 < 2 * nearest major minor i + 2 :=
      Int.pos_of_mul_pos_left (b := major) (by linarith) pos
    omega
  · rw [nearest_of_none]

theorem nearest_le (h : 0 ≤ major) (nonneg : 0 ≤ minor) (hi : (i : Int) ≤ major) :
    nearest major minor i ≤ minor := by
  rcases Int.lt_or_eq_of_le h with pos | rfl
  · obtain ⟨low, -⟩ := nearest_bounds pos minor i
    have walked : (i : Int) * minor ≤ major * minor := Int.mul_le_mul_of_nonneg_right hi nonneg
    have less : 2 * nearest major minor i - 1 < 2 * minor :=
      Int.lt_of_mul_lt_mul_right (a := major) (by linarith) h
    omega
  · rwa [nearest_of_none]

/-- The minor extent is walked on just if twice the balance is below the major one. -/
theorem nearest_succ (pos : 0 < major) (nonneg : 0 ≤ minor) (le : minor ≤ major) :
    nearest major minor (i + 1) =
      if 2 * ahead major minor i < major then nearest major minor i + 1
      else nearest major minor i := by
  obtain ⟨low, high⟩ := nearest_bounds pos minor i
  rw [nearest_eq_iff pos]
  push_cast
  split
  · next turn =>
    rw [ahead] at turn
    constructor <;> linarith
  · next keep =>
    rw [ahead] at keep
    constructor <;> linarith

theorem ahead_succ (pos : 0 < major) (nonneg : 0 ≤ minor) (le : minor ≤ major) :
    ahead major minor (i + 1) =
      ahead major minor i - minor + if 2 * ahead major minor i < major then major else 0 := by
  rw [ahead, nearest_succ pos nonneg le, ahead]
  push_cast
  split <;> linarith

/-- The balance never asks to stay where the pen is along the major extent. -/
theorem neg_lt_ahead (pos : 0 < major) (le : minor ≤ major) :
    -minor < 2 * ahead major minor i := by
  obtain ⟨low, high⟩ := nearest_bounds pos minor i
  rw [ahead]
  by_contra behind
  -- both extents are the same then, so the walks along them are too
  obtain rfl : minor = major := by linarith
  have least : 2 * nearest minor minor i + 2 ≤ 2 * i + 1 :=
    Int.le_of_mul_le_mul_right (a := minor) (by linarith) pos
  have greatest : 2 * (i : Int) ≤ 2 * nearest minor minor i + 1 :=
    Int.le_of_mul_le_mul_right (a := minor) (by linarith) pos
  omega

end

namespace Slope

/-- The point that a line comes to in `i` steps along its longer extent. -/
def pointAt (s : Slope) (a : Point) (i : Nat) : Point :=
  if s.dy ≤ s.dx then ⟨a.x + s.sx * i, a.y + s.sy * nearest s.dx s.dy i⟩
  else ⟨a.x + s.sx * nearest s.dy s.dx i, a.y + s.sy * i⟩

/-- The pen at this point. -/
def penAt (s : Slope) (a : Point) (i : Nat) : Pen :=
  { point := s.pointAt a i
    balance := if s.dy ≤ s.dx then ahead s.dx s.dy i else -ahead s.dy s.dx i }

variable {s : Slope} {a : Point} {i : Nat}

theorem start_eq_penAt (dx : 0 ≤ s.dx) (dy : 0 ≤ s.dy) : Pen.start a s = s.penAt a 0 := by
  simp only [Pen.start, penAt, pointAt, ahead]
  split <;> simp [nearest_start, dx, dy]

/-- The balance leads the pen from each of these points to the next one. -/
theorem next_penAt (h : s.Leading) (a : Point) (i : Nat) :
    (s.penAt a i).next s = s.penAt a (i + 1) := by
  obtain ⟨-, dx, dy, pos⟩ := h
  have further (start step : Int) (k : Int) : start + step * k + step = start + step * (k + 1) := by
    ring
  by_cases flat : s.dy ≤ s.dx
  · have moves := neg_lt_ahead (i := i) (show 0 < s.dx by omega) flat
    simp only [Pen.next, Pen.movesX, Pen.movesY, penAt, pointAt, if_pos flat, if_pos moves, further,
      nearest_succ (by omega) dy flat, ahead_succ (by omega) dy flat]
    split <;> simp only [Nat.cast_succ]
  · have steep : s.dx ≤ s.dy := by omega
    have moves : 2 * -ahead s.dy s.dx i < s.dx := by
      have := neg_lt_ahead (i := i) (show 0 < s.dy by omega) steep
      omega
    have turns : -s.dy < 2 * -ahead s.dy s.dx i ↔ 2 * ahead s.dy s.dx i < s.dy := by omega
    simp only [Pen.next, Pen.movesX, Pen.movesY, penAt, pointAt, if_neg flat, if_pos moves, turns,
      further, nearest_succ (by omega) dx steep, ahead_succ (by omega) dx steep]
    split <;> simp only [Nat.cast_succ, Pen.mk.injEq, true_and] <;> omega

end Slope

namespace Pen

/-- One step goes to the next column, the next row or both. -/
theorem next_near {s : Slope} (unit : s.Unit) (p : Pen) :
    ((p.next s).point.x - p.point.x).natAbs ≤ 1 ∧ ((p.next s).point.y - p.point.y).natAbs ≤ 1 := by
  have hx := unit.sx
  have hy := unit.sy
  simp only [next]
  constructor
  · split <;> omega
  · split <;> omega

end Pen

namespace Slope

variable {s : Slope} {a b : Point} {i n : Nat}

theorem pointAt_succ_near (h : s.Leading) (a : Point) (i : Nat) :
    ((s.pointAt a (i + 1)).x - (s.pointAt a i).x).natAbs ≤ 1 ∧
      ((s.pointAt a (i + 1)).y - (s.pointAt a i).y).natAbs ≤ 1 := by
  have near := Pen.next_near h.toUnit (s.penAt a i)
  rwa [next_penAt h] at near

/-- What has been walked along both extents after `i` steps. -/
theorem exists_pointAt_eq (dx : 0 ≤ s.dx) (dy : 0 ≤ s.dy) (a : Point) (h : i ≤ s.steps) :
    ∃ j k : Int, s.pointAt a i = ⟨a.x + s.sx * j, a.y + s.sy * k⟩ ∧
      0 ≤ j ∧ j ≤ s.dx ∧ 0 ≤ k ∧ k ≤ s.dy ∧ (i = s.steps → j = s.dx ∧ k = s.dy) := by
  rw [steps] at h ⊢
  by_cases flat : s.dy ≤ s.dx
  · refine ⟨i, nearest s.dx s.dy i, if_pos flat, by omega, by omega, nearest_nonneg dx dy,
      nearest_le dx dy (by omega), ?_⟩
    rintro rfl
    rw [Int.max_eq_left flat]
    exact ⟨Int.toNat_of_nonneg dx, nearest_last dy flat⟩
  · have steep : s.dx ≤ s.dy := by omega
    refine ⟨nearest s.dy s.dx i, i, if_neg flat, nearest_nonneg dy dx,
      nearest_le dy dx (by omega), by omega, by omega, ?_⟩
    rintro rfl
    rw [Int.max_eq_right steep]
    exact ⟨nearest_last dx steep, Int.toNat_of_nonneg dy⟩

theorem steps_between (a b : Point) :
    (between a b).steps = max (b.x - a.x).natAbs (b.y - a.y).natAbs := by
  simp only [steps, between]
  omega

theorem pointAt_zero (a b : Point) : (between a b).pointAt a 0 = a := by
  have started := start_eq_penAt (s := between a b) (a := a) (Int.natCast_nonneg _)
    (Int.natCast_nonneg _)
  exact (congrArg Pen.point started).symm

theorem pointAt_steps (a b : Point) : (between a b).pointAt a (between a b).steps = b := by
  obtain ⟨j, k, place, -, -, -, -, last⟩ := exists_pointAt_eq (s := between a b)
    (Int.natCast_nonneg _) (Int.natCast_nonneg _) a (Nat.le_refl _)
  obtain ⟨rfl, rfl⟩ := last rfl
  rw [place, ← x_between, ← y_between]

/-- A line does not leave a surface that holds both its ends. -/
theorem contains_pointAt {α : Type} {g : Grid α} (first : g.Contains a) (last : g.Contains b)
    (h : i ≤ (between a b).steps) : g.Contains ((between a b).pointAt a i) := by
  obtain ⟨j, k, place, hj, hj', hk, hk', -⟩ := exists_pointAt_eq (s := between a b)
    (Int.natCast_nonneg _) (Int.natCast_nonneg _) a h
  obtain ⟨unitX, unitY⟩ := unit_between a b
  have extentX := x_between a b
  have extentY := y_between a b
  rw [place]
  simp only [Grid.Contains] at first last ⊢
  rcases unitX with hx | hx <;> rcases unitY with hy | hy <;> rw [hx] at extentX ⊢ <;>
    rw [hy] at extentY ⊢ <;> omega

/-- A pen goes from point to point, up to the first that is not inside or to the end. -/
theorem exists_trace_eq (inside : Point → Bool) (h : 0 < n → s.Leading) (a : Point) (i : Nat) :
    ∃ j ≤ n + 1,
      (s.penAt a i).trace inside s n = (List.range j).map (fun k => s.pointAt a (i + k)) ∧
      (∀ k < j, inside (s.pointAt a (i + k)) = true) ∧
      (j ≤ n → inside (s.pointAt a (i + j)) = false) := by
  have here : (s.penAt a i).point = s.pointAt a i := rfl
  induction n generalizing i with
  | zero =>
      rw [Pen.trace, here]
      split
      · next within => exact ⟨1, by simp, by simp, by simpa using within, by simp⟩
      · next off => exact ⟨0, by simp, by simp, by simp, by simpa using off⟩
  | succ n ih =>
      rw [Pen.trace, here]
      split
      · next within =>
        obtain ⟨j, bound, passed, inner, outer⟩ := ih (fun _ => h (by simp)) (i + 1) rfl
        have shift (k : Nat) : i + 1 + k = i + (k + 1) := by omega
        simp only [shift] at passed inner outer
        refine ⟨j + 1, by omega, ?_, ?_, ?_⟩
        · rw [next_penAt (h (by simp)), passed, List.range_succ_eq_map, List.map_cons, List.map_map]
          rfl
        · intro k hk
          cases k with
          | zero => exact within
          | succ k => exact inner k (by omega)
        · intro hj
          exact outer (by omega)
      · next off => exact ⟨0, by simp, by simp, by simp, by simpa using off⟩

/-- The points of a line are those that it passes, up to the first that is not inside. -/
theorem exists_line_eq (inside : Point → Bool) (a b : Point) :
    ∃ j ≤ (between a b).steps + 1,
      line inside a b = (List.range j).map ((between a b).pointAt a) ∧
      (∀ k < j, inside ((between a b).pointAt a k) = true) ∧
      (j ≤ (between a b).steps → inside ((between a b).pointAt a j) = false) := by
  have leading (walk : 0 < (between a b).steps) : (between a b).Leading := by
    refine leading_between ?_
    rintro rfl
    simp [steps_between] at walk
  have traced := exists_trace_eq inside leading a 0
  simp only [Nat.zero_add] at traced
  rwa [← start_eq_penAt (Int.natCast_nonneg _) (Int.natCast_nonneg _)] at traced

end Slope

end Shape

namespace Canvas

/-- Drawing a line ends without an overflow. The line passes one point for every step along its
longer extent, from its first end to the last, each next to the one before; along the shorter extent
the point is the nearest to the straight line, and the one nearer to the first end of two that are
equally near. These points are colored up to the first that is off the surface, and no others. So a
line is drawn completely if both ends are on the surface, and not at all if the first one is off
it. -/
theorem line_colors_nearest_points (s : Screen)
    (fits : Countable s.surface.pixels.width s.surface.pixels.height) (x₁ y₁ x₂ y₂ : Int32)
    (color : Option Color) :
    let a := Screen.point x₁ y₁
    let b := Screen.point x₂ y₂
    let m := max (b.x - a.x).natAbs (b.y - a.y).natAbs
    let p := (Shape.Slope.between a b).pointAt a
    let g := s.surface.pixels
    let s' := s.apply (.line x₁ y₁ x₂ y₂ color)
    (ofScreen s).drawLine x₁ y₁ x₂ y₂ color = some (ofScreen s') ∧
    p 0 = a ∧ p m = b ∧
    (∀ i < m, ((p (i + 1)).x - (p i).x).natAbs ≤ 1 ∧ ((p (i + 1)).y - (p i).y).natAbs ≤ 1) ∧
    (∃ j ≤ m + 1, (∀ i < j, g.Contains (p i)) ∧ (j ≤ m → ¬ g.Contains (p j)) ∧
      (∀ i < j, s'.surface.pixels.get? (p i) = some (s.surface.colorOr color)) ∧
      ∀ q, (∀ i < j, q ≠ p i) → s'.surface.pixels.get? q = g.get? q) ∧
    (g.Contains a → g.Contains b →
      ∀ i ≤ m, s'.surface.pixels.get? (p i) = some (s.surface.colorOr color)) ∧
    (¬ g.Contains a → s' = s) := by
  intro a b m p g s'
  have steps : (Shape.Slope.between a b).steps = m := Shape.Slope.steps_between a b
  have first : p 0 = a := Shape.Slope.pointAt_zero a b
  obtain ⟨j, bound, passed, inner, outer⟩ :=
    Shape.Slope.exists_line_eq (fun q => decide (g.Contains q)) a b
  simp only [decide_eq_true_eq, decide_eq_false_iff_not, steps] at bound inner outer
  have drawn : s' = s.paint (s.surface.colorOr color) (((List.range j).map p).map .ofPoint) := by
    rw [← passed]
    rfl
  have covers (q : Point) : Span.Covers (((List.range j).map p).map .ofPoint) q ↔
      ∃ i < j, q = p i := by
    simp [Span.Covers]
  have colored : ∀ i < j, s'.surface.pixels.get? (p i) = some (s.surface.colorOr color) := by
    intro i hi
    rw [drawn]
    exact (Grid.get?_foldl_paint _ _ _ _).trans (if_pos ⟨(covers _).mpr ⟨i, hi, rfl⟩, inner i hi⟩)
  refine ⟨drawLine_eq fits x₁ y₁ x₂ y₂ color, first, ?_, ?_,
    ⟨j, bound, inner, outer, colored, ?_⟩, ?_, ?_⟩
  · rw [← steps]
    exact Shape.Slope.pointAt_steps a b
  · intro i hi
    refine Shape.Slope.pointAt_succ_near (Shape.Slope.leading_between fun same => ?_) a i
    simp [m, same] at hi
  · intro q apart
    rw [drawn]
    refine (Grid.get?_foldl_paint _ _ _ _).trans (if_neg fun hit => ?_)
    obtain ⟨i, hi, rfl⟩ := (covers q).mp hit.1
    exact apart i hi rfl
  · intro start last i hi
    refine colored i (Nat.lt_of_not_le fun short => ?_)
    exact outer (by omega) (Shape.Slope.contains_pointAt start last (by omega))
  · intro off
    have none : j = 0 := by
      by_contra some
      exact off (first ▸ inner 0 (by omega))
    rw [drawn, none]
    exact Screen.paint_eq_self _ _ _ (by simp)

/-- A line with ties between two points that leaves the surface at its upper edge. -/
theorem line_colors_nearest_points_leaving :
    let s := Screen.empty 2 1
    let s' := s.apply (.line 1 1 9 (-3) (some 2))
    let a := Screen.point 1 1
    let p := (Shape.Slope.between a (Screen.point 9 (-3))).pointAt a
    Countable 12 8 ∧
      (ofScreen s).drawLine 1 1 9 (-3) (some 2) = some (ofScreen s') ∧
      (p 0, p 1, p 2, p 3, p 4, p 8) = (⟨1, 1⟩, ⟨2, 1⟩, ⟨3, 0⟩, ⟨4, 0⟩, ⟨5, -1⟩, ⟨9, -3⟩) ∧
      s'.surface.pixels.get? ⟨2, 1⟩ = some 2 ∧ s'.surface.pixels.get? ⟨4, 0⟩ = some 2 ∧
      s'.surface.pixels.get? ⟨2, 0⟩ = some 15 ∧ s'.surface.pixels.get? ⟨5, 0⟩ = some 15 := by
  intro s s' a p
  have fits : Countable 12 8 := ⟨by decide, by decide⟩
  obtain ⟨ends, -, -, -, ⟨j, -, inner, outer, colored, kept⟩, -, -⟩ :=
    line_colors_nearest_points s fits 1 1 9 (-3) (some 2)
  have points : (p 0, p 1, p 2, p 3, p 4, p 8) =
      (⟨1, 1⟩, ⟨2, 1⟩, ⟨3, 0⟩, ⟨4, 0⟩, ⟨5, -1⟩, ⟨9, -3⟩) := by decide +kernel
  have inside : ∀ i < 4, s.surface.pixels.Contains (p i) := by decide +kernel
  have off : ¬ s.surface.pixels.Contains (p 4) := by decide +kernel
  obtain rfl : j = 4 := by
    have most : ¬ 4 < j := fun h => off (inner 4 h)
    have least : ¬ j < 4 := fun h => outer (Nat.le_trans (Nat.le_of_lt h) (by decide)) (inside j h)
    omega
  have second : p 1 = ⟨2, 1⟩ := by decide +kernel
  have fourth : p 3 = ⟨4, 0⟩ := by decide +kernel
  refine ⟨fits, ends, points, second ▸ colored 1 (by decide), fourth ▸ colored 3 (by decide),
    ?_, ?_⟩
  · exact (kept ⟨2, 0⟩ (by decide +kernel)).trans (by decide +kernel)
  · exact (kept ⟨5, 0⟩ (by decide +kernel)).trans (by decide +kernel)

end Canvas

end LineBasic
