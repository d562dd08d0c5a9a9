import LineBasic.Proofs.Display.Canvas.Paint
import LineBasic.Proofs.Display.Slope

/-!
# Lines on the canvas

A pen that leads to the last point of a line draws what the trace of the pen holds. The
loop tests for the last point and for the edge of the surface; the trace counts its steps.
They stop together, since a pen only comes to the last point when no step is left. Twice
the balance stays within three times the greatest extent, far from the limits of its word.
-/

namespace LineBasic.Canvas

open Word Shape

/-- Whether a point lies on a surface of this size. -/
def onSurface (width height : Nat) (p : Point) : Bool :=
  decide (0 ≤ p.x ∧ p.x < width ∧ 0 ≤ p.y ∧ p.y < height)

/-- The extents of a line between points of 32 bits, which go forward or back. -/
structure Counted (s : Slope) : Prop extends s.Unit where
  dx_nonneg : 0 ≤ s.dx
  dx_le : s.dx ≤ 4294967295
  dy_nonneg : 0 ≤ s.dy
  dy_le : s.dy ≤ 4294967295

variable {width height : Nat} {s : Slope} {last : Point} {p : Pen} {n : Nat}

/-- The balance stays in proportion to the extents. -/
theorem balance_bounds (counted : Counted s) (h : p.Leads s last n) :
    -12884901885 ≤ 2 * p.balance ∧ 2 * p.balance ≤ 12884901885 := by
  obtain ⟨-, dx, dx', dy, dy'⟩ := counted
  cases h with
  | alongX k hx hy balanced | alongY k hx hy balanced =>
    have low := balanced.low
    have high := balanced.high
    omega

theorem stepX_eq (counted : Counted s) {doubled : Int}
    (hx : 0 ≤ p.point.x) (hx' : p.point.x ≤ 2147483647)
    (low : -12884901885 ≤ 2 * p.balance) (high : 2 * p.balance ≤ 12884901885) :
    stepX s doubled p = some
      { point := ⟨if -s.dy < doubled then p.point.x + s.sx else p.point.x, p.point.y⟩
        balance := p.balance - if -s.dy < doubled then s.dy else 0 } := by
  obtain ⟨⟨hsx, -⟩, -, -, dy, dy'⟩ := counted
  rw [stepX, int64_bind (by omega) (by omega)]
  by_cases moves : -s.dy < doubled
  · rw [if_pos moves, if_pos moves, if_pos moves, int64_bind (by omega) (by omega),
      int64_bind (by omega) (by omega)]
    rfl
  · rw [if_neg moves, if_neg moves, if_neg moves, Int.sub_zero]
    rfl

theorem stepY_eq (counted : Counted s) {doubled : Int}
    (hy : 0 ≤ p.point.y) (hy' : p.point.y ≤ 2147483647)
    (low : -12884901885 ≤ p.balance) (high : p.balance ≤ 12884901885) :
    stepY s doubled p = some
      { point := ⟨p.point.x, if doubled < s.dx then p.point.y + s.sy else p.point.y⟩
        balance := p.balance + if doubled < s.dx then s.dx else 0 } := by
  obtain ⟨⟨-, hsy⟩, dx, dx', -, -⟩ := counted
  rw [stepY]
  by_cases moves : doubled < s.dx
  · rw [if_pos moves, if_pos moves, if_pos moves, int64_bind (by omega) (by omega),
      int64_bind (by omega) (by omega)]
    rfl
  · rw [if_neg moves, if_neg moves, if_neg moves, Int.add_zero]
    rfl

/-- Both steps of a pen on the surface are one step of the line. -/
theorem steps_eq (fits : Countable width height) (counted : Counted s)
    (inside : onSurface width height p.point = true) (h : p.Leads s last n) :
    (stepX s (2 * p.balance) p >>= stepY s (2 * p.balance)) = some (p.next s) := by
  obtain ⟨low, high⟩ := balance_bounds counted h
  have hw := fits.width_le
  have hh := fits.height_le
  have dy := counted.dy_nonneg
  have dy' := counted.dy_le
  simp only [onSurface, decide_eq_true_eq] at inside
  rw [Checked.bind_eq (stepX_eq counted (by omega) (by omega) low high)]
  refine (stepY_eq counted ?_ ?_ ?_ ?_).trans rfl <;> simp only <;> omega

theorem lineFrom_outside (fits : Countable width height) {color : Color}
    (outside : ¬ onSurface width height p.point = true) :
    Paints width height color [] (·.lineFrom color last s p) := by
  have hw := fits.width_le
  have hh := fits.height_le
  simp only [onSurface, decide_eq_true_eq] at outside
  rintro t rfl rfl
  dsimp only
  rw [lineFrom]
  dsimp only
  rw [int64_bind (by omega) (by omega), int64_bind (by omega) (by omega),
    if_pos (by omega)]
  exact Paints.nothing t rfl rfl

theorem lineFrom_inside (fits : Countable width height) {color : Color}
    (inside : onSurface width height p.point = true) {spans : List Span}
    (rest : Paints width height color spans fun c =>
      if p.point = last then return c else do
        let doubled ← int64 (2 * p.balance)
        let p ← stepX s doubled p
        let p ← stepY s doubled p
        c.lineFrom color last s p) :
    Paints width height color (.ofPoint p.point :: spans) (·.lineFrom color last s p) := by
  have hw := fits.width_le
  have hh := fits.height_le
  simp only [onSurface, decide_eq_true_eq] at inside
  rintro t rfl rfl
  dsimp only
  rw [lineFrom]
  dsimp only
  rw [int64_bind (by omega) (by omega), int64_bind (by omega) (by omega),
    if_neg (by omega), int32_bind (by omega) (by omega), int32_bind (by omega) (by omega)]
  exact ((Paints.set fits color (by omega) (by omega)).bind rest) t rfl rfl

/-- A pen at the last point draws it, if it is on the surface, and stops. -/
theorem lineFrom_last (fits : Countable width height) {color : Color} (h : p.point = last)
    (walked : n = 0) :
    Paints width height color ((p.trace (onSurface width height) s n).map .ofPoint)
      (·.lineFrom color last s p) := by
  rw [walked, Pen.trace]
  split
  · next inside =>
    refine lineFrom_inside fits inside ?_
    simp only [h, if_true]
    exact Paints.nothing
  · next outside => exact lineFrom_outside fits outside

/-- A line is followed to its last point or to where it leaves the surface. -/
theorem lineFrom_paints (fits : Countable width height) (counted : Counted s) {color : Color}
    (h : p.Leads s last n) :
    Paints width height color ((p.trace (onSurface width height) s n).map .ofPoint)
      (·.lineFrom color last s p) := by
  induction n generalizing p with
  | zero => exact lineFrom_last fits h.point_eq rfl
  | succ n ih =>
    rw [Pen.trace]
    split
    · next inside =>
      have bounds := balance_bounds counted h
      refine lineFrom_inside fits inside ?_
      intro t hw hh
      simp only [h.point_ne counted.toUnit, if_false]
      rw [int64_bind (by omega) (by omega), ← bind_assoc,
        Checked.bind_eq (steps_eq fits counted inside h)]
      exact ih h.next t hw hh
    · next outside => exact lineFrom_outside fits outside

theorem drawLine_eq {s : Screen}
    (fits : Countable s.surface.pixels.width s.surface.pixels.height) (x₁ y₁ x₂ y₂ : Int32)
    (color : Option Color) :
    (ofScreen s).drawLine x₁ y₁ x₂ y₂ color =
      some (ofScreen (s.apply (.line x₁ y₁ x₂ y₂ color))) := by
  have hx₁ := x₁.le_toInt
  have hx₁' := x₁.toInt_lt
  have hy₁ := y₁.le_toInt
  have hy₁' := y₁.toInt_lt
  have hx₂ := x₂.le_toInt
  have hx₂' := x₂.toInt_lt
  have hy₂ := y₂.le_toInt
  have hy₂' := y₂.toInt_lt
  have counted : Counted (Slope.between (Screen.point x₁ y₁) (Screen.point x₂ y₂)) :=
    { Slope.unit_between _ _ with
      dx_nonneg := Int.natCast_nonneg _
      dx_le := by simp only [Slope.between, Screen.point]; omega
      dy_nonneg := Int.natCast_nonneg _
      dy_le := by simp only [Slope.between, Screen.point]; omega }
  simp (disch := omega) only [drawLine, int64_bind]
  by_cases same : Screen.point x₁ y₁ = Screen.point x₂ y₂
  · have steps : (Slope.between (Screen.point x₁ y₁) (Screen.point x₂ y₂)).steps = 0 := by
      rw [same]
      simp [Slope.steps, Slope.between]
    exact lineFrom_last fits same steps s rfl rfl
  · exact lineFrom_paints fits counted (Pen.Leads.start same) s rfl rfl

end LineBasic.Canvas
