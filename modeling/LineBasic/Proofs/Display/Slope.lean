import LineBasic.Display.Shape.Line

/-!
# Lines reach their end

A pen goes one step along the longer extent of a line every time, and along the shorter
one when the balance asks for it. The balance is the difference of what is left of both
extents, each weighed by the other, and stays within a band that is a little wider than
the longer extent. So when the longer extent has been walked, nothing can be left of the
shorter one: the pen is at the last point then, and not before.
-/

namespace LineBasic.Shape

/-- The balance of a pen that has `n` steps to go along the major extent and `k` along the
minor one. -/
structure Balanced (major minor balance n k : Int) : Prop where
  pos : 0 < major
  nonneg : 0 ≤ minor
  le : minor ≤ major
  value : balance = n * minor - k * major + major - minor
  low : -minor < 2 * balance
  high : 2 * balance < 3 * major - 2 * minor

namespace Balanced

variable {major minor balance n k : Int}

/-- At the start nothing of either extent has been walked. -/
theorem start (pos : 0 < major) (nonneg : 0 ≤ minor) (le : minor ≤ major) :
    Balanced major minor (major - minor) major minor where
  pos := pos
  nonneg := nonneg
  le := le
  value := by rw [Int.mul_comm]; omega
  low := by omega
  high := by omega

/-- A balance that is not below half the major extent only loses the minor one. -/
theorem straight (h : Balanced major minor balance n k) (keep : major ≤ 2 * balance) :
    Balanced major minor (balance - minor) (n - 1) k := by
  obtain ⟨pos, nonneg, le, value, low, high⟩ := h
  refine ⟨pos, nonneg, le, ?_, by omega, by omega⟩
  rw [Int.sub_mul]
  omega

/-- Below half the major extent, the balance also gains it. -/
theorem diagonal (h : Balanced major minor balance n k) (turn : 2 * balance < major) :
    Balanced major minor (balance - minor + major) (n - 1) (k - 1) := by
  obtain ⟨pos, nonneg, le, value, low, high⟩ := h
  refine ⟨pos, nonneg, le, ?_, by omega, by omega⟩
  rw [Int.sub_mul, Int.sub_mul]
  omega

/-- Nothing is left of the minor extent once the major one is walked. -/
theorem minor_left (h : Balanced major minor balance 0 k) : k = 0 := by
  obtain ⟨pos, nonneg, le, value, low, high⟩ := h
  rcases Int.lt_trichotomy k 0 with left | rfl | left
  · have := Int.mul_le_mul_of_nonneg_right (show k ≤ -1 by omega) (Int.le_of_lt pos)
    omega
  · rfl
  · have := Int.mul_le_mul_of_nonneg_right (show 1 ≤ k by omega) (Int.le_of_lt pos)
    omega

end Balanced

/-- A slope goes forward or back along each axis. -/
structure Slope.Unit (s : Slope) : Prop where
  sx : s.sx = 1 ∨ s.sx = -1
  sy : s.sy = 1 ∨ s.sy = -1

theorem Slope.unit_between (a b : Point) : (Slope.between a b).Unit where
  sx := by
    simp only [between]
    split <;> simp
  sy := by
    simp only [between]
    split <;> simp

/-- A slope along which a line goes on. -/
structure Slope.Leading (s : Slope) : Prop extends s.Unit where
  dx_nonneg : 0 ≤ s.dx
  dy_nonneg : 0 ≤ s.dy
  pos : 0 < s.dx ∨ 0 < s.dy

theorem Slope.leading_between {a b : Point} (apart : a ≠ b) : (between a b).Leading where
  toUnit := unit_between a b
  dx_nonneg := Int.natCast_nonneg _
  dy_nonneg := Int.natCast_nonneg _
  pos := by
    obtain ⟨ax, ay⟩ := a
    obtain ⟨bx, byy⟩ := b
    simp only [ne_eq, Point.mk.injEq] at apart
    simp only [between]
    omega

theorem Slope.x_between (a b : Point) : b.x = a.x + (between a b).sx * (between a b).dx := by
  simp only [between]
  split <;> omega

theorem Slope.y_between (a b : Point) : b.y = a.y + (between a b).sy * (between a b).dy := by
  simp only [between]
  split <;> omega

/-- A pen that will be at the last point in `n` steps. -/
inductive Pen.Leads (s : Slope) (last : Point) (p : Pen) (n : Nat) : Prop where
  | alongX (k : Int) (hx : last.x = p.point.x + s.sx * n) (hy : last.y = p.point.y + s.sy * k)
      (balanced : Balanced s.dx s.dy p.balance n k)
  | alongY (k : Int) (hx : last.x = p.point.x + s.sx * k) (hy : last.y = p.point.y + s.sy * n)
      (balanced : Balanced s.dy s.dx (-p.balance) n k)

namespace Pen.Leads

variable {s : Slope} {last : Point} {p : Pen} {n : Nat}

theorem start {a b : Point} (h : a ≠ b) :
    (Pen.start a (Slope.between a b)).Leads (Slope.between a b) b (Slope.between a b).steps := by
  have extentX := Slope.x_between a b
  have extentY := Slope.y_between a b
  obtain ⟨-, dx, dy, walk⟩ := Slope.leading_between h
  generalize Slope.between a b = s at *
  by_cases flat : s.dy ≤ s.dx
  · have steps : (s.steps : Int) = s.dx := by
      rw [Slope.steps]
      omega
    exact .alongX s.dy (by rwa [steps]) extentY
      (by rw [steps]; exact .start (by omega) dy flat)
  · have steps : (s.steps : Int) = s.dy := by
      rw [Slope.steps]
      omega
    have swapped : -(s.dx - s.dy) = s.dy - s.dx := by omega
    exact .alongY s.dx extentX (by rwa [steps])
      (by rw [steps, Pen.start, swapped]; exact .start (by omega) dx (by omega))

/-- One step brings the end one step nearer. -/
theorem next (h : p.Leads s last (n + 1)) : (p.next s).Leads s last n := by
  have fewer : ((n + 1 : Nat) : Int) - 1 = n := by omega
  cases h with
  | alongX k hx hy balanced =>
    have moves : p.movesX s := balanced.low
    have ahead : last.x = p.point.x + s.sx + s.sx * n := by
      rw [hx, Int.natCast_add, Int.mul_add]
      omega
    by_cases turn : p.movesY s
    · have aside : last.y = p.point.y + s.sy + s.sy * (k - 1) := by
        rw [hy, Int.mul_sub]
        omega
      have balanced := balanced.diagonal turn
      rw [fewer] at balanced
      exact .alongX (k - 1) (by simpa [Pen.next, moves] using ahead)
        (by simpa [Pen.next, turn] using aside) (by simpa [Pen.next, moves, turn] using balanced)
    · have balanced := balanced.straight (Int.not_lt.mp turn)
      rw [fewer] at balanced
      exact .alongX k (by simpa [Pen.next, moves] using ahead) (by simpa [Pen.next, turn] using hy)
        (by simpa [Pen.next, moves, turn] using balanced)
  | alongY k hx hy balanced =>
    have moves : p.movesY s := by
      have low := balanced.low
      rw [Pen.movesY]
      omega
    have ahead : last.y = p.point.y + s.sy + s.sy * n := by
      rw [hy, Int.natCast_add, Int.mul_add]
      omega
    by_cases turn : p.movesX s
    · have aside : last.x = p.point.x + s.sx + s.sx * (k - 1) := by
        rw [hx, Int.mul_sub]
        omega
      have balanced := balanced.diagonal (by rw [Pen.movesX] at turn; omega)
      have change : -p.balance - s.dx + s.dy = -(p.balance - s.dy + s.dx) := by omega
      rw [fewer, change] at balanced
      exact .alongY (k - 1) (by simpa [Pen.next, turn] using aside)
        (by simpa [Pen.next, moves] using ahead) (by simpa [Pen.next, moves, turn] using balanced)
    · have balanced := balanced.straight (by rw [Pen.movesX] at turn; omega)
      have change : -p.balance - s.dx = -(p.balance + s.dx) := by omega
      rw [fewer, change] at balanced
      exact .alongY k (by simpa [Pen.next, turn] using hx) (by simpa [Pen.next, moves] using ahead)
        (by simpa [Pen.next, moves, turn] using balanced)

/-- A pen without a step to go is at the last point. -/
theorem point_eq (h : p.Leads s last 0) : p.point = last := by
  obtain ⟨⟨x, y⟩, balance⟩ := p
  obtain ⟨lastX, lastY⟩ := last
  cases h with
  | alongX k hx hy balanced | alongY k hx hy balanced =>
    simp only [balanced.minor_left, Int.natCast_zero, Int.mul_zero, Int.add_zero] at hx hy
    simp only [hx, hy]

theorem point_ne (unit : s.Unit) (h : p.Leads s last (n + 1)) : p.point ≠ last := by
  rintro rfl
  cases h with
  | alongX k hx hy balanced => rcases unit.sx with h | h <;> rw [h] at hx <;> omega
  | alongY k hx hy balanced => rcases unit.sy with h | h <;> rw [h] at hy <;> omega

end Pen.Leads

end LineBasic.Shape
