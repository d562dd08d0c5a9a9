import LineBasic.Display.Span

/-!
# Lines

A line goes from its first point to its second in as many steps as the longer of
its two extents has. Every step moves along the longer extent; the balance, which
weighs how far each extent has got, decides whether it also moves along the
shorter one. A line that leaves the surface is not followed any further.
-/

namespace LineBasic.Shape

/-- How a line runs: its extents and the direction of a step along each. -/
structure Slope where
  dx : Int
  dy : Int
  sx : Int
  sy : Int
  deriving DecidableEq, Repr

namespace Slope

def between (a b : Point) : Slope :=
  { dx := (b.x - a.x).natAbs
    dy := (b.y - a.y).natAbs
    sx := if a.x < b.x then 1 else -1
    sy := if a.y < b.y then 1 else -1 }

/-- How many steps lead to the end. -/
def steps (s : Slope) : Nat := (max s.dx s.dy).toNat

end Slope

/-- A point reached on a line, with the balance of both extents. -/
structure Pen where
  point : Point
  balance : Int
  deriving DecidableEq, Repr

namespace Pen

def start (a : Point) (s : Slope) : Pen := ⟨a, s.dx - s.dy⟩

def movesX (p : Pen) (s : Slope) : Prop := -s.dy < 2 * p.balance

def movesY (p : Pen) (s : Slope) : Prop := 2 * p.balance < s.dx

instance (p : Pen) (s : Slope) : Decidable (p.movesX s) := inferInstanceAs (Decidable (_ < _))

instance (p : Pen) (s : Slope) : Decidable (p.movesY s) := inferInstanceAs (Decidable (_ < _))

def next (p : Pen) (s : Slope) : Pen :=
  { point :=
      { x := if p.movesX s then p.point.x + s.sx else p.point.x
        y := if p.movesY s then p.point.y + s.sy else p.point.y }
    balance :=
      p.balance - (if p.movesX s then s.dy else 0) + (if p.movesY s then s.dx else 0) }

/-- The points that the pen passes in up to `n` steps while it stays inside. -/
def trace (inside : Point → Bool) (s : Slope) (p : Pen) : Nat → List Point
  | 0 => if inside p.point then [p.point] else []
  | n + 1 => if inside p.point then p.point :: (p.next s).trace inside s n else []

end Pen

/-- The points of a line up to the first that is not inside. -/
def line (inside : Point → Bool) (a b : Point) : List Point :=
  let slope := Slope.between a b
  (Pen.start a slope).trace inside slope slope.steps

theorem inside_of_mem_trace {inside : Point → Bool} {s : Slope} {p : Pen} {n : Nat} {q : Point}
    (h : q ∈ p.trace inside s n) : inside q = true := by
  induction n generalizing p with
  | zero =>
    rw [Pen.trace] at h
    split at h
    · simp_all
    · cases h
  | succ n ih =>
    rw [Pen.trace] at h
    split at h
    · rcases List.mem_cons.mp h with rfl | h
      · assumption
      · exact ih h
    · cases h

/-- No point of a line is outside. -/
theorem inside_of_mem_line {inside : Point → Bool} {a b q : Point} (h : q ∈ line inside a b) :
    inside q = true :=
  inside_of_mem_trace h

end LineBasic.Shape
