import LineBasic.Display.Grid

/-!
# Regions

Filling a region recolors a point and goes on to its four neighbours wherever
they still have the old color. Each recoloring leaves one point less to recolor,
so filling ends however the points are revisited.
-/

namespace LineBasic

/-- The points next to a point, above, below, to the left and to the right. -/
def Point.neighbors (p : Point) : List Point :=
  [⟨p.x, p.y - 1⟩, ⟨p.x, p.y + 1⟩, ⟨p.x - 1, p.y⟩, ⟨p.x + 1, p.y⟩]

namespace Grid

variable {α : Type} [DecidableEq α]

/-- Recolors whatever is connected to the pending points, from one color to
another. -/
def recolor (old new : α) (h : new ≠ old) (g : Grid α) : List Point → Grid α
  | [] => g
  | p :: pending =>
    if _hp : g.get? p = some old then (g.set p new).recolor old new h (p.neighbors ++ pending)
    else g.recolor old new h pending
termination_by pending => 5 * g.cells.countP (· == old) + pending.length
decreasing_by
  · have := countP_set (v := new) (· == old) _hp (by simp) (by simpa using h)
    simp only [Point.neighbors, List.length_append, List.length_cons, List.length_nil]
    omega
  · simp only [List.length_cons]
    omega

/-- Fills the region of a point with a color. Off the grid, and where the color is
there already, nothing happens. -/
def floodFill (g : Grid α) (p : Point) (new : α) : Grid α :=
  match g.get? p with
  | none => g
  | some old => if h : new = old then g else g.recolor old new h [p]

@[simp] theorem width_recolor (old new : α) (h : new ≠ old) (g : Grid α) (pending : List Point) :
    (g.recolor old new h pending).width = g.width := by
  fun_induction recolor old new h g pending <;> simp_all

@[simp] theorem height_recolor (old new : α) (h : new ≠ old) (g : Grid α) (pending : List Point) :
    (g.recolor old new h pending).height = g.height := by
  fun_induction recolor old new h g pending <;> simp_all

end Grid

end LineBasic
