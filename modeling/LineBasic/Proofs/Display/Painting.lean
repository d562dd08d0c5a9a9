import LineBasic.Proofs.Display.Size

/-!
# Painting

A span of points is painted from left to right between the edges, and a span that lies off
the grid leaves no trace. Painting one list of spans and then another is painting both
lists, since no painting changes the size that decides what a span touches.
-/

namespace LineBasic

namespace Grid

variable {α : Type} (g : Grid α) (v : α)

theorem touches_ofPoint (p : Point) : g.touches (.ofPoint p) = decide (g.Contains p) := by
  rw [Bool.eq_iff_iff, touches_iff, decide_eq_true_iff]
  simp

theorem paint_eq_self {s : Span} (h : g.touches s = false) : g.paint v s = g := by
  rw [paint]
  split
  · next row =>
    have none : (g.clip s).2 = 0 := by simpa [touches, row] using h
    rw [none, setRun]
  · rfl

theorem paint_ofPoint (p : Point) : g.paint v (.ofPoint p) = g.set p v := by
  by_cases inside : g.Contains p
  · obtain ⟨left, right, above, below⟩ := inside
    have first : (g.clip (.ofPoint p)).1 = p.x := by simp only [clip, Span.ofPoint]; omega
    have one : (g.clip (.ofPoint p)).2 = 1 := by simp only [clip, Span.ofPoint]; omega
    rw [paint, if_pos ⟨above, below⟩, first, one, setRun, setRun]
    rfl
  · rw [paint_eq_self g v (by simpa [touches_ofPoint] using inside), set_eq_self inside]

/-- A run of cells is written from left to right. -/
theorem setRun_eq (y a b : Int) :
    g.setRun ⟨a, y⟩ v (b - a + 1).toNat = (between a b).foldl (fun g x => g.set ⟨x, y⟩ v) g := by
  generalize count : (b - a + 1).toNat = n
  induction n generalizing g a with
  | zero =>
    rw [between_nil (by omega)]
    rfl
  | succ n ih =>
    rw [between_cons (by omega), List.foldl_cons, ← ih _ (a + 1) (by omega)]
    rfl

/-- A span within the rows of a grid is painted point by point between the edges. -/
theorem paint_eq_foldl {y : Int} (left right : Int) (row : 0 ≤ y ∧ y < g.height) :
    g.paint v ⟨y, left, right⟩ =
      (between (max left 0) (min right (g.width - 1))).foldl (fun g x => g.set ⟨x, y⟩ v) g := by
  rw [paint, if_pos row]
  exact setRun_eq g v y _ _

theorem touches_foldl_paint (spans : List Span) :
    (spans.foldl (·.paint v ·) g).touches = g.touches := by
  funext s
  simp only [touches, clip, width_foldl_paint, height_foldl_paint]

end Grid

/-- The screen with spans painted in a color. -/
def Screen.paint (s : Screen) (color : Color) (spans : List Span) : Screen :=
  { s with surface := s.surface.paint color spans }

/-- The screen with other pixels, drawn on. -/
def Screen.drawn (s : Screen) (pixels : Grid Color) : Screen :=
  { s with surface := { s.surface with pixels, dirty := true } }

namespace Screen

variable (s : Screen) (color : Color) (a b : List Span)

theorem paint_paint : (s.paint color a).paint color b = s.paint color (a ++ b) := by
  simp only [paint, Surface.paint, List.foldl_append, List.any_append,
    Grid.touches_foldl_paint, Bool.or_assoc]

theorem paint_eq_self (h : ∀ span ∈ a, s.surface.pixels.touches span = false) :
    s.paint color a = s := by
  have pixels : a.foldl (·.paint color ·) s.surface.pixels = s.surface.pixels := by
    induction a with
    | nil => rfl
    | cons span a ih =>
      rw [List.foldl_cons, Grid.paint_eq_self _ _ (h span (by simp))]
      exact ih fun other rest => h other (by simp [rest])
  have untouched : a.any s.surface.pixels.touches = false := by simpa using h
  simp only [paint, Surface.paint, pixels, untouched, Bool.or_false]

theorem paint_point {p : Point} (inside : s.surface.pixels.Contains p) :
    s.paint color [.ofPoint p] = s.drawn (s.surface.pixels.set p color) := by
  have touched : [Span.ofPoint p].any s.surface.pixels.touches = true := by
    simp [Grid.touches_ofPoint, inside]
  simp only [paint, drawn, Surface.paint, touched, Bool.or_true, List.foldl_cons,
    List.foldl_nil, Grid.paint_ofPoint]

/-- A span within the rows is painted like the points of it that lie between the edges. -/
theorem paint_points {y left right : Int} (row : 0 ≤ y ∧ y < s.surface.pixels.height) :
    s.paint color ((between (max left 0) (min right (s.surface.pixels.width - 1))).flatMap
      fun x => [.ofPoint ⟨x, y⟩]) = s.paint color [⟨y, left, right⟩] := by
  have pixels := Grid.paint_eq_foldl s.surface.pixels color left right row
  have touched : (between (max left 0) (min right (s.surface.pixels.width - 1))).any
      (fun x => s.surface.pixels.touches (.ofPoint ⟨x, y⟩)) =
      s.surface.pixels.touches ⟨y, left, right⟩ := by
    rw [Bool.eq_iff_iff, List.any_eq_true, Grid.touches_iff]
    constructor
    · rintro ⟨x, between, inside⟩
      rw [Grid.touches_ofPoint, decide_eq_true_iff] at inside
      rw [mem_between] at between
      exact ⟨⟨x, y⟩, ⟨rfl, by simp only; omega, by simp only; omega⟩, inside⟩
    · rintro ⟨⟨x, y'⟩, ⟨rfl, least, greatest⟩, inside⟩
      have bounds := inside
      simp only [Grid.Contains] at bounds least greatest
      refine ⟨x, mem_between.mpr ⟨by omega, by omega⟩, ?_⟩
      rw [Grid.touches_ofPoint, decide_eq_true_iff]
      exact inside
  simp only [paint, Surface.paint, List.foldl_flatMap, List.any_flatMap, List.foldl_cons,
    List.foldl_nil, List.any_cons, List.any_nil, Bool.or_false, Grid.paint_ofPoint, pixels, touched]

end Screen

end LineBasic
