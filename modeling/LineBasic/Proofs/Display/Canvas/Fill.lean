import LineBasic.Proofs.Display.Canvas.Paint
import LineBasic.Proofs.Display.Fill

/-!
# Fills on the canvas

The canvas fills by the same worklist as the surface. A point is only followed further
when it is on the surface, so its neighbors can be counted in 32 bits.
-/

namespace LineBasic.Canvas

open Word

variable {s : Screen} {target color : Color} {p : Point} {stack : List Point}

/-- A point of the old color is recolored, and its neighbors are put on the stack. -/
theorem fillFrom_recolor (fits : Countable s.surface.pixels.width s.surface.pixels.height)
    (h : s.surface.pixels.get? p = some target) :
    fillFrom target color (p :: stack) (ofScreen s) =
      fillFrom target color (p.neighbors ++ stack)
        (ofScreen (s.drawn (s.surface.pixels.set p color))) := by
  have width := fits.width_le
  have height := fits.height_le
  have inside := Grid.contains_of_get? h
  have painted := Paints.set fits color (x := p.x) (y := p.y)
  have ⟨left, right, above, below⟩ := inside
  rw [fillFrom, Checked.bind_eq (pixel_eq fits (by omega) (by omega)), if_pos (by exact h),
    Checked.bind_eq (painted (by omega) (by omega) s rfl rfl), Screen.paint_point s color inside,
    int32_bind (by omega) (by omega), int32_bind (by omega) (by omega),
    int32_bind (by omega) (by omega), int32_bind (by omega) (by omega)]
  rfl

theorem fillFrom_skip (fits : Countable s.surface.pixels.width s.surface.pixels.height)
    (hx : p.x ≤ 2147483647) (hy : p.y ≤ 2147483647)
    (h : s.surface.pixels.get? p ≠ some target) :
    fillFrom target color (p :: stack) (ofScreen s) =
      fillFrom target color stack (ofScreen s) := by
  rw [fillFrom, Checked.bind_eq (pixel_eq fits hx hy)]
  exact if_neg h

theorem neighbors_counted {g : Grid Color} (fits : Countable g.width g.height)
    (inside : g.Contains p) : ∀ q ∈ p.neighbors, q.x ≤ 2147483647 ∧ q.y ≤ 2147483647 := by
  intro q near
  have width := fits.width_le
  have height := fits.height_le
  have ⟨left, right, above, below⟩ := inside
  have adjacent := Point.mem_neighbors.mp near
  rw [Point.Adjacent] at adjacent
  omega

/-- The stack is worked off as the pending points of the surface are. -/
theorem fillFrom_eq {g : Grid Color} (h : color ≠ target) (fits : Countable g.width g.height)
    (counted : ∀ p ∈ stack, p.x ≤ 2147483647 ∧ p.y ≤ 2147483647) :
    fillFrom target color stack (ofScreen (s.drawn g)) =
      some (ofScreen (s.drawn (g.recolor target color h stack))) := by
  fun_induction Grid.recolor target color h g stack with
  | case1 g =>
    rw [fillFrom]
    rfl
  | case2 g p stack matched ih =>
    rw [fillFrom_recolor fits matched]
    refine ih ⟨by simpa using fits.width_le, by simpa using fits.height_le⟩ ?_
    exact List.forall_mem_append.mpr
      ⟨neighbors_counted fits (Grid.contains_of_get? matched), fun q hq => counted q (by simp [hq])⟩
  | case3 g p stack other ih =>
    rw [fillFrom_skip fits (counted p (by simp)).1 (counted p (by simp)).2 other]
    exact ih fits fun q hq => counted q (by simp [hq])

theorem floodFill_eq (fits : Countable s.surface.pixels.width s.surface.pixels.height)
    (x y : Int32) :
    (ofScreen s).floodFill x y = some (ofScreen (s.apply (.fill x y))) := by
  have hx := x.toInt_lt
  have hy := y.toInt_lt
  have pixel : s.surface.pixel? x.toInt y.toInt = s.surface.pixels.get? (Screen.point x y) := rfl
  have filled : s.apply (.fill x y) = { s with surface :=
      { s.surface with
        pixels := s.surface.pixels.floodFill (Screen.point x y) s.surface.ink
        dirty := s.surface.dirty ||
          (s.surface.pixels.get? (Screen.point x y)).any (· != s.surface.ink) } } := rfl
  rw [floodFill, Checked.bind_eq (pixel_eq fits (by omega) (by omega)), pixel, filled,
    Grid.floodFill]
  cases h : s.surface.pixels.get? (Screen.point x y) with
  | none =>
    simp only [Option.any_none, Bool.or_false]
    rfl
  | some target =>
    by_cases same : target = s.surface.ink
    · subst same
      simp
    · have changes : (some target).any (· != s.surface.ink) = true := by simp [same]
      simp only [changes, Bool.or_true, ne_eq, same, not_false_eq_true, if_true]
      rw [dif_neg (Ne.symm same), Grid.recolor, dif_pos h]
      refine (fillFrom_recolor fits h).trans (fillFrom_eq (Ne.symm same)
        ⟨by simpa using fits.width_le, by simpa using fits.height_le⟩ ?_)
      rw [List.append_nil]
      exact neighbors_counted fits (Grid.contains_of_get? h)

end LineBasic.Canvas
