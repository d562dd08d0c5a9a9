import LineBasic.Proofs.Display.Canvas.Paint
import LineBasic.Proofs.Display.Canvas.Root

/-!
# Rectangles and circles on the canvas

Both shapes are painted row by row, and each row is a line between two columns. A box is
cut to the surface before it is drawn. A circle is left out when the square around it is
off the surface, and the rows that are drawn lie within the radius, so their half widths
exist and no end of a row leaves its word.
-/

namespace LineBasic.Canvas

open Word

namespace Paints

variable {width height : Nat}

theorem sorted (fits : Countable width height) (color : Color) {left right : Int}
    (h : left ≤ right) (y : Int) :
    Paints width height color [⟨y, left, right⟩] (·.hline left right y color) := by
  have painted := hline fits color left right y
  rwa [Int.min_eq_left h, Int.max_eq_right h] at painted

theorem box (fits : Countable width height) (color : Color) (filled : Bool) {b : Shape.Box}
    (right : b.right ≤ 2147483647) (bottom : b.bottom ≤ 2147483647) :
    Paints width height color
      (if b.isEmpty then [] else if filled then b.filled else b.outline)
      (·.drawBox b filled color) := by
  by_cases empty : b.right < b.left ∨ b.bottom < b.top
  · have spans : b.isEmpty = true := by simpa [Shape.Box.isEmpty] using empty
    simp only [drawBox, if_pos empty, spans, if_true]
    exact nothing
  · have spans : b.isEmpty = false := by simpa [Shape.Box.isEmpty] using empty
    have rows : b.left ≤ b.right := by omega
    simp only [drawBox, if_neg empty, spans, Bool.false_eq_true, if_false]
    cases filled with
    | true =>
      simp only [if_true, Shape.Box.filled, List.map_eq_flatMap]
      exact foldlM fun y _ => sorted fits color rows y
    | false =>
      simp only [Bool.false_eq_true, if_false, Shape.Box.outline]
      refine (sorted fits color rows b.top).bind ((sorted fits color rows b.bottom).bind ?_)
      refine foldlM fun y hy => ?_
      rw [mem_between] at hy
      exact (set fits color (by omega) (by omega)).bind (set fits color (by omega) (by omega))

end Paints

theorem drawRectangle_eq {s : Screen}
    (fits : Countable s.surface.pixels.width s.surface.pixels.height) (x₁ y₁ x₂ y₂ : Int32)
    (filled : Bool) (color : Option Color) :
    (ofScreen s).drawRectangle x₁ y₁ x₂ y₂ filled color =
      some (ofScreen (s.apply (.rectangle x₁ y₁ x₂ y₂ filled color))) := by
  have width := fits.width_le
  have height := fits.height_le
  simp (disch := omega) only [drawRectangle, int32_bind]
  refine Paints.box fits (color.getD s.surface.ink) filled (b := Shape.Box.ofCorners
    s.surface.pixels.width s.surface.pixels.height (Screen.point x₁ y₁) (Screen.point x₂ y₂))
    ?_ ?_ s rfl rfl <;> simp only [Shape.Box.ofCorners] <;> omega

/-- A row is drawn if it is no further from the center than the radius. -/
theorem circleRow_paints {width height : Nat} {estimate : Int → Int} (close : Close estimate)
    (fits : Countable width height) (color : Color) {center : Point} {radius y : Int}
    (filled : Bool) (hr : 0 ≤ radius) (hr' : radius ≤ 2147483647)
    (hx : -2147483648 ≤ center.x) (hx' : center.x ≤ 2147483647)
    (apart : ((y - center.y).natAbs : Int) ≤ radius) :
    Paints width height color (Shape.circleRow center radius filled y)
      (circleRow estimate center radius filled color · y) := by
  have outer_nonneg := Shape.halfWidth_nonneg apart
  have outer_le := Shape.halfWidth_le hr (y - center.y).natAbs
  have next_least := Shape.neg_one_le_halfWidth radius ((y - center.y).natAbs + 1)
  have next_le := Shape.halfWidth_le hr ((y - center.y).natAbs + 1)
  cases filled with
  | true =>
    simp (disch := omega) only [circleRow, Shape.circleRow, int64_bind, halfWidth_bind close,
      if_true]
    exact Paints.sorted fits color (by omega) y
  | false =>
    simp (disch := omega) only [circleRow, Shape.circleRow, int64_bind, halfWidth_bind close,
      Bool.false_eq_true, if_false]
    exact (Paints.sorted fits color (by omega) y).bind (Paints.sorted fits color (by omega) y)

/-- A row does not reach further from the middle than the radius. -/
theorem reach_circleRow {center : Point} {radius y : Int} {filled : Bool} {span : Span}
    (hr : 0 ≤ radius) (apart : ((y - center.y).natAbs : Int) ≤ radius)
    (h : span ∈ Shape.circleRow center radius filled y) :
    span.y = y ∧ center.x - radius ≤ span.left ∧ span.right ≤ center.x + radius := by
  have outer_nonneg := Shape.halfWidth_nonneg apart
  have outer_le := Shape.halfWidth_le hr (y - center.y).natAbs
  have next_least := Shape.neg_one_le_halfWidth radius ((y - center.y).natAbs + 1)
  cases filled with
  | true =>
    simp only [Shape.circleRow, if_true, List.mem_singleton] at h
    subst h
    refine ⟨rfl, ?_, ?_⟩ <;> simp only <;> omega
  | false =>
    simp only [Shape.circleRow, Bool.false_eq_true, if_false, List.mem_cons, List.not_mem_nil,
      or_false] at h
    rcases h with rfl | rfl <;> refine ⟨rfl, ?_, ?_⟩ <;> simp only <;> omega

/-- A circle whose surrounding square lies off the surface leaves no trace. -/
theorem not_touches_circle {g : Grid Color} {center : Point} {radius : Int} {filled : Bool}
    (hr : 0 ≤ radius)
    (off : center.x + radius < 0 ∨ center.y + radius < 0 ∨ g.width ≤ center.x - radius ∨
      g.height ≤ center.y - radius) :
    ∀ span ∈ Shape.circle g.height center radius filled, g.touches span = false := by
  intro span member
  obtain ⟨row, rows, member⟩ := List.mem_flatMap.mp member
  rw [mem_between] at rows
  obtain ⟨place, left, right⟩ := reach_circleRow hr (by omega) member
  rw [← Bool.not_eq_true, Grid.touches_iff]
  rintro ⟨p, within, inside⟩
  simp only [Span.Contains, Grid.Contains] at within inside
  omega

theorem drawCircle_eq {s : Screen} {estimate : Int → Int} (close : Close estimate)
    (fits : Countable s.surface.pixels.width s.surface.pixels.height) (x y radius : Int32)
    (filled : Bool) (color : Option Color) :
    (ofScreen s).drawCircle estimate x y radius filled color =
      some (ofScreen (s.apply (.circle x y radius filled color))) := by
  have width := fits.width_le
  have height := fits.height_le
  have hx := x.le_toInt
  have hx' := x.toInt_lt
  have hy := y.le_toInt
  have hy' := y.toInt_lt
  have hr := radius.toInt_lt
  have hr' := radius.le_toInt
  show _ = some (ofScreen (s.paint (color.getD s.surface.ink)
    (Shape.circle s.surface.pixels.height ⟨x.toInt, y.toInt⟩ radius.toInt filled)))
  simp (disch := omega) only [drawCircle, int64_bind]
  by_cases negative : radius.toInt < 0
  · rw [if_pos negative, Shape.circle, between_nil (by simp only; omega), List.flatMap_nil,
      Screen.paint_eq_self _ _ _ (by simp)]
    rfl
  · rw [if_neg negative]
    split
    · next off =>
      rw [Screen.paint_eq_self _ _ _ (not_touches_circle (by omega) off)]
      rfl
    · refine Paints.foldlM (fun row hrow => ?_) s rfl rfl
      rw [mem_between] at hrow
      exact circleRow_paints close fits _ filled (by omega) (by omega) (by simp only; omega)
        (by simp only; omega) (by simp only; omega)

end LineBasic.Canvas
