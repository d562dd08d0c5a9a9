import LineBasic.Proofs.Display.Canvas.Shapes
import LineBasic.Proofs.Display.Outline

/-!
# Circles are discs and their inner boundaries

A filled circle has the points of the disc, and the outline has those of them that have a
neighbor outside. Each row is found from roots, one for where the row ends and one for where the
next row outward does: the first tells the points of the disc, and both together tell the points
whose neighbors all lie in it. The roots are exact, from whatever estimates they were found, and
this holds as well where most of the circle is off the surface.

Main statement: `Canvas.circle_colors_disc`.
-/

namespace LineBasic

namespace Shape

variable {center p : Point} {radius : Int} {filled : Bool}

/-- Whether a point belongs to a circle: it lies in the disc, and for an outline it also has a
neighbor that does not. A negative radius has no points. -/
def InCircle (center : Point) (radius : Int) (filled : Bool) (p : Point) : Prop :=
  0 ≤ radius ∧ InDisc center radius p ∧
    (filled = false → ∃ q ∈ p.neighbors, ¬ InDisc center radius q)

instance (center : Point) (radius : Int) (filled : Bool) (p : Point) :
    Decidable (InCircle center radius filled p) :=
  inferInstanceAs (Decidable (_ ∧ _ ∧ _))

theorem not_strictlyInside :
    ¬ StrictlyInside center radius p ↔ ∃ q ∈ p.neighbors, ¬ InDisc center radius q := by
  simp only [StrictlyInside, not_forall, exists_prop]

/-- The rows of a circle are right: on the surface they have the points that belong to it. -/
theorem covers_circle_iff_inCircle {height : Nat} (hy : 0 ≤ p.y) (hh : p.y < height) :
    Span.Covers (circle height center radius filled) p ↔ InCircle center radius filled p := by
  by_cases hr : 0 ≤ radius
  · cases filled with
    | true =>
      rw [covers_filled_circle_iff hy hh, ← inDisc_iff hr]
      simp [InCircle, hr]
    | false =>
      have within : Span.Covers (circle height center radius false) p → InDisc center radius p :=
        fun covered => (inDisc_iff hr).mpr ((covers_circle_iff hy hh).mp covered).2
      have inside : InDisc center radius p ∧ ¬ Span.Covers (circle height center radius false) p ↔
          StrictlyInside center radius p := strictlyInside_iff hr hy hh
      simp only [InCircle, ← not_strictlyInside, ← inside]
      tauto
  · rw [covers_circle_iff_row hy hh]
    constructor
    · rintro ⟨near, -⟩
      omega
    · rintro ⟨hr', -⟩
      exact absurd hr' hr

end Shape

namespace Canvas

/-- Drawing a circle ends without an overflow, wherever its center lies, whatever the
estimates of the roots are as long as they are close enough. It colors the points of the
surface that lie in the disc, for an outline only those of them that have one of their four
neighbors outside, and every other point stays as it is. -/
theorem circle_colors_disc {estimate : Int → Int} (close : Close estimate) (s : Screen)
    (fits : Countable s.surface.pixels.width s.surface.pixels.height)
    (x y radius : Int32) (filled : Bool) (color : Option Color) :
    let s' := s.apply (.circle x y radius filled color)
    (ofScreen s).drawCircle estimate x y radius filled color = some (ofScreen s') ∧
    ∀ p, s'.surface.pixels.get? p =
      if s.surface.pixels.Contains p ∧
          Shape.InCircle (Screen.point x y) radius.toInt filled p then
        some (s.surface.colorOr color)
      else s.surface.pixels.get? p := by
  intro s'
  refine ⟨drawCircle_eq close fits x y radius filled color, fun p => ?_⟩
  refine (Grid.get?_foldl_paint _ _ _ p).trans (if_congr ?_ rfl rfl)
  rw [and_comm]
  refine and_congr_right fun inside => ?_
  exact Shape.covers_circle_iff_inCircle inside.2.2.1 inside.2.2.2

/-- An outline over a corner of a small surface, with a point that has no neighbor outside but the
one off the surface, and a disc of the greatest radius that has one point in a row of it. -/
theorem circle_colors_disc_cornered :
    let s := Screen.empty 2 1
    let ring := s.apply (.circle 1 5 3 false (some 2))
    let disc := s.apply (.circle (-2147483647) 3 2147483647 true (some 2))
    Countable 12 8 ∧
      (ofScreen s).drawCircle estimateRoot 1 5 3 false (some 2) = some (ofScreen ring) ∧
      ring.surface.pixels.get? ⟨4, 5⟩ = some 2 ∧ ring.surface.pixels.get? ⟨2, 7⟩ = some 2 ∧
      ring.surface.pixels.get? ⟨2, 5⟩ = some 15 ∧ ring.surface.pixels.get? ⟨5, 5⟩ = some 15 ∧
      (ofScreen s).drawCircle estimateRoot (-2147483647) 3 2147483647 true (some 2) =
        some (ofScreen disc) ∧
      disc.surface.pixels.get? ⟨0, 3⟩ = some 2 ∧ disc.surface.pixels.get? ⟨0, 4⟩ = some 15 := by
  intro s ring disc
  have fits : Countable 12 8 := ⟨by decide, by decide⟩
  obtain ⟨drawn, colored⟩ :=
    circle_colors_disc close_estimateRoot s fits 1 5 3 false (some 2)
  obtain ⟨drawn', colored'⟩ :=
    circle_colors_disc close_estimateRoot s fits (-2147483647) 3 2147483647 true (some 2)
  refine ⟨fits, drawn, ?_, ?_, ?_, ?_, drawn', ?_, ?_⟩
  · exact (colored ⟨4, 5⟩).trans (if_pos (by decide +kernel))
  · exact (colored ⟨2, 7⟩).trans (if_pos (by decide +kernel))
  · exact (colored ⟨2, 5⟩).trans ((if_neg (by decide +kernel)).trans (by decide +kernel))
  · exact (colored ⟨5, 5⟩).trans ((if_neg (by decide +kernel)).trans (by decide +kernel))
  · exact (colored' ⟨0, 3⟩).trans (if_pos (by decide +kernel))
  · exact (colored' ⟨0, 4⟩).trans ((if_neg (by decide +kernel)).trans (by decide +kernel))

end Canvas

end LineBasic
