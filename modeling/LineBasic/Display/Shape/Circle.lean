import LineBasic.Display.Root
import LineBasic.Display.Shape.Rectangle

/-!
# Circles

A circle is drawn row by row. Half the width of a row is the root of what the
squared radius leaves over the squared distance from the center. The outline of
a row reaches from there inward to where the next row outward ends, and over at
least one point; the row beyond the rim has no width.
-/

namespace LineBasic.Shape

/-- Half the width of the disc at a distance from its center row, or -1 where it
has no points. -/
def halfWidth (radius distance : Int) : Int :=
  if radius < distance then -1
  else Root.floorSqrt (radius * radius - distance * distance).toNat

/-- The spans of one row at height `y`. -/
def circleRow (center : Point) (radius : Int) (filled : Bool) (y : Int) : List Span :=
  let distance : Int := (y - center.y).natAbs
  let outer := halfWidth radius distance
  if filled then [⟨y, center.x - outer, center.x + outer⟩]
  else
    let inner := min (halfWidth radius (distance + 1) + 1) outer
    [⟨y, center.x - outer, center.x - inner⟩, ⟨y, center.x + inner, center.x + outer⟩]

/-- The rows of a circle on a surface of this height. -/
def circle (height : Nat) (center : Point) (radius : Int) (filled : Bool) : List Span :=
  (between (max (center.y - radius) 0) (min (center.y + radius) (height - 1))).flatMap
    (circleRow center radius filled)

theorem halfWidth_of_lt {radius distance : Int} (h : radius < distance) :
    halfWidth radius distance = -1 :=
  if_pos h

theorem halfWidth_nonneg {radius distance : Int} (h : distance ≤ radius) :
    0 ≤ halfWidth radius distance := by
  rw [halfWidth, if_neg (Int.not_lt_of_ge h)]
  exact Int.natCast_nonneg _

theorem neg_one_le_halfWidth (radius distance : Int) : -1 ≤ halfWidth radius distance := by
  by_cases h : distance ≤ radius
  · exact Int.le_trans (by decide) (halfWidth_nonneg h)
  · exact Int.le_of_eq (halfWidth_of_lt (Int.not_le.mp h)).symm

theorem halfWidth_le {radius : Int} (h : 0 ≤ radius) (distance : Int) :
    halfWidth radius distance ≤ radius := by
  by_cases beyond : radius < distance
  · rw [halfWidth_of_lt beyond]
    omega
  · obtain ⟨radius, rfl⟩ := Int.eq_ofNat_of_zero_le h
    have lost := Int.natAbs_mul_self (a := distance)
    rw [halfWidth, if_neg beyond]
    have square := Root.le_floorSqrt_iff.mp
      (Nat.le_refl (Root.floorSqrt (radius * radius - distance * distance).toNat))
    generalize Root.floorSqrt (radius * radius - distance * distance).toNat = k at square
    have smaller : k * k ≤ radius * radius := by omega
    exact Int.ofNat_le.mpr (Nat.mul_self_le_mul_self_iff.mp smaller)

end LineBasic.Shape
