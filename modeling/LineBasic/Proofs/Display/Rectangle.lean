import LineBasic.Proofs.Display.Canvas.Shapes
import LineBasic.Proofs.Display.Drawing

/-!
# Rectangles and their borders

A rectangle is given by two opposite corners, in any order and anywhere in the plane, and is cut to
the surface before anything is drawn. What is left of it is the part between the corners that lies
on the surface, and the outline is the border of this part: the points whose column or row is the
first or the last one of it. So an outline that reaches beyond an edge of the surface runs along
that edge, and a part of a single row is all border.

The bounds of the part are computed once (`Box.contains_ofCorners`). Its rows and its border are
then drawn by different loops, of which `Box.covers_filled_iff` and `Box.covers_outline_iff` say
what they reach.

Main statement: `Canvas.rectangle_colors_part`.
-/

namespace LineBasic

/-- Whether a point lies on the grid and between two corners. -/
def Grid.PartBetween {α : Type} (g : Grid α) (a b p : Point) : Prop :=
  g.Contains p ∧ min a.x b.x ≤ p.x ∧ p.x ≤ max a.x b.x ∧ min a.y b.y ≤ p.y ∧ p.y ≤ max a.y b.y

instance {α : Type} (g : Grid α) (a b p : Point) : Decidable (g.PartBetween a b p) :=
  inferInstanceAs (Decidable (_ ∧ _ ∧ _ ∧ _ ∧ _))

/-- Whether the column or the row of a point is the first or the last one of a part. -/
def Point.Outermost (part : Point → Prop) (p : Point) : Prop :=
  ((∀ q, part q → p.x ≤ q.x) ∨ ∀ q, part q → q.x ≤ p.x) ∨
    (∀ q, part q → p.y ≤ q.y) ∨ ∀ q, part q → q.y ≤ p.y

namespace Shape

/-- Whether a point belongs to a rectangle that is drawn: it lies in the part on the grid, and for
an outline it is an outermost point of this part. -/
def InRectangle {α : Type} (g : Grid α) (a b : Point) (filled : Bool) (p : Point) : Prop :=
  g.PartBetween a b p ∧ (filled = false → p.Outermost (g.PartBetween a b))

namespace Box

variable {α : Type} {b : Box} {p : Point}

def Contains (b : Box) (p : Point) : Prop :=
  b.left ≤ p.x ∧ p.x ≤ b.right ∧ b.top ≤ p.y ∧ p.y ≤ b.bottom

instance (b : Box) (p : Point) : Decidable (b.Contains p) :=
  inferInstanceAs (Decidable (_ ∧ _ ∧ _ ∧ _))

/-- Whether the point lies on one of the bounds, or on the line through it. -/
def OnBound (b : Box) (p : Point) : Prop :=
  (p.x = b.left ∨ p.x = b.right) ∨ p.y = b.top ∨ p.y = b.bottom

instance (b : Box) (p : Point) : Decidable (b.OnBound p) :=
  inferInstanceAs (Decidable ((_ ∨ _) ∨ _ ∨ _))

theorem contains_ofCorners (g : Grid α) (c d p : Point) :
    (ofCorners g.width g.height c d).Contains p ↔ g.PartBetween c d p := by
  simp only [Contains, ofCorners, Grid.PartBetween, Grid.Contains]
  omega

theorem isEmpty_iff : b.isEmpty = true ↔ ∀ p, ¬ b.Contains p := by
  simp only [isEmpty, Bool.or_eq_true, decide_eq_true_eq, Contains]
  constructor
  · intro cut p within
    omega
  · intro none
    have corner := none ⟨b.left, b.top⟩
    simp only at corner
    omega

/-- Between its bounds, the outermost points of a box are those on the bounds. -/
theorem outermost_iff (h : b.Contains p) : p.Outermost b.Contains ↔ b.OnBound p := by
  obtain ⟨left, right, top, bottom⟩ := h
  constructor
  · rintro ((first | last) | first | last)
    · have beside := first ⟨b.left, p.y⟩ ⟨Int.le_refl _, Int.le_trans left right, top, bottom⟩
      exact .inl (.inl (Int.le_antisymm beside left))
    · have beside := last ⟨b.right, p.y⟩ ⟨Int.le_trans left right, Int.le_refl _, top, bottom⟩
      exact .inl (.inr (Int.le_antisymm right beside))
    · have beside := first ⟨p.x, b.top⟩ ⟨left, right, Int.le_refl _, Int.le_trans top bottom⟩
      exact .inr (.inl (Int.le_antisymm beside top))
    · have beside := last ⟨p.x, b.bottom⟩ ⟨left, right, Int.le_trans top bottom, Int.le_refl _⟩
      exact .inr (.inr (Int.le_antisymm bottom beside))
  · rintro ((same | same) | same | same)
    · exact .inl (.inl fun q within => same ▸ within.1)
    · exact .inl (.inr fun q within => same ▸ within.2.1)
    · exact .inr (.inl fun q within => same ▸ within.2.2.1)
    · exact .inr (.inr fun q within => same ▸ within.2.2.2)

theorem covers_filled_iff : Span.Covers b.filled p ↔ b.Contains p := by
  simp only [Span.Covers, filled, List.mem_map, mem_between]
  constructor
  · rintro ⟨_, ⟨y, ⟨top, bottom⟩, rfl⟩, row, left, right⟩
    obtain rfl : p.y = y := row
    exact ⟨left, right, top, bottom⟩
  · rintro ⟨left, right, top, bottom⟩
    exact ⟨_, ⟨p.y, ⟨top, bottom⟩, rfl⟩, rfl, left, right⟩

/-- Two rows in full and both ends of every row make up the bounds of a box that is not empty. -/
theorem covers_outline_iff (columns : b.left ≤ b.right) (rows : b.top ≤ b.bottom) :
    Span.Covers b.outline p ↔ b.Contains p ∧ b.OnBound p := by
  obtain ⟨x, y⟩ := p
  simp only [Span.Covers, outline, List.mem_cons, List.mem_flatMap, mem_between, List.not_mem_nil,
    or_false, Contains, OnBound]
  constructor
  · rintro ⟨_, rfl | rfl | ⟨row, ⟨top, bottom⟩, rfl | rfl⟩, place⟩
    · obtain ⟨rfl, left, right⟩ := place
      exact ⟨⟨left, right, Int.le_refl _, rows⟩, .inr (.inl rfl)⟩
    · obtain ⟨rfl, left, right⟩ := place
      exact ⟨⟨left, right, rows, Int.le_refl _⟩, .inr (.inr rfl)⟩
    · obtain ⟨rfl, rfl⟩ := Point.mk.inj (Span.contains_ofPoint.mp place)
      exact ⟨⟨Int.le_refl _, columns, top, bottom⟩, .inl (.inl rfl)⟩
    · obtain ⟨rfl, rfl⟩ := Point.mk.inj (Span.contains_ofPoint.mp place)
      exact ⟨⟨columns, Int.le_refl _, top, bottom⟩, .inl (.inr rfl)⟩
  · rintro ⟨⟨left, right, top, bottom⟩, (rfl | rfl) | rfl | rfl⟩
    · exact ⟨_, .inr (.inr ⟨y, ⟨top, bottom⟩, .inl rfl⟩), Span.contains_ofPoint.mpr rfl⟩
    · exact ⟨_, .inr (.inr ⟨y, ⟨top, bottom⟩, .inr rfl⟩), Span.contains_ofPoint.mpr rfl⟩
    · exact ⟨_, .inl rfl, rfl, left, right⟩
    · exact ⟨_, .inr (.inl rfl), rfl, left, right⟩

end Box

variable {α : Type} {g : Grid α} {a b p : Point} {filled : Bool}

/-- Membership is decided on the bounds. -/
theorem inRectangle_iff :
    InRectangle g a b filled p ↔
      (Box.ofCorners g.width g.height a b).Contains p ∧
        (filled = false → (Box.ofCorners g.width g.height a b).OnBound p) := by
  have part : g.PartBetween a b = (Box.ofCorners g.width g.height a b).Contains :=
    funext fun p => propext (Box.contains_ofCorners g a b p).symm
  rw [InRectangle, part]
  exact and_congr_right fun within => imp_congr_right fun _ => Box.outermost_iff within

instance (g : Grid α) (a b : Point) (filled : Bool) (p : Point) :
    Decidable (InRectangle g a b filled p) :=
  decidable_of_iff' _ inRectangle_iff

/-- A rectangle without a part on the grid has no spans. -/
theorem rectangle_eq_nil (h : ∀ p, ¬ g.PartBetween a b p) :
    rectangle g.width g.height a b filled = [] := by
  have empty : (Box.ofCorners g.width g.height a b).isEmpty = true :=
    Box.isEmpty_iff.mpr fun p within => h p ((Box.contains_ofCorners g a b p).mp within)
  rw [rectangle, empty, if_pos rfl]

/-- The spans of a rectangle cover the points that belong to it. -/
theorem covers_rectangle_iff :
    Span.Covers (rectangle g.width g.height a b filled) p ↔ InRectangle g a b filled p := by
  rw [inRectangle_iff, rectangle]
  generalize Box.ofCorners g.width g.height a b = box
  cases empty : box.isEmpty with
  | true =>
      constructor
      · rintro ⟨_, member, -⟩
        cases member
      · rintro ⟨within, -⟩
        exact absurd within (Box.isEmpty_iff.mp empty p)
  | false =>
      rw [if_neg Bool.false_ne_true]
      cases filled with
      | true =>
          simp only [if_true, Box.covers_filled_iff, Bool.true_eq_false, false_imp_iff, and_true]
      | false =>
          obtain ⟨columns, rows⟩ := Bool.or_eq_false_iff.mp empty
          have outline := Box.covers_outline_iff (p := p)
            (Int.not_lt.mp (of_decide_eq_false columns)) (Int.not_lt.mp (of_decide_eq_false rows))
          simp only [Bool.false_eq_true, if_false, outline, true_imp_iff]

/-- A part that is not empty has outermost points. -/
theorem exists_inRectangle (h : g.PartBetween a b p) : ∃ q, InRectangle g a b filled q := by
  have within := (Box.contains_ofCorners g a b p).mpr h
  have first : (Box.ofCorners g.width g.height a b).Contains
      ⟨(Box.ofCorners g.width g.height a b).left, p.y⟩ :=
    ⟨Int.le_refl _, Int.le_trans within.1 within.2.1, within.2.2⟩
  refine ⟨_, (Box.contains_ofCorners g a b _).mp first, fun _ => .inl (.inl fun q hq => ?_)⟩
  exact ((Box.contains_ofCorners g a b q).mpr hq).1

end Shape

namespace Canvas

/-- Drawing a rectangle ends without an overflow, wherever its corners lie and in whichever order
they come. If some of it lies on the surface, it colors this part, or for an outline the points of
this part whose column or row is the first or the last one, every other point stays as it is, and
the surface counts as drawn on. If none of it does, nothing changes at all. The page and the ink
stay in either case. -/
theorem rectangle_colors_part (s : Screen)
    (fits : Countable s.surface.pixels.width s.surface.pixels.height) (x₁ y₁ x₂ y₂ : Int32)
    (filled : Bool) (color : Option Color) :
    let s' := s.apply (.rectangle x₁ y₁ x₂ y₂ filled color)
    let part := s.surface.pixels.PartBetween (Screen.point x₁ y₁) (Screen.point x₂ y₂)
    let drawn := Shape.InRectangle s.surface.pixels (Screen.point x₁ y₁) (Screen.point x₂ y₂) filled
    (ofScreen s).drawRectangle x₁ y₁ x₂ y₂ filled color = some (ofScreen s') ∧
    (∀ p, drawn p → s'.surface.pixels.get? p = some (s.surface.colorOr color)) ∧
    (∀ p, ¬ drawn p → s'.surface.pixels.get? p = s.surface.pixels.get? p) ∧
    ((∃ p, part p) → s'.surface.dirty = true) ∧
    ((∀ p, ¬ part p) → s' = s) ∧
    s'.page = s.page ∧ s'.surface.ink = s.surface.ink ∧
    s'.surface.pixels.width = s.surface.pixels.width ∧
    s'.surface.pixels.height = s.surface.pixels.height := by
  intro s' part drawn
  let spans := Shape.rectangle s.surface.pixels.width s.surface.pixels.height
    (Screen.point x₁ y₁) (Screen.point x₂ y₂) filled
  have painted : s' = s.paint (s.surface.colorOr color) spans := rfl
  have covers (p : Point) : Span.Covers spans p ↔ drawn p := Shape.covers_rectangle_iff
  have pixel (p : Point) := Grid.get?_foldl_paint s.surface.pixels (s.surface.colorOr color) spans p
  refine ⟨drawRectangle_eq fits x₁ y₁ x₂ y₂ filled color, fun p hit => ?_, fun p missed => ?_,
    fun some => ?_, fun none => ?_, rfl, rfl, Screen.width_apply s _, Screen.height_apply s _⟩
  · exact (pixel p).trans (if_pos ⟨(covers p).mpr hit, hit.1.1⟩)
  · exact (pixel p).trans (if_neg fun hit => missed ((covers p).mp hit.1))
  · obtain ⟨p, within⟩ := some
    obtain ⟨q, hit⟩ : ∃ q, drawn q := Shape.exists_inRectangle within
    have touched : spans.any s.surface.pixels.touches = true :=
      Grid.any_touches_iff.mpr ⟨q, (covers q).mpr hit, hit.1.1⟩
    rw [painted]
    exact (congrArg (s.surface.dirty || ·) touched).trans (Bool.or_true _)
  · have nothing : spans = [] := Shape.rectangle_eq_nil none
    rw [painted, nothing]
    exact s.paint_eq_self _ [] (List.forall_mem_nil _)

/-- An outline over a corner of a small surface runs along both edges. Behind it come a filled row
that goes on beyond both ends of 32 bits, and a rectangle off the surface. -/
theorem rectangle_colors_part_cornered :
    let s := Screen.empty 2 1
    let frame := s.apply (.rectangle 9 (-3) (-2) 5 false (some 2))
    let row := s.apply (.rectangle 2147483647 3 (-2147483648) 3 true none)
    Countable 12 8 ∧
      (ofScreen s).drawRectangle 9 (-3) (-2) 5 false (some 2) = some (ofScreen frame) ∧
      frame.surface.pixels.get? ⟨0, 2⟩ = some 2 ∧ frame.surface.pixels.get? ⟨4, 5⟩ = some 2 ∧
      frame.surface.pixels.get? ⟨4, 2⟩ = some 15 ∧ frame.surface.pixels.get? ⟨10, 2⟩ = some 15 ∧
      frame.surface.dirty = true ∧ row.surface.pixels.get? ⟨11, 3⟩ = some 14 ∧
      s.apply (.rectangle 12 0 30 5 false none) = s := by
  intro s frame row
  have fits : Countable 12 8 := ⟨by decide, by decide⟩
  obtain ⟨ends, colored, kept, dirty, -, -⟩ :=
    rectangle_colors_part s fits 9 (-3) (-2) 5 false (some 2)
  obtain ⟨-, colored', -, -, -, -⟩ :=
    rectangle_colors_part s fits 2147483647 3 (-2147483648) 3 true none
  obtain ⟨-, -, -, -, nothing, -⟩ := rectangle_colors_part s fits 12 0 30 5 false none
  refine ⟨fits, ends, ?_, ?_, ?_, ?_, ?_, ?_, ?_⟩
  · exact colored ⟨0, 2⟩ (by decide +kernel)
  · exact colored ⟨4, 5⟩ (by decide +kernel)
  · exact (kept ⟨4, 2⟩ (by decide +kernel)).trans (by decide +kernel)
  · exact (kept ⟨10, 2⟩ (by decide +kernel)).trans (by decide +kernel)
  · exact dirty ⟨⟨0, 0⟩, by decide +kernel⟩
  · exact colored' ⟨11, 3⟩ (by decide +kernel)
  · refine nothing fun p within => ?_
    obtain ⟨⟨-, inside, -⟩, least, -⟩ := within
    exact absurd (Int.lt_of_le_of_lt least inside) (by decide +kernel)

end Canvas

end LineBasic
