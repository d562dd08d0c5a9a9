import LineBasic.Proofs.Display.Size
import Mathlib.Tactic.Linarith

/-!
# Outlines that hold a fill

Filling goes from a point to its four neighbors, so it stays inside whatever it cannot
leave by one such step. The outline of a rectangle closes it on all sides, along the edge
of the surface if the rectangle goes beyond it. The outline of a circle is closed although
its rows touch only at corners in places: the outline of a row reaches inward just as far
as the next row outward reaches at all, and so whatever is strictly inside a row has the
outline or the inside of that next row beside it.

Main statement: `Screen.closed_outlines_hold_fill`.
-/

namespace LineBasic

/-- Whether some span has the point. -/
def Span.Covers (spans : List Span) (p : Point) : Prop := ∃ s ∈ spans, s.Contains p

instance (spans : List Span) (p : Point) : Decidable (Span.Covers spans p) :=
  inferInstanceAs (Decidable (∃ s ∈ spans, s.Contains p))

namespace Grid

variable {α : Type} {g : Grid α} {v : α} {p q : Point}

/-- Painting spans writes exactly the points of the grid that they cover. -/
theorem get?_foldl_paint (g : Grid α) (v : α) (spans : List Span) (p : Point) :
    (spans.foldl (·.paint v ·) g).get? p =
      if Span.Covers spans p ∧ g.Contains p then some v else g.get? p := by
  induction spans generalizing g with
  | nil => simp [Span.Covers]
  | cons s spans ih =>
      have covers : Span.Covers (s :: spans) p ↔ s.Contains p ∨ Span.Covers spans p := by
        simp only [Span.Covers, List.mem_cons, exists_eq_or_imp]
      rw [List.foldl_cons, ih, get?_paint]
      simp only [contains_paint, covers]
      by_cases hp : g.Contains p <;> by_cases hs : s.Contains p <;> simp [hp, hs]

/-- A path that cannot leave a region in one step stays in it. -/
theorem Connected.mem_of_closed {region : Point → Prop}
    (closed : ∀ p q, region p → p.Adjacent q → g.get? q = some v → region q)
    (start : region p) (path : g.Connected v p q) : region q := by
  obtain ⟨-, steps⟩ := path
  induction steps with
  | refl => exact start
  | tail _ last ih => exact closed _ _ ih last.1 last.2

/-- What a fill changes lies in every region that has nothing but the region itself and a
wall of another color around it. -/
theorem mem_of_floodFill_ne [DecidableEq α] {region : Point → Prop} {wall new : α}
    (closed : ∀ p q, region p → p.Adjacent q → g.Contains q → region q ∨ g.get? q = some wall)
    (start : region p) (other : g.get? p ≠ some wall)
    (changed : (g.floodFill p new).get? q ≠ g.get? q) : region q := by
  cases hp : g.get? p with
  | none => exact absurd (by rw [floodFill_eq_self (.inl hp)]) changed
  | some old =>
      by_cases same : new = old
      · exact absurd (by rw [floodFill_eq_self (.inr (same ▸ hp))]) changed
      · rw [get?_floodFill hp same] at changed
        have path : g.Connected old p q :=
          Classical.byContradiction fun apart => changed (if_neg apart)
        refine path.mem_of_closed (fun a b ha adjacent hb => ?_) start
        rcases closed a b ha adjacent (contains_of_get? hb) with inside | onWall
        · exact inside
        · exact absurd (hp.trans (hb.symm.trans onWall)) other

end Grid

namespace Shape

/-- Whether a point lies in the disc of a radius around a center. -/
def InDisc (center : Point) (radius : Int) (p : Point) : Prop :=
  (p.x - center.x) ^ 2 + (p.y - center.y) ^ 2 ≤ radius ^ 2

instance (center : Point) (radius : Int) (p : Point) : Decidable (InDisc center radius p) :=
  inferInstanceAs (Decidable (_ ≤ _))

/-- Whether all neighbors of a point lie in the disc. -/
def StrictlyInside (center : Point) (radius : Int) (p : Point) : Prop :=
  ∀ q ∈ p.neighbors, InDisc center radius q

/-- A row reaches as far from its middle as it is in the disc. -/
theorem le_halfWidth_iff {radius distance k : Int} (hr : 0 ≤ radius) (hd : 0 ≤ distance)
    (hk : 0 ≤ k) : k ≤ halfWidth radius distance ↔ k ^ 2 + distance ^ 2 ≤ radius ^ 2 := by
  rw [halfWidth]
  split
  · next beyond =>
    constructor
    · omega
    · intro h
      nlinarith
  · next within =>
    have square : 0 ≤ radius * radius - distance * distance := by nlinarith
    obtain ⟨k, rfl⟩ := Int.eq_ofNat_of_zero_le hk
    obtain ⟨n, hn⟩ := Int.eq_ofNat_of_zero_le square
    rw [hn, Int.toNat_natCast, Int.ofNat_le, Root.le_floorSqrt_iff, ← Int.ofNat_le]
    push_cast
    constructor
    · intro h
      linarith [sq (k : Int), sq distance, sq radius]
    · intro h
      linarith [sq (k : Int), sq distance, sq radius]

/-- Rows further out are not wider. -/
theorem halfWidth_succ_le {radius distance : Int} (hr : 0 ≤ radius) (hd : 0 ≤ distance) :
    halfWidth radius (distance + 1) ≤ halfWidth radius distance := by
  by_cases h : 0 ≤ halfWidth radius (distance + 1)
  · have widest := (le_halfWidth_iff hr (by omega) h).mp (Int.le_refl _)
    refine (le_halfWidth_iff hr hd h).mpr ?_
    nlinarith
  · have := neg_one_le_halfWidth radius distance
    omega

section Circle

variable {center p : Point} {radius : Int}

theorem inDisc_iff (hr : 0 ≤ radius) :
    InDisc center radius p ↔
      ((p.x - center.x).natAbs : Int) ≤ halfWidth radius (p.y - center.y).natAbs := by
  rw [le_halfWidth_iff hr (Int.natCast_nonneg _) (Int.natCast_nonneg _), Int.natAbs_sq,
    Int.natAbs_sq, InDisc]

theorem le_radius_of_le_halfWidth {distance k : Int} (hk : 0 ≤ k)
    (h : k ≤ halfWidth radius distance) : distance ≤ radius := by
  apply Int.le_of_not_gt
  intro beyond
  rw [halfWidth_of_lt beyond] at h
  omega

theorem y_of_mem_circleRow {filled : Bool} {y : Int} {s : Span}
    (h : s ∈ circleRow center radius filled y) : s.y = y := by
  cases filled with
  | true => exact congrArg Span.y (List.mem_singleton.mp h)
  | false =>
    simp only [circleRow, Bool.false_eq_true, if_false, List.mem_cons, List.not_mem_nil,
      or_false] at h
    rcases h with rfl | rfl <;> rfl

/-- A circle has those points of its rows that are no further from the center row than the
radius. -/
theorem covers_circle_iff_row {height : Nat} {filled : Bool} (hy : 0 ≤ p.y) (hh : p.y < height) :
    Span.Covers (circle height center radius filled) p ↔
      ((p.y - center.y).natAbs : Int) ≤ radius ∧
        Span.Covers (circleRow center radius filled p.y) p := by
  simp only [Span.Covers, circle, List.mem_flatMap, mem_between]
  constructor
  · rintro ⟨s, ⟨y, rows, hs⟩, place⟩
    obtain rfl : p.y = y := place.1.trans (y_of_mem_circleRow hs)
    exact ⟨by omega, s, hs, place⟩
  · rintro ⟨near, s, hs, place⟩
    exact ⟨s, ⟨p.y, by omega, hs⟩, place⟩

/-- A filled circle has the points that its rows reach. -/
theorem covers_filled_circle_iff {height : Nat} (hy : 0 ≤ p.y) (hh : p.y < height) :
    Span.Covers (circle height center radius true) p ↔
      ((p.x - center.x).natAbs : Int) ≤ halfWidth radius (p.y - center.y).natAbs := by
  rw [covers_circle_iff_row hy hh]
  simp only [Span.Covers, circleRow, if_true, List.mem_singleton, exists_eq_left]
  constructor
  · rintro ⟨-, -, left, right⟩
    simp only at left right
    omega
  · intro within
    refine ⟨le_radius_of_le_halfWidth (Int.natCast_nonneg _) within, rfl, ?_, ?_⟩
    · simp only
      omega
    · simp only
      omega

/-- The outline has the points of the disc that the row has no room for within what the
next row outward reaches. -/
theorem covers_circle_iff {height : Nat} (hy : 0 ≤ p.y) (hh : p.y < height) :
    Span.Covers (circle height center radius false) p ↔
      min (halfWidth radius ((p.y - center.y).natAbs + 1) + 1)
          (halfWidth radius (p.y - center.y).natAbs) ≤ (p.x - center.x).natAbs ∧
        ((p.x - center.x).natAbs : Int) ≤ halfWidth radius (p.y - center.y).natAbs := by
  have inner := neg_one_le_halfWidth radius ((p.y - center.y).natAbs + 1)
  rw [covers_circle_iff_row hy hh]
  simp only [Span.Covers, circleRow, Bool.false_eq_true, if_false, List.mem_cons, List.not_mem_nil,
    or_false]
  constructor
  · rintro ⟨near, s, hs, place⟩
    have outer : 0 ≤ halfWidth radius (p.y - center.y).natAbs := halfWidth_nonneg near
    rcases hs with rfl | rfl
    · have := place.2
      simp only at this
      omega
    · have := place.2
      simp only at this
      omega
  · rintro ⟨between, within⟩
    refine ⟨le_radius_of_le_halfWidth (Int.natCast_nonneg _) within, ?_⟩
    by_cases left : p.x ≤ center.x
    · exact ⟨_, .inl rfl, rfl, by simp only; omega, by simp only; omega⟩
    · exact ⟨_, .inr rfl, rfl, by simp only; omega, by simp only; omega⟩

/-- All neighbors of a point lie in the disc if those away from the middle do. -/
theorem strictlyInside_iff_le_halfWidth (hr : 0 ≤ radius) :
    StrictlyInside center radius p ↔
      ((p.x - center.x).natAbs : Int) + 1 ≤ halfWidth radius (p.y - center.y).natAbs ∧
        ((p.x - center.x).natAbs : Int) ≤ halfWidth radius ((p.y - center.y).natAbs + 1) := by
  obtain ⟨px, py⟩ := p
  simp only [StrictlyInside, Point.neighbors, List.forall_mem_cons, List.not_mem_nil, false_implies,
    implies_true, and_true, inDisc_iff hr]
  generalize hu : (px - center.x).natAbs = u
  generalize hd : (py - center.y).natAbs = d
  have beside : ((px - 1 - center.x).natAbs = u + 1 ∨ (px + 1 - center.x).natAbs = u + 1) ∧
      (px - 1 - center.x).natAbs ≤ u + 1 ∧ (px + 1 - center.x).natAbs ≤ u + 1 := by omega
  -- one row is further out, and the other one is too or lies further in
  have rows : ((py - 1 - center.y).natAbs = d + 1 ∨ (py + 1 - center.y).natAbs = d + 1) ∧
      ((py - 1 - center.y).natAbs = d + 1 ∨ (py - 1 - center.y).natAbs + 1 = d) ∧
      ((py + 1 - center.y).natAbs = d + 1 ∨ (py + 1 - center.y).natAbs + 1 = d) := by omega
  have narrower (e : Nat) (he : e + 1 = d) : halfWidth radius d ≤ halfWidth radius e := by
    rw [← he]
    exact_mod_cast halfWidth_succ_le hr (Int.natCast_nonneg e)
  constructor
  · rintro ⟨up, down, left, right⟩
    constructor
    · rcases beside.1 with h | h
      · rw [h] at left
        exact_mod_cast left
      · rw [h] at right
        exact_mod_cast right
    · rcases rows.1 with h | h
      · rw [h] at up
        exact_mod_cast up
      · rw [h] at down
        exact_mod_cast down
  · rintro ⟨wide, outward⟩
    have vertical (e : Nat) (he : e = d + 1 ∨ e + 1 = d) : (u : Int) ≤ halfWidth radius e := by
      rcases he with rfl | he
      · exact_mod_cast outward
      · have := narrower e he
        omega
    exact ⟨vertical _ rows.2.1, vertical _ rows.2.2, by omega, by omega⟩

/-- The points of the disc that are not on the outline are those strictly inside. -/
theorem strictlyInside_iff {height : Nat} (hr : 0 ≤ radius) (hy : 0 ≤ p.y) (hh : p.y < height) :
    InDisc center radius p ∧ ¬ Span.Covers (circle height center radius false) p ↔
      StrictlyInside center radius p := by
  rw [strictlyInside_iff_le_halfWidth hr, covers_circle_iff hy hh, inDisc_iff hr]
  omega

end Circle

/-- Whether a point lies inside the bounds and on none of them. -/
def Box.StrictlyContains (b : Box) (p : Point) : Prop :=
  b.left < p.x ∧ p.x < b.right ∧ b.top < p.y ∧ p.y < b.bottom

instance (b : Box) (p : Point) : Decidable (b.StrictlyContains p) :=
  inferInstanceAs (Decidable (_ ∧ _ ∧ _ ∧ _))

/-- Beside a point strictly inside the bounds there are such points and the outline. -/
theorem Box.covers_outline_of_adjacent {b : Box} {p q : Point} (inside : b.StrictlyContains p)
    (adjacent : p.Adjacent q) (beyond : ¬ b.StrictlyContains q) : Span.Covers b.outline q := by
  obtain ⟨qx, qy⟩ := q
  simp only [StrictlyContains, Point.Adjacent] at inside adjacent beyond
  simp only [Span.Covers, outline, List.mem_cons, List.mem_flatMap, mem_between, List.not_mem_nil,
    or_false]
  by_cases top : qy = b.top
  · exact ⟨_, .inl rfl, top, by simp only; omega, by simp only; omega⟩
  by_cases bottom : qy = b.bottom
  · exact ⟨_, .inr (.inl rfl), bottom, by simp only; omega, by simp only; omega⟩
  by_cases left : qx = b.left
  · refine ⟨_, .inr (.inr ⟨qy, by omega, .inl rfl⟩), Span.contains_ofPoint.mpr ?_⟩
    rw [left]
  · refine ⟨_, .inr (.inr ⟨qy, by omega, .inr rfl⟩), Span.contains_ofPoint.mpr ?_⟩
    rw [show qx = b.right by omega]

/-- A rectangle with a point strictly inside it is not cut away altogether. -/
theorem rectangle_of_strictlyContains {width height : Nat} {a b p : Point}
    (inside : (Box.ofCorners width height a b).StrictlyContains p) :
    rectangle width height a b false = (Box.ofCorners width height a b).outline := by
  have filled : (Box.ofCorners width height a b).isEmpty = false := by
    simp only [Box.StrictlyContains] at inside
    simp only [Box.isEmpty, Bool.or_eq_false_iff, decide_eq_false_iff_not]
    omega
  simp only [rectangle, filled, Bool.false_eq_true, if_false]

end Shape

namespace Grid

open Shape

variable {g : Grid Color} {wall ink : Color} {p q : Point}

theorem contains_of_floodFill_ne (changed : (g.floodFill p ink).get? q ≠ g.get? q) :
    g.Contains q := by
  apply Classical.byContradiction
  intro outside
  have outside' : ¬ (g.floodFill p ink).Contains q := by
    rwa [Contains, width_floodFill, height_floodFill]
  exact changed ((get?_eq_none outside').trans (get?_eq_none outside).symm)

/-- Painted points have the color of the paint. -/
theorem get?_foldl_paint_of_covers {spans : List Span} (covered : Span.Covers spans q)
    (inside : (spans.foldl (·.paint wall ·) g).Contains q) :
    (spans.foldl (·.paint wall ·) g).get? q = some wall := by
  rw [Contains, width_foldl_paint, height_foldl_paint] at inside
  rw [get?_foldl_paint, if_pos ⟨covered, inside⟩]

theorem circle_holds_fill {center : Point} {radius : Int} (hr : 0 ≤ radius) :
    let drawn := (circle g.height center radius false).foldl (·.paint wall ·) g
    StrictlyInside center radius p → drawn.get? p ≠ some wall →
    (drawn.floodFill p ink).get? q ≠ drawn.get? q →
      InDisc center radius q ∧ ¬ Span.Covers (circle g.height center radius false) q := by
  intro drawn start other changed
  have onSurface (q : Point) (hq : drawn.Contains q) : 0 ≤ q.y ∧ q.y < g.height := by
    obtain ⟨-, -, hy, hh⟩ := hq
    rw [height_foldl_paint] at hh
    exact ⟨hy, hh⟩
  have inside (q : Point) (hq : drawn.Contains q) :
      InDisc center radius q ∧ ¬ Span.Covers (circle g.height center radius false) q ↔
        StrictlyInside center radius q :=
    strictlyInside_iff hr (onSurface q hq).1 (onSurface q hq).2
  have closed (a b : Point) (ha : StrictlyInside center radius a) (adjacent : a.Adjacent b)
      (hb : drawn.Contains b) : StrictlyInside center radius b ∨ drawn.get? b = some wall := by
    by_cases outline : Span.Covers (circle g.height center radius false) b
    · exact .inr (get?_foldl_paint_of_covers outline hb)
    · exact .inl ((inside b hb).mp ⟨ha b (Point.mem_neighbors.mpr adjacent), outline⟩)
  exact (inside q (contains_of_floodFill_ne changed)).mpr
    (mem_of_floodFill_ne closed start other changed)

theorem rectangle_holds_fill {a b : Point} :
    let drawn := (rectangle g.width g.height a b false).foldl (·.paint wall ·) g
    (Box.ofCorners g.width g.height a b).StrictlyContains p → drawn.get? p ≠ some wall →
    (drawn.floodFill p ink).get? q ≠ drawn.get? q →
      (Box.ofCorners g.width g.height a b).StrictlyContains q := by
  intro drawn start other changed
  have closed (c d : Point) (hc : (Box.ofCorners g.width g.height a b).StrictlyContains c)
      (adjacent : c.Adjacent d) (hd : drawn.Contains d) :
      (Box.ofCorners g.width g.height a b).StrictlyContains d ∨ drawn.get? d = some wall := by
    by_cases inside : (Box.ofCorners g.width g.height a b).StrictlyContains d
    · exact .inl inside
    · refine .inr (get?_foldl_paint_of_covers ?_ hd)
      rw [rectangle_of_strictlyContains hc]
      exact Box.covers_outline_of_adjacent hc adjacent inside
  exact mem_of_floodFill_ne closed start other changed

end Grid

namespace Screen

/-- An outline in a color holds a fill that starts strictly inside it at a point of
another color, wherever the shape lies and whatever was drawn before: nothing changes but
points strictly inside. A point is certainly inside the outline of a circle if its four
neighbors lie in the disc. The radius must not be negative, for then nothing is drawn. -/
theorem closed_outlines_hold_fill (s : Screen) (c : Color) (x y : Int32) :
    (∀ cx cy r : Int32, 0 ≤ r.toInt →
      let drawn := s.apply (.circle cx cy r false (some c))
      let outline := Shape.circle s.surface.pixels.height (point cx cy) r.toInt false
      (∀ q ∈ (point x y).neighbors, Shape.InDisc (point cx cy) r.toInt q) →
      drawn.surface.pixels.get? (point x y) ≠ some c →
      ∀ q, (drawn.apply (.fill x y)).surface.pixels.get? q ≠ drawn.surface.pixels.get? q →
        Shape.InDisc (point cx cy) r.toInt q ∧ ¬ Span.Covers outline q) ∧
    ∀ x₁ y₁ x₂ y₂ : Int32,
      let drawn := s.apply (.rectangle x₁ y₁ x₂ y₂ false (some c))
      let box := Shape.Box.ofCorners s.surface.pixels.width s.surface.pixels.height
        (point x₁ y₁) (point x₂ y₂)
      box.StrictlyContains (point x y) →
      drawn.surface.pixels.get? (point x y) ≠ some c →
      ∀ q, (drawn.apply (.fill x y)).surface.pixels.get? q ≠ drawn.surface.pixels.get? q →
        box.StrictlyContains q := by
  constructor
  · intro cx cy r hr drawn outline start other q changed
    exact Grid.circle_holds_fill hr start other changed
  · intro x₁ y₁ x₂ y₂ drawn box start other q changed
    exact Grid.rectangle_holds_fill start other changed

/-- A circle and a rectangle that reach beyond two edges of a small surface. -/
theorem closed_outlines_hold_fill_cornered :
    let s := empty 2 1
    let ring := s.apply (.circle 1 5 4 false (some 2))
    let frame := s.apply (.rectangle (-3) 2 6 20 false (some 2))
    (∀ q ∈ (point 1 5).neighbors, Shape.InDisc (point 1 5) 4 q) ∧
      ring.surface.pixels.get? (point 1 5) = some 15 ∧
      (ring.apply (.fill 1 5)).surface.pixels.get? ⟨3, 5⟩ = some 14 ∧
      Shape.InDisc (point 1 5) 4 ⟨3, 5⟩ ∧
      ¬ Span.Covers (Shape.circle 8 (point 1 5) 4 false) ⟨3, 5⟩ ∧
      frame.surface.pixels.get? (point 1 5) = some 15 ∧
      (frame.apply (.fill 1 5)).surface.pixels.get? ⟨5, 6⟩ = some 14 ∧
      (Shape.Box.ofCorners 12 8 (point (-3) 2) (point 6 20)).StrictlyContains ⟨5, 6⟩ := by
  intro s ring frame
  obtain ⟨circles, rectangles⟩ := closed_outlines_hold_fill s 2 1 5
  have start : ∀ q ∈ (point 1 5).neighbors, Shape.InDisc (point 1 5) 4 q := by decide
  have plain : ring.surface.pixels.get? (point 1 5) = some 15 := by decide +kernel
  have filled : (ring.apply (.fill 1 5)).surface.pixels.get? ⟨3, 5⟩ = some 14 := by
    decide +kernel
  have inRing := circles 1 5 4 (by decide) start (by rw [plain]; decide) ⟨3, 5⟩
    (by rw [filled]; decide +kernel)
  have plain' : frame.surface.pixels.get? (point 1 5) = some 15 := by decide +kernel
  have filled' : (frame.apply (.fill 1 5)).surface.pixels.get? ⟨5, 6⟩ = some 14 := by
    decide +kernel
  have inFrame := rectangles (-3) 2 6 20 (by decide) (by rw [plain']; decide) ⟨5, 6⟩
    (by rw [filled']; decide +kernel)
  exact ⟨start, plain, filled, inRing.1, inRing.2, plain', filled', inFrame⟩

/-- A circle with a negative radius has no outline, so a fill inside of what would be its
disc is not held. -/
theorem not_closed_outlines_hold_fill :
    ¬ ∀ (s : Screen) (c : Color) (x y cx cy r : Int32),
      let drawn := s.apply (.circle cx cy r false (some c))
      let outline := Shape.circle s.surface.pixels.height (point cx cy) r.toInt false
      (∀ q ∈ (point x y).neighbors, Shape.InDisc (point cx cy) r.toInt q) →
      drawn.surface.pixels.get? (point x y) ≠ none →
      drawn.surface.pixels.get? (point x y) ≠ some c →
      ∀ q, (drawn.apply (.fill x y)).surface.pixels.get? q ≠ drawn.surface.pixels.get? q →
        Shape.InDisc (point cx cy) r.toInt q ∧ ¬ Span.Covers outline q := by
  intro held
  have corner := held (empty 1 1) 2 3 4 3 4 (-1) (by decide) (by decide +kernel)
    (by decide +kernel) ⟨0, 0⟩ (by decide +kernel)
  exact absurd corner.1 (by decide)

end Screen

end LineBasic
