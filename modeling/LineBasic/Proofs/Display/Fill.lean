import LineBasic.Display.Screen
import Mathlib.Logic.Relation

/-!
# Filling a region

The region of a point is what can be reached from it in steps up, down, left and right
without leaving its color. Filling keeps a list of pending points, and what is left to
recolor is at any time what the pending points are connected to in the picture as it is
by then (`connected_iff_set`). So the order in which points are visited and how often
does not matter.

Main statements: `Grid.get?_recolor`, and `Screen.fill_recolors_region` for the screen.
-/

namespace LineBasic

/-- Whether the points are next to each other in a row or in a column. -/
def Point.Adjacent (p q : Point) : Prop := (p.x - q.x).natAbs + (p.y - q.y).natAbs = 1

instance (p q : Point) : Decidable (p.Adjacent q) := inferInstanceAs (Decidable (_ = _))

theorem Point.mem_neighbors {p q : Point} : q ∈ p.neighbors ↔ p.Adjacent q := by
  obtain ⟨px, py⟩ := p
  obtain ⟨qx, qy⟩ := q
  simp only [neighbors, Adjacent, List.mem_cons, List.not_mem_nil, or_false, mk.injEq]
  omega

namespace Grid

variable {α : Type} {g : Grid α} {v old new : α} {p q : Point} {pending : List Point}

/-- Whether one step leads from a point to another one that has the color. -/
def Joins (g : Grid α) (v : α) (p q : Point) : Prop := p.Adjacent q ∧ g.get? q = some v

/-- Whether a path of adjacent points that all have the color leads from one point to
the other. -/
def Connected (g : Grid α) (v : α) (p q : Point) : Prop :=
  g.get? p = some v ∧ Relation.ReflTransGen (g.Joins v) p q

theorem Connected.self (h : g.get? p = some v) : g.Connected v p p := ⟨h, .refl⟩

theorem Connected.step {r : Point} (path : g.Connected v p q) (adjacent : q.Adjacent r)
    (h : g.get? r = some v) : g.Connected v p r :=
  ⟨path.1, path.2.tail ⟨adjacent, h⟩⟩

/-- Both ends of a path have its color. -/
theorem Connected.get?_eq (path : g.Connected v p q) : g.get? q = some v := by
  obtain ⟨first, steps⟩ := path
  cases steps with
  | refl => exact first
  | tail _ last => exact last.2

/-- Writing another color takes a point out of its color and adds none to it. -/
theorem get?_set_eq_old_iff (h : new ≠ old) :
    (g.set p new).get? q = some old ↔ q ≠ p ∧ g.get? q = some old := by
  rw [get?_set]
  split
  · next written => simp [h, written.1]
  · next kept =>
    constructor
    · intro hq
      refine ⟨?_, hq⟩
      rintro rfl
      exact kept ⟨rfl, contains_of_get? hq⟩
    · exact fun hq => hq.2

/-- Behind its last visit of `p` a path avoids `p`, and it starts at a neighbor. -/
theorem exists_connected_set_of_connected (h : new ≠ old) {a : Point} (ha : a ∈ p :: pending)
    (path : g.Connected old a q) :
    q = p ∨ ∃ b ∈ p.neighbors ++ pending, (g.set p new).Connected old b q := by
  obtain ⟨first, steps⟩ := path
  induction steps with
  | refl =>
      rcases List.mem_cons.mp ha with rfl | ha
      · exact .inl rfl
      · by_cases same : a = p
        · exact .inl same
        · refine .inr ⟨a, List.mem_append_right _ ha, .self ?_⟩
          exact (get?_set_eq_old_iff h).mpr ⟨same, first⟩
  | @tail q r _ last ih =>
      by_cases same : r = p
      · exact .inl same
      · have kept := (get?_set_eq_old_iff h).mpr ⟨same, last.2⟩
        rcases ih with rfl | ⟨b, hb, path⟩
        · refine .inr ⟨r, List.mem_append_left _ ?_, .self kept⟩
          exact Point.mem_neighbors.mpr last.1
        · exact .inr ⟨b, hb, path.step last.1 kept⟩

/-- A path that is left after `p` was recolored starts next to `p` or at another point. -/
theorem exists_connected_of_connected_set (h : new ≠ old) (hp : g.get? p = some old) {b : Point}
    (hb : b ∈ p.neighbors ++ pending) (path : (g.set p new).Connected old b q) :
    ∃ a ∈ p :: pending, g.Connected old a q := by
  obtain ⟨first, steps⟩ := path
  induction steps with
  | refl =>
      have first := ((get?_set_eq_old_iff h).mp first).2
      rcases List.mem_append.mp hb with hb | hb
      · exact ⟨p, List.mem_cons_self, (Connected.self hp).step (Point.mem_neighbors.mp hb) first⟩
      · exact ⟨b, List.mem_cons_of_mem p hb, .self first⟩
  | tail _ last ih =>
      obtain ⟨a, ha, path⟩ := ih
      exact ⟨a, ha, path.step last.1 ((get?_set_eq_old_iff h).mp last.2).2⟩

/-- What the pending points are connected to is the first of them, and whatever its
neighbors and the other ones are connected to once it is recolored. -/
theorem connected_iff_set (h : new ≠ old) (hp : g.get? p = some old) :
    (∃ a ∈ p :: pending, g.Connected old a q) ↔
      q = p ∨ ∃ b ∈ p.neighbors ++ pending, (g.set p new).Connected old b q := by
  constructor
  · rintro ⟨a, ha, path⟩
    exact exists_connected_set_of_connected h ha path
  · rintro (rfl | ⟨b, hb, path⟩)
    · exact ⟨q, List.mem_cons_self, .self hp⟩
    · exact exists_connected_of_connected_set h hp hb path

open Classical in
/-- Recoloring changes exactly the points that the pending ones are connected to. -/
theorem get?_recolor [DecidableEq α] (h : new ≠ old) (g : Grid α) (pending : List Point)
    (q : Point) :
    (g.recolor old new h pending).get? q =
      if ∃ a ∈ pending, g.Connected old a q then some new else g.get? q := by
  fun_induction recolor old new h g pending with
  | case1 g => simp
  | case2 g p pending hp ih =>
      rw [ih, get?_set]
      have region : (∃ a ∈ p :: pending, g.Connected old a q) ↔ _ := connected_iff_set h hp
      by_cases same : q = p
      · subst same
        rw [if_pos (region.mpr (.inl rfl)), ite_eq_left_iff]
        intro _
        exact if_pos ⟨rfl, contains_of_get? hp⟩
      · rw [or_iff_right same] at region
        have kept : ¬ (p = q ∧ g.Contains q) := fun other => same other.1.symm
        simp only [region, if_neg kept]
  | case3 g p pending hp ih =>
      have region : (∃ a ∈ p :: pending, g.Connected old a q) ↔
          ∃ a ∈ pending, g.Connected old a q := by
        constructor
        · rintro ⟨a, ha, path⟩
          rcases List.mem_cons.mp ha with rfl | ha
          · exact absurd path.1 hp
          · exact ⟨a, ha, path⟩
        · rintro ⟨a, ha, path⟩
          exact ⟨a, List.mem_cons_of_mem p ha, path⟩
      rw [ih]
      simp only [region]

@[simp] theorem width_floodFill [DecidableEq α] (g : Grid α) (p : Point) (new : α) :
    (g.floodFill p new).width = g.width := by
  rw [floodFill]
  split
  · rfl
  · split
    · rfl
    · exact width_recolor _ _ _ _ _

@[simp] theorem height_floodFill [DecidableEq α] (g : Grid α) (p : Point) (new : α) :
    (g.floodFill p new).height = g.height := by
  rw [floodFill]
  split
  · rfl
  · split
    · rfl
    · exact height_recolor _ _ _ _ _

/-- Off the grid, and where the color is there already, nothing is filled. -/
theorem floodFill_eq_self [DecidableEq α] (h : g.get? p = none ∨ g.get? p = some new) :
    g.floodFill p new = g := by
  rw [floodFill]
  rcases h with h | h
  · rw [h]
  · simp only [h, dite_true]

open Classical in
theorem get?_floodFill [DecidableEq α] (hp : g.get? p = some old) (h : new ≠ old) (q : Point) :
    (g.floodFill p new).get? q = if g.Connected old p q then some new else g.get? q := by
  have region : (∃ a ∈ [p], g.Connected old a q) ↔ g.Connected old p q := by simp
  simp only [floodFill, hp, dif_neg h, get?_recolor h, region]

end Grid

/-- Next to a point of a grid whose size fits in a coordinate there are only points whose
coordinates fit. -/
theorem Point.exists_point_of_mem_neighbors {α : Type} {g : Grid α} (width : g.width < 2147483648)
    (height : g.height < 2147483648) {p q : Point} (hp : g.Contains p) (hq : q ∈ p.neighbors) :
    ∃ x y : Int32, Screen.point x y = q := by
  obtain ⟨px, py⟩ := p
  obtain ⟨qx, qy⟩ := q
  have adjacent := mem_neighbors.mp hq
  simp only [Grid.Contains, Adjacent] at hp adjacent
  refine ⟨Int32.ofInt qx, Int32.ofInt qy, ?_⟩
  rw [Screen.point, Int32.toInt_ofInt_of_le, Int32.toInt_ofInt_of_le]
  all_goals omega

namespace Screen

theorem apply_fill (s : Screen) (x y : Int32) :
    s.apply (.fill x y) =
      { page := s.page
        surface :=
          { pixels := s.surface.pixels.floodFill (point x y) s.surface.ink
            ink := s.surface.ink
            dirty := s.surface.dirty ||
              (s.surface.pixels.get? (point x y)).any (· != s.surface.ink) } } := rfl

/-- Filling recolors exactly the region of the point in the ink. Off the surface, and
where the ink is already, it does nothing at all. The points that it looks at, which are
the point itself and the neighbors of its region, have coordinates in range if the size
of the surface is. -/
theorem fill_recolors_region (s : Screen) (x y : Int32) :
    let p := point x y
    let pixels := s.surface.pixels
    let ink := s.surface.ink
    let s' := s.apply (.fill x y)
    (pixels.get? p = none ∨ pixels.get? p = some ink → s' = s) ∧
    ∀ old, pixels.get? p = some old → old ≠ ink →
      (∀ q, pixels.Connected old p q → s'.surface.pixels.get? q = some ink) ∧
      (∀ q, ¬ pixels.Connected old p q → s'.surface.pixels.get? q = pixels.get? q) ∧
      s'.surface.pixels.width = pixels.width ∧ s'.surface.pixels.height = pixels.height ∧
      s'.surface.dirty = true ∧ s'.surface.ink = ink ∧ s'.page = s.page ∧
      (pixels.width < 2147483648 → pixels.height < 2147483648 →
        ∀ q, pixels.Connected old p q → ∀ r ∈ q.neighbors, ∃ x' y', point x' y' = r) := by
  intro p pixels ink s'
  have filled : s' = _ := apply_fill s x y
  constructor
  · intro nothing
    have clean : (pixels.get? p).any (· != ink) = false := by
      rcases nothing with h | h <;> simp [h]
    rw [filled, Grid.floodFill_eq_self nothing, clean, Bool.or_false]
  · intro old start other
    have dirty : (pixels.get? p).any (· != ink) = true := by simp [start, other]
    rw [filled]
    refine ⟨?_, ?_, Grid.width_floodFill _ _ _, Grid.height_floodFill _ _ _, ?_, rfl, rfl, ?_⟩
    · intro q path
      exact (Grid.get?_floodFill start other.symm q).trans (if_pos path)
    · intro q apart
      exact (Grid.get?_floodFill start other.symm q).trans (if_neg apart)
    · exact (congrArg (s.surface.dirty || ·) dirty).trans (Bool.or_true _)
    · intro width height q path r hr
      exact Point.exists_point_of_mem_neighbors width height (Grid.contains_of_get? path.get?_eq) hr

/-- A wall divides the surface of one cell into an upper and a lower part. -/
def divided : Screen := (Screen.empty 1 1).apply (.line 0 3 5 3 (some 2))

/-- No path leads through the wall. -/
private theorem above_of_connected_divided {q : Point}
    (path : divided.surface.pixels.Connected 15 (point 0 0) q) : q.y < 3 := by
  have wall : ∀ i < 6, divided.surface.pixels.get? ⟨(i : Nat), 3⟩ = some 2 := by decide +kernel
  obtain ⟨-, steps⟩ := path
  induction steps with
  | refl => decide
  | @tail q r _ last ih =>
      obtain ⟨adjacent, color⟩ := last
      obtain ⟨left, right, -, -⟩ := Grid.contains_of_get? color
      have width : divided.surface.pixels.width = 6 := by decide +kernel
      rw [Point.Adjacent] at adjacent
      apply Int.lt_of_not_ge
      intro below
      have place : r = ⟨(r.x.toNat : Int), 3⟩ := by
        obtain ⟨rx, ry⟩ := r
        simp only [Point.mk.injEq] at *
        omega
      rw [place, wall r.x.toNat (by omega)] at color
      exact absurd color (by decide)

theorem fill_recolors_region_divided :
    divided.surface.pixels.get? (point 0 0) = some 15 ∧ divided.surface.ink = 14 ∧
      (divided.apply (.fill 0 0)).surface.pixels.get? ⟨0, 1⟩ = some 14 ∧
      (divided.apply (.fill 0 0)).surface.pixels.get? ⟨0, 4⟩ = some 15 ∧
      (divided.apply (.fill 0 0)).surface.dirty = true ∧
      divided.surface.pixels.get? (point (-1) 0) = none ∧
      divided.apply (.fill (-1) 0) = divided := by
  have start : divided.surface.pixels.get? (point 0 0) = some 15 := by decide +kernel
  have ink : divided.surface.ink = 14 := by decide +kernel
  have other : (15 : Color) ≠ divided.surface.ink := by rw [ink]; decide
  have outside : divided.surface.pixels.get? (point (-1) 0) = none := by decide +kernel
  have path : divided.surface.pixels.Connected 15 (point 0 0) ⟨0, 1⟩ :=
    (Grid.Connected.self start).step (by decide) (by decide +kernel)
  have apart : ¬ divided.surface.pixels.Connected 15 (point 0 0) ⟨0, 4⟩ :=
    fun path => absurd (above_of_connected_divided path) (by decide)
  have blank : divided.surface.pixels.get? ⟨0, 4⟩ = some 15 := by decide +kernel
  obtain ⟨inside, beyond, -, -, dirty, -⟩ := (fill_recolors_region divided 0 0).2 15 start other
  exact ⟨start, ink, ink ▸ inside ⟨0, 1⟩ path, (beyond ⟨0, 4⟩ apart).trans blank, dirty, outside,
    (fill_recolors_region divided (-1) 0).1 (.inl outside)⟩

end Screen

end LineBasic
