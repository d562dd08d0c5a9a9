import LineBasic.Proofs.Display.Bounds
import LineBasic.Proofs.Display.Canvas.Basic
import LineBasic.Proofs.Display.Painting

/-!
# Painting on the canvas

What every drawing operation does is to paint spans, and the spans depend on the size of
the surface only. So operations that paint can be done one after the other, or once for
every entry of a list, and the spans are put together in the same way.
-/

namespace LineBasic.Canvas

open Word

/-- On every screen of a size, the operation paints the spans. -/
def Paints (width height : Nat) (color : Color) (spans : List Span)
    (draw : Canvas → Checked Canvas) : Prop :=
  ∀ s : Screen, s.surface.pixels.width = width → s.surface.pixels.height = height →
    draw (ofScreen s) = some (ofScreen (s.paint color spans))

namespace Paints

variable {width height : Nat} {color : Color} {a b : List Span}
  {draw next : Canvas → Checked Canvas}

theorem nothing : Paints width height color [] pure := by
  intro s _ _
  rw [Screen.paint_eq_self s color [] (by simp)]
  rfl

theorem bind (first : Paints width height color a draw)
    (second : Paints width height color b next) :
    Paints width height color (a ++ b) fun c => draw c >>= next := by
  intro s hw hh
  have width' := (Grid.width_foldl_paint s.surface.pixels color a).trans hw
  have height' := (Grid.height_foldl_paint s.surface.pixels color a).trans hh
  simp only [first s hw hh]
  exact (second (s.paint color a) width' height').trans (by rw [Screen.paint_paint])

theorem foldlM {β : Type} {l : List β} {spans : β → List Span} {f : Canvas → β → Checked Canvas}
    (each : ∀ x ∈ l, Paints width height color (spans x) (f · x)) :
    Paints width height color (l.flatMap spans) fun c => l.foldlM f c := by
  induction l with
  | nil => exact nothing
  | cons x l ih =>
    exact (each x (by simp)).bind (ih fun y hy => each y (by simp [hy]))

end Paints

section

variable {s : Screen} {x y : Int}

theorem index_inside (fits : Countable s.surface.pixels.width s.surface.pixels.height)
    (inside : s.surface.pixels.Contains ⟨x, y⟩) :
    (ofScreen s).index x y = some (some (s.surface.pixels.index ⟨x, y⟩)) := by
  obtain ⟨left, right, above, below⟩ := inside
  have width := fits.width_le
  have height := fits.height_le
  simp only at left right above below
  have product : y.toNat * s.surface.pixels.width ≤ 2147483647 * 2147483647 :=
    Nat.mul_le_mul (by omega) width
  simp only [index]
  rw [if_neg (by omega), size_bind (by omega) (by omega), size_bind (by omega) (by omega),
    if_neg (by omega), ← Int.natCast_mul, size_bind (by omega) (by omega), Int.toNat_natCast,
    ← Int.natCast_add, size_bind (by omega) (by omega), Int.toNat_natCast]
  rfl

theorem index_outside (outside : ¬ s.surface.pixels.Contains ⟨x, y⟩)
    (hx : x ≤ 2147483647) (hy : y ≤ 2147483647) : (ofScreen s).index x y = some none := by
  simp only [Grid.Contains] at outside
  simp only [index]
  by_cases negative : x < 0 ∨ y < 0
  · rw [if_pos negative]
    rfl
  · rw [if_neg negative, size_bind (by omega) (by omega), size_bind (by omega) (by omega),
      if_pos (by omega)]
    rfl

theorem pixel_eq (fits : Countable s.surface.pixels.width s.surface.pixels.height)
    (hx : x ≤ 2147483647) (hy : y ≤ 2147483647) :
    (ofScreen s).pixel x y = some (s.surface.pixel? x y) := by
  by_cases inside : s.surface.pixels.Contains ⟨x, y⟩
  · rw [pixel, index_inside fits inside, Surface.pixel?, Grid.get?, dif_pos inside]
    simp [Grid.index_lt inside]
  · rw [pixel, index_outside inside hx hy, Surface.pixel?, Grid.get?_eq_none inside]
    rfl

end

namespace Paints

variable {width height : Nat}

theorem set (fits : Countable width height) (color : Color) {x y : Int} (hx : x ≤ 2147483647)
    (hy : y ≤ 2147483647) :
    Paints width height color [.ofPoint ⟨x, y⟩] (·.set x y color) := by
  rintro s rfl rfl
  dsimp only
  by_cases inside : s.surface.pixels.Contains ⟨x, y⟩
  · rw [Screen.paint_point s color inside, Canvas.set, index_inside fits inside]
    show (Checked.write s.surface.pixels.cells _ color >>= _) = _
    rw [Checked.write_bind (Grid.index_lt inside)]
    simp only [Grid.set, dif_pos inside]
    rfl
  · rw [Canvas.set, index_outside inside hx hy, Screen.paint_eq_self]
    · rfl
    · simpa [Grid.touches_ofPoint] using inside

theorem hline (fits : Countable width height) (color : Color) (x₁ x₂ y : Int) :
    Paints width height color [⟨y, min x₁ x₂, max x₁ x₂⟩] (·.hline x₁ x₂ y color) := by
  have hw := fits.width_le
  have hh := fits.height_le
  rintro s rfl rfl
  simp only [Canvas.hline]
  rw [int64_bind (by omega) (by omega)]
  by_cases outside : y < 0 ∨ s.surface.pixels.height ≤ y
  · rw [if_pos outside, Screen.paint_eq_self]
    · rfl
    · simp [Grid.touches]
      omega
  · rw [if_neg outside, int64_bind (by omega) (by omega), int64_bind (by omega) (by omega),
      ← Screen.paint_points s color (by omega)]
    refine foldlM (fun x hx => ?_) s rfl rfl
    rw [mem_between] at hx
    intro t hw hh
    dsimp only
    rw [int32_bind (by omega) (by omega), int32_bind (by omega) (by omega)]
    exact set fits color (by omega) (by omega) t hw hh

end Paints

end LineBasic.Canvas
