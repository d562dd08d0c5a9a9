import LineBasic.Proofs.Display.Size

/-!
# The bounds of a screen

The cursor never leaves the page and no color in use leaves the palette, whatever
commands come: the cursor moves on to the next row before it would stand behind the last
column, and a place or a color from outside is first brought inside.
-/

namespace LineBasic

/-- The cursor is on the page, and the colors to write in are of the palette. -/
structure Page.Bounded (p : Page) : Prop where
  column_lt : p.column < p.columns
  row_lt : p.row < p.rows
  color_le : p.color ≤ 15
  background_le : p.background ≤ 15

/-- A size that can be counted in 32 bits. -/
structure Countable (width height : Nat) : Prop where
  width_le : width ≤ 2147483647
  height_le : height ≤ 2147483647

/-- The page is bounded, the ink is of the palette, and cells and pixels can be counted. -/
structure Screen.Bounded (s : Screen) : Prop where
  page : s.page.Bounded
  ink_le : s.surface.ink ≤ 15
  cells : Countable s.page.columns s.page.rows
  pixels : Countable s.surface.pixels.width s.surface.pixels.height

namespace Page

theorem clamp_lt {size : Nat} (h : 0 < size) (n : Int32) : clamp size n < size := by
  rw [clamp]
  omega

namespace Bounded

variable {p : Page}

theorem newline (h : p.Bounded) : p.newline.Bounded := by
  have left := Nat.zero_lt_of_lt h.column_lt
  rw [Page.newline]
  split
  · next inside => exact { h with column_lt := left, row_lt := inside }
  · exact { h with column_lt := left, row_lt := Nat.sub_one_lt_of_lt h.row_lt }

theorem put (h : p.Bounded) (c : Char) : (p.put c).Bounded where
  column_lt := Nat.lt_of_lt_of_eq h.column_lt (columns_put p c).symm
  row_lt := Nat.lt_of_lt_of_eq h.row_lt (rows_put p c).symm
  color_le := h.color_le
  background_le := h.background_le

theorem advance (h : p.Bounded) : p.advance.Bounded := by
  rw [Page.advance]
  split
  · next inside => exact { h with column_lt := inside }
  · exact h.newline

theorem write (h : p.Bounded) (c : Char) : (p.write c).Bounded := by
  rw [Page.write]
  split
  · exact h.newline
  · split
    · exact { h with column_lt := Nat.zero_lt_of_lt h.column_lt }
    · exact (h.put c).advance

theorem clear (h : p.Bounded) : p.clear.Bounded :=
  { h with
    column_lt := Nat.zero_lt_of_lt h.column_lt
    row_lt := Nat.zero_lt_of_lt h.row_lt }

theorem moveTo (h : p.Bounded) (column row : Option Int32) : (p.moveTo column row).Bounded where
  column_lt := by
    cases column with
    | none => exact h.column_lt
    | some n => exact clamp_lt (Nat.zero_lt_of_lt h.column_lt) n
  row_lt := by
    cases row with
    | none => exact h.row_lt
    | some n => exact clamp_lt (Nat.zero_lt_of_lt h.row_lt) n
  color_le := h.color_le
  background_le := h.background_le

end Bounded

end Page

namespace Screen

theorem textColor_le (c : Color) : textColor c ≤ 15 := by
  rw [textColor]
  split
  · decide
  · next h => exact UInt8.not_lt.mp h

theorem backgroundColor_le (c : Color) : backgroundColor c ≤ 15 := by
  rw [backgroundColor]
  split
  · exact UInt8.le_refl 15
  · next h => exact UInt8.not_lt.mp h

theorem bounded_empty {columns rows : Nat} (width : columns * cellWidth ≤ 2147483647)
    (height : rows * cellHeight ≤ 2147483647) : (empty columns rows).Bounded where
  page :=
    { column_lt := Nat.lt_of_lt_of_le Nat.zero_lt_one (Nat.le_max_right _ _)
      row_lt := Nat.lt_of_lt_of_le Nat.zero_lt_one (Nat.le_max_right _ _)
      color_le := (by decide : (14 : Color) ≤ 15)
      background_le := (by decide : (0 : Color) ≤ 15) }
  ink_le := (by decide : (14 : Color) ≤ 15)
  cells := by
    simp only [cellWidth, cellHeight] at width height
    refine ⟨?_, ?_⟩ <;> simp only [empty, Page.empty, Page.columns, Page.rows, Grid.width_fill,
      Grid.height_fill] <;> omega
  pixels := by
    simp only [cellWidth, cellHeight] at width height
    refine ⟨?_, ?_⟩ <;> simp only [empty, Surface.empty, cellWidth, cellHeight, Grid.width_fill,
      Grid.height_fill] <;> omega

namespace Bounded

variable {s : Screen}

theorem page_apply (h : s.Bounded) (command : Display.Command) :
    (s.apply command).page.Bounded := by
  cases command with
  | character c => exact h.page.write c
  | textColor c => exact { h.page with color_le := textColor_le c }
  | backgroundColor c => exact { h.page with background_le := backgroundColor_le c }
  | clearScreen => exact h.page.clear
  | moveTo column row => exact h.page.moveTo column row
  | _ => exact h.page

theorem ink_apply (h : s.Bounded) (command : Display.Command) :
    (s.apply command).surface.ink ≤ 15 := by
  cases command with
  | textColor c => exact textColor_le c
  | _ => exact h.ink_le

theorem apply (h : s.Bounded) (command : Display.Command) : (s.apply command).Bounded where
  page := h.page_apply command
  ink_le := h.ink_apply command
  cells := by
    rw [columns_apply, rows_apply]
    exact h.cells
  pixels := by
    rw [width_apply, height_apply]
    exact h.pixels

theorem run (h : s.Bounded) (commands : List Display.Command) : (s.run commands).Bounded := by
  induction commands generalizing s with
  | nil => exact h
  | cons command commands ih => exact ih (h.apply command)

end Bounded

end Screen

end LineBasic
