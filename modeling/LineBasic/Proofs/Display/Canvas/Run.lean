import LineBasic.Proofs.Display.Canvas.Fill
import LineBasic.Proofs.Display.Canvas.Line
import LineBasic.Proofs.Display.Canvas.Shapes
import LineBasic.Proofs.Display.Canvas.Text

/-!
# The canvas in use

A canvas whose pixels can be counted in 32 bits takes every sequence of commands: no
number leaves its word, no place lies outside its array, and every loop ends. It holds
the screen that the commands lead to, so it keeps its size, its cursor is on the page
and its colors are of the palette.

Main statement: `Canvas.run_wellFormed`.
-/

namespace LineBasic.Canvas

open Word

variable {s : Screen}

/-- A command does to the canvas what it does to the screen. -/
theorem apply_eq (h : s.Bounded) (command : Display.Command) :
    (ofScreen s).apply command = some (ofScreen (s.apply command)) := by
  have fits := h.pixels
  cases command with
  | character c => exact addChar_eq h c
  | textColor color => rfl
  | backgroundColor color => rfl
  | clearScreen => exact congrArg some clearScreen_eq
  | clearGraphics => exact congrArg some clearGraphics_eq
  | moveTo column row => exact moveCursorTo_eq h column row
  | pixel x y color =>
    have hx := x.toInt_lt
    have hy := y.toInt_lt
    exact Paints.set fits (color.getD s.surface.ink) (by omega) (by omega) s rfl rfl
  | line x₁ y₁ x₂ y₂ color => exact drawLine_eq fits x₁ y₁ x₂ y₂ color
  | rectangle x₁ y₁ x₂ y₂ filled color => exact drawRectangle_eq fits x₁ y₁ x₂ y₂ filled color
  | circle x y radius filled color =>
    exact drawCircle_eq close_estimateRoot fits x y radius filled color
  | fill x y => exact floodFill_eq fits x y

theorem run_eq (h : s.Bounded) (commands : List Display.Command) :
    (ofScreen s).run commands = some (ofScreen (s.run commands)) := by
  induction commands generalizing s with
  | nil => rfl
  | cons command commands ih =>
    rw [run, List.foldlM_cons, Checked.bind_eq (apply_eq h command)]
    exact ih (h.apply command)

theorem create_eq {columns rows : Nat} (width : columns * Screen.cellWidth ≤ 2147483647)
    (height : rows * Screen.cellHeight ≤ 2147483647) :
    create columns rows = some (ofScreen (Screen.empty columns rows)) := by
  obtain ⟨-, -, ⟨hc, hr⟩, ⟨hw, hh⟩⟩ := Screen.bounded_empty width height
  simp only [Screen.empty, Page.empty, Page.columns, Page.rows, Surface.empty, Grid.width_fill,
    Grid.height_fill] at hc hr hw hh
  have cells : max columns 1 * max rows 1 ≤ 2147483647 * 2147483647 := Nat.mul_le_mul hc hr
  have pixels : max columns 1 * Screen.cellWidth * (max rows 1 * Screen.cellHeight) ≤
      2147483647 * 2147483647 := Nat.mul_le_mul hw hh
  simp only [create, ← Int.natCast_mul]
  rw [size_bind (by omega) (by omega), size_bind (by omega) (by omega), Int.toNat_natCast,
    Int.toNat_natCast, size_bind (by omega) (by omega), size_bind (by omega) (by omega)]
  rfl

/-- The arrays have an entry for every place, the cursor is at one of them, and the colors
in use are of the palette. -/
structure WellFormed (c : Canvas) : Prop where
  cells_size : c.cells.size = c.columns * c.rows
  pixels_size : c.pixels.size = c.width * c.height
  column_lt : c.column < c.columns
  row_lt : c.row < c.rows
  textColor_le : c.textColor ≤ 15
  backgroundColor_le : c.backgroundColor ≤ 15
  pixelColor_le : c.pixelColor ≤ 15

theorem wellFormed_ofScreen (h : s.Bounded) : (ofScreen s).WellFormed where
  cells_size := s.page.cells.size_eq
  pixels_size := s.surface.pixels.size_eq
  column_lt := h.page.column_lt
  row_lt := h.page.row_lt
  textColor_le := h.page.color_le
  backgroundColor_le := h.page.background_le
  pixelColor_le := h.ink_le

/-- On a canvas of at least one column and one row whose pixels can be counted in 32 bits,
every sequence of commands runs without an overflow and without an access out of range, and
leaves the canvas well formed and of the same size. -/
theorem run_wellFormed {columns rows : Nat} (width : columns * Screen.cellWidth ≤ 2147483647)
    (height : rows * Screen.cellHeight ≤ 2147483647) (commands : List Display.Command) :
    ∃ c, (create columns rows >>= (·.run commands)) = some c ∧ c.WellFormed ∧
      c.columns = max columns 1 ∧ c.rows = max rows 1 ∧
      c.width = c.columns * Screen.cellWidth ∧ c.height = c.rows * Screen.cellHeight ∧
      c = ofScreen ((Screen.empty columns rows).run commands) := by
  have bounded := Screen.bounded_empty width height
  refine ⟨_, (Checked.bind_eq (create_eq width height) _).trans (run_eq bounded commands),
    wellFormed_ofScreen (bounded.run commands), ?_, ?_, ?_, ?_, rfl⟩
  · exact Screen.columns_run _ commands
  · exact Screen.rows_run _ commands
  · have columns := Screen.columns_run (Screen.empty columns rows) commands
    exact (Screen.width_run _ commands).trans (congrArg (· * Screen.cellWidth) columns.symm)
  · have rows := Screen.rows_run (Screen.empty columns rows) commands
    exact (Screen.height_run _ commands).trans (congrArg (· * Screen.cellHeight) rows.symm)

/-- A canvas without columns is one column wide. The commands name points at both ends of
32 bits. -/
theorem run_wellFormed_far_off :
    let commands : List Display.Command := [
      .textColor 255, .line 0 0 2147483647 (-2147483648) none,
      .circle (-2147483647) 3 2147483647 true (some 200),
      .rectangle (-2147483648) 9 5 2147483647 false none, .fill 1 10,
      .moveTo (some 2147483647) (some 2147483647), .character 'a', .character '\n']
    0 * Screen.cellWidth ≤ 2147483647 ∧ 2 * Screen.cellHeight ≤ 2147483647 ∧
      ∃ c, (create 0 2 >>= (·.run commands)) = some c ∧ c.WellFormed ∧
        c.columns = 1 ∧ c.rows = 2 ∧ c.width = 6 ∧ c.height = 16 ∧
        (c.column, c.row) = (0, 1) := by
  intro commands
  obtain ⟨c, ran, wellFormed, columns, rows, width, height, same⟩ :=
    @run_wellFormed 0 2 (by decide) (by decide) commands
  refine ⟨by decide, by decide, c, ran, wellFormed, columns, rows, ?_, ?_, ?_⟩
  · rw [width, columns]
    rfl
  · rw [height, rows]
    rfl
  · rw [same]
    decide +kernel

end LineBasic.Canvas
