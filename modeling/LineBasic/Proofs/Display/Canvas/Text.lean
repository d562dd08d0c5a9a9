import LineBasic.Proofs.Display.Bounds
import LineBasic.Proofs.Display.Canvas.Basic

/-!
# Text on the canvas

A canvas that holds a screen is left holding the next one by every command that writes
text or moves the cursor. The cell at the cursor is kept before the end of the array
because the cursor is on the page.
-/

namespace LineBasic.Canvas

open Word

theorem cells_scroll {α : Type} {g : Grid α} (v : α) (h : g.width ≤ g.cells.size) :
    (g.scroll v).cells = g.cells.extract g.width g.cells.size ++ .replicate g.width v := by
  have rest : g.width - g.cells.size = 0 := by omega
  have all : g.cells.size + g.width - g.cells.size = g.width := by omega
  have kept : g.cells.extract g.width (g.cells.size + g.width) =
      g.cells.extract g.width g.cells.size :=
    Array.extract_eq_extract_right.mpr (by omega)
  simp only [Grid.scroll, Array.extract_append, rest, all, kept, Array.extract_replicate,
    Nat.min_self, Nat.sub_zero]

variable {s : Screen}

theorem newline_eq (above : s.page.row < s.page.rows) (rows : s.page.rows ≤ 2147483647) :
    (ofScreen s).newline = some (ofScreen { s with page := s.page.newline }) := by
  have next : ((s.page.row : Int) + 1).toNat = s.page.row + 1 := by omega
  have last : ((s.page.rows : Int) - 1).toNat = s.page.rows - 1 := by omega
  have size : s.page.columns ≤ s.page.cells.cells.size := by
    rw [s.page.cells.size_eq]
    exact Nat.le_mul_of_pos_right _ (Nat.zero_lt_of_lt above)
  simp only [ofScreen, Canvas.newline, Page.newline]
  rw [size_bind (by omega) (by omega), next]
  by_cases inside : s.page.row + 1 < s.page.rows
  · rw [if_neg (Nat.not_le.mpr inside), if_pos inside]
    rfl
  · rw [if_pos (Nat.le_of_not_lt inside), if_neg inside, Checked.drop_bind size,
      size_bind (by omega) (by omega), last, cells_scroll _ size]
    rfl

/-- The cursor stands behind the last column only until the row is wrapped. -/
theorem wrap_eq (above : s.page.row < s.page.rows) (rows : s.page.rows ≤ 2147483647) :
    { ofScreen s with column := s.page.column + 1 }.wrap =
      some (ofScreen { s with page := s.page.advance }) := by
  rw [wrap, Page.advance]
  by_cases behind : s.page.columns ≤ s.page.column + 1
  · rw [if_pos behind, if_neg (Nat.not_lt.mpr behind)]
    exact newline_eq (s := { s with page := { s.page with column := s.page.column + 1 } })
      above rows
  · rw [if_neg behind, if_pos (Nat.lt_of_not_le behind)]
    rfl

theorem putChar_eq (h : s.Bounded) (c : Char) :
    (ofScreen s).putChar c = some (ofScreen { s with page := (s.page.put c).advance }) := by
  have left := h.page.column_lt
  have above := h.page.row_lt
  have columns := h.cells.width_le
  have rows := h.cells.height_le
  have inside : s.page.cells.Contains ⟨s.page.column, s.page.row⟩ :=
    ⟨by simp, Int.ofNat_lt.mpr left, by simp, Int.ofNat_lt.mpr above⟩
  have place : s.page.row * s.page.columns + s.page.column < s.page.cells.cells.size :=
    Grid.index_lt inside
  have product : s.page.row * s.page.columns ≤ 2147483647 * 2147483647 :=
    Nat.mul_le_mul (by omega) columns
  have next : ((s.page.column : Int) + 1).toNat = s.page.column + 1 := by omega
  simp only [ofScreen, putChar]
  rw [← Int.natCast_mul, size_bind (by omega) (by omega), Int.toNat_natCast, ← Int.natCast_add,
    size_bind (by omega) (by omega), Int.toNat_natCast, Checked.write_bind place,
    size_bind (by omega) (by omega), next]
  refine Eq.trans ?_ (wrap_eq (s := { s with page := s.page.put c }) (h.page.put c).row_lt
    (Nat.le_trans (Nat.le_of_eq (Page.rows_put s.page c)) rows))
  simp only [Page.put, Grid.set, dif_pos inside]
  rfl

theorem addChar_eq (h : s.Bounded) (c : Char) :
    (ofScreen s).addChar c = some (ofScreen { s with page := s.page.write c }) := by
  rw [addChar, Page.write]
  split
  · exact newline_eq h.page.row_lt h.cells.height_le
  · split
    · rfl
    · exact putChar_eq h c

theorem clamp_eq {length : Nat} (pos : 0 < length) (h : length ≤ 2147483647) (n : Int32) :
    clamp length n = some (Page.clamp length n) := by
  rw [clamp, int32_bind (by omega) (by omega), int32_bind (by omega) (by omega),
    size_eq (by omega) (by omega), Page.clamp]
  congr 1
  omega

theorem moveCursorTo_eq (h : s.Bounded) (column row : Option Int32) :
    (ofScreen s).moveCursorTo column row =
      some (ofScreen { s with page := s.page.moveTo column row }) := by
  have columns := clamp_eq (Nat.zero_lt_of_lt h.page.column_lt) h.cells.width_le
  have rows := clamp_eq (Nat.zero_lt_of_lt h.page.row_lt) h.cells.height_le
  cases column <;> cases row <;> simp only [moveCursorTo, ofScreen, columns, rows] <;> rfl

theorem clearScreen_eq :
    (ofScreen s).clearScreen = ofScreen { s with page := s.page.clear } := by
  simp only [clearScreen, ofScreen, Page.clear, Grid.fill, Array.map_const', s.page.cells.size_eq]
  rfl

theorem clearGraphics_eq :
    (ofScreen s).clearGraphics = ofScreen { s with surface := s.surface.clear } := by
  simp only [clearGraphics, ofScreen, Surface.clear, Grid.fill, Array.map_const',
    s.surface.pixels.size_eq]

end LineBasic.Canvas
