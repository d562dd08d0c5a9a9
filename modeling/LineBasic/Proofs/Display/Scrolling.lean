import LineBasic.Proofs.Display.Size

/-!
# Scrolling

A page has a fixed number of rows and loses the first one whenever it needs one more.
A roll has the same columns and never ends, so that nothing which was written on it gets
lost. What a page shows is the end of the roll: it shows as many of its rows as it has,
the last one being that of the cursor once the page is full. Only a cell that was never
written may differ, since a page has to show it in some colors.

Main statement: `Screen.page_shows_end_of_roll`.
-/

namespace LineBasic

/-- A text page without a last row. A cell that was never written holds nothing. -/
structure Roll where
  columns : Nat
  cell? : Nat → Nat → Option Cell := fun _ _ => none
  column : Nat := 0
  row : Nat := 0
  color : Color := 14
  background : Color := 0

/-- The commands by which text is written. -/
inductive TextCommand where
  | character (c : Char)
  | color (c : Color)
  | background (c : Color)
  deriving DecidableEq, Repr

namespace TextCommand

def toCommand : TextCommand → Display.Command
  | character c => .character c
  | color c => .textColor c
  | background c => .backgroundColor c

end TextCommand

namespace Roll

/-- The roll with its cursor at the start of the next row. -/
def newline (r : Roll) : Roll := { r with column := 0, row := r.row + 1 }

/-- The roll with a character in the cell at the cursor. -/
def put (r : Roll) (c : Char) : Roll :=
  { r with
    cell? := fun column row =>
      if column = r.column ∧ row = r.row then some ⟨c, r.color, r.background⟩
      else r.cell? column row }

/-- The roll with its cursor behind the cell it is at. -/
def advance (r : Roll) : Roll :=
  if r.column + 1 = r.columns then r.newline else { r with column := r.column + 1 }

def write (r : Roll) (c : Char) : Roll :=
  if c = '\n' then r.newline
  else if c = '\r' then { r with column := 0 }
  else (r.put c).advance

def apply (r : Roll) : TextCommand → Roll
  | .character c => r.write c
  | .color c => { r with color := Screen.textColor c }
  | .background c => { r with background := Screen.backgroundColor c }

def run (r : Roll) (text : List TextCommand) : Roll := text.foldl apply r

/-- How many rows of the roll a page of so many rows has lost. -/
def lost (r : Roll) (rows : Nat) : Nat := r.row - (rows - 1)

@[simp] theorem lost_put (r : Roll) (c : Char) (rows : Nat) : (r.put c).lost rows = r.lost rows :=
  rfl

end Roll

namespace Page

variable {p : Page} {column row : Nat}

theorem contains (hc : column < p.columns) (hr : row < p.rows) :
    p.cells.Contains ⟨column, row⟩ := by
  rw [columns] at hc
  rw [rows] at hr
  refine ⟨?_, ?_, ?_, ?_⟩ <;> simp only <;> omega

theorem cell?_put (c : Char) (hc : column < p.columns) (hr : row < p.rows) :
    (p.put c).cell? column row =
      if column = p.column ∧ row = p.row then some ⟨c, p.color, p.background⟩
      else p.cell? column row := by
  have same : (⟨p.column, p.row⟩ : Point) = ⟨column, row⟩ ∧ p.cells.Contains ⟨column, row⟩ ↔
      column = p.column ∧ row = p.row := by
    simp only [Point.mk.injEq, contains hc hr, and_true]
    omega
  rw [cell?, put, Grid.get?_set, cell?]
  simp only [same]

/-- A new row below the last one pushes the first one out. -/
theorem cell?_newline_of_last (last : p.row + 1 = p.rows) (hc : column < p.columns)
    (hr : row < p.rows) :
    p.newline.cell? column row =
      if row + 1 < p.rows then p.cell? column (row + 1)
      else some (blank p.color p.background) := by
  have bottom : ¬ p.row + 1 < p.rows := by omega
  have above : (row : Int) + 1 < p.cells.height ↔ row + 1 < p.rows := by
    rw [rows]
    omega
  rw [newline, if_neg bottom, cell?, Grid.get?_scroll _ (contains hc hr)]
  simp only [above]
  rfl

end Page

/-- Whether a cell of a page shows what the cell of a roll holds. -/
def Cell.Shows (shown : Option Cell) : Option Cell → Prop
  | some written => shown = some written
  | none => ∃ cell, shown = some cell ∧ cell.character = ' '

/-- A page shows the end of a roll. -/
structure Page.ShowsEnd (p : Page) (r : Roll) : Prop where
  columns : p.columns = r.columns
  column : p.column = r.column
  row : p.row + r.lost p.rows = r.row
  color : p.color = r.color
  background : p.background = r.background
  column_lt : r.column < r.columns
  rows_pos : 0 < p.rows
  unwritten : ∀ column row, r.row < row → r.cell? column row = none
  shows : ∀ column < p.columns, ∀ row < p.rows,
    Cell.Shows (p.cell? column row) (r.cell? column (row + r.lost p.rows))

namespace Page.ShowsEnd

variable {p : Page} {r : Roll}

theorem columns_pos (h : p.ShowsEnd r) : 0 < r.columns :=
  Nat.lt_of_le_of_lt (Nat.zero_le _) h.column_lt

/-- As long as there is a row below the cursor, no row was lost, nor is one lost with the
next row. -/
theorem lost_of_below (h : p.ShowsEnd r) (below : p.row + 1 < p.rows) :
    r.lost p.rows = 0 ∧ r.newline.lost p.rows = 0 := by
  have row := h.row
  simp only [Roll.lost, Roll.newline] at row ⊢
  omega

/-- Once the cursor is in the last row, the next row costs the first one. -/
theorem lost_of_last (h : p.ShowsEnd r) (last : ¬ p.row + 1 < p.rows) :
    p.row + 1 = p.rows ∧ r.newline.lost p.rows = r.lost p.rows + 1 := by
  have row := h.row
  have rows := h.rows_pos
  simp only [Roll.lost, Roll.newline] at row ⊢
  omega

theorem newline_of_below (h : p.ShowsEnd r) (below : p.row + 1 < p.rows) :
    p.newline.ShowsEnd r.newline := by
  obtain ⟨before, after⟩ := h.lost_of_below below
  have row := h.row
  have shows := h.shows
  rw [before] at row shows
  rw [Page.newline, if_pos below]
  exact
    { columns := h.columns, column := rfl, color := h.color, background := h.background
      column_lt := h.columns_pos, rows_pos := h.rows_pos
      unwritten := fun column row below => h.unwritten column row (Nat.lt_of_succ_lt below)
      row := by
        show p.row + 1 + r.newline.lost p.rows = r.row + 1
        omega
      shows := by
        show ∀ column < p.columns, ∀ row < p.rows,
          Cell.Shows (p.cell? column row) (r.cell? column (row + r.newline.lost p.rows))
        rw [after]
        exact shows }

theorem newline_of_last (h : p.ShowsEnd r) (last : ¬ p.row + 1 < p.rows) :
    p.newline.ShowsEnd r.newline := by
  obtain ⟨place, lost⟩ := h.lost_of_last last
  have row := h.row
  have cursor : p.newline.column = 0 ∧ p.newline.row = p.rows - 1 := by
    rw [Page.newline, if_neg last]
    exact ⟨rfl, rfl⟩
  have colors : p.newline.color = p.color ∧ p.newline.background = p.background := by
    rw [Page.newline, if_neg last]
    exact ⟨rfl, rfl⟩
  refine
    { columns := (columns_newline p).trans h.columns, column := cursor.1
      color := colors.1.trans h.color, background := colors.2.trans h.background
      column_lt := h.columns_pos, rows_pos := by rw [rows_newline]; exact h.rows_pos
      unwritten := fun column row below => h.unwritten column row (Nat.lt_of_succ_lt below)
      row := ?_, shows := ?_ }
  · rw [rows_newline, cursor.2, lost]
    show p.rows - 1 + (r.lost p.rows + 1) = r.row + 1
    omega
  · intro column hc y hy
    rw [columns_newline] at hc
    rw [rows_newline] at hy ⊢
    rw [cell?_newline_of_last place hc hy, lost]
    split
    · next above =>
      rw [← Nat.add_assoc, Nat.add_right_comm]
      exact h.shows column hc (y + 1) above
    · next new =>
      have beyond : r.newline.cell? column (y + (r.lost p.rows + 1)) = none :=
        h.unwritten column _ (by omega)
      rw [beyond]
      exact ⟨_, rfl, rfl⟩

theorem newline (h : p.ShowsEnd r) : p.newline.ShowsEnd r.newline := by
  by_cases below : p.row + 1 < p.rows
  · exact h.newline_of_below below
  · exact h.newline_of_last below

theorem put (h : p.ShowsEnd r) (c : Char) : (p.put c).ShowsEnd (r.put c) := by
  have row := h.row
  refine
    { columns := (columns_put p c).trans h.columns, column := h.column, color := h.color
      background := h.background, column_lt := h.column_lt
      row := by rw [rows_put, Roll.lost_put]; exact row
      rows_pos := by rw [rows_put]; exact h.rows_pos
      unwritten := ?_, shows := ?_ }
  · intro column y below
    have other : ¬ (column = r.column ∧ y = r.row) := fun same => Nat.ne_of_gt below same.2
    exact (if_neg other).trans (h.unwritten column y below)
  · intro column hc y hy
    rw [columns_put] at hc
    rw [rows_put] at hy ⊢
    have same : column = p.column ∧ y = p.row ↔
        column = r.column ∧ y + r.lost p.rows = r.row := by
      rw [h.column]
      omega
    rw [cell?_put c hc hy, Roll.lost_put, Roll.put]
    simp only [same]
    split
    · rw [h.color, h.background]
      rfl
    · exact h.shows column hc y hy

theorem advance (h : p.ShowsEnd r) : p.advance.ShowsEnd r.advance := by
  have columns := h.columns
  have column := h.column
  have bound := h.column_lt
  rw [Page.advance, Roll.advance]
  by_cases last : r.column + 1 = r.columns
  · rw [if_pos last, if_neg (by omega)]
    exact h.newline
  · have inside : r.column + 1 < r.columns := by omega
    rw [if_neg last, if_pos (by omega)]
    exact { h with column := congrArg (· + 1) column, column_lt := inside }

theorem write (h : p.ShowsEnd r) (c : Char) : (p.write c).ShowsEnd (r.write c) := by
  rw [Page.write, Roll.write]
  split
  · exact h.newline
  · split
    · exact { h with column := rfl, column_lt := h.columns_pos }
    · exact (h.put c).advance

end Page.ShowsEnd

theorem Page.showsEnd_empty {columns rows : Nat} (hc : 0 < columns) (hr : 0 < rows) :
    (empty columns rows).ShowsEnd { columns } := by
  refine
    { columns := rfl, column := rfl, color := rfl, background := rfl, column_lt := hc
      rows_pos := hr, unwritten := fun _ _ _ => rfl, row := ?_, shows := ?_ }
  · show 0 + (0 - (rows - 1)) = 0
    omega
  · intro column hc row hr
    refine ⟨blank 14 0, ?_, rfl⟩
    rw [cell?, empty, Grid.get?_fill]
    exact if_pos (contains (p := empty columns rows) hc hr)

namespace Screen

/-- A text command does to the page of a screen what it does to the roll that the page
shows the end of. -/
theorem showsEnd_apply {s : Screen} {r : Roll} (h : s.page.ShowsEnd r) (t : TextCommand) :
    (s.apply t.toCommand).page.ShowsEnd (r.apply t) := by
  cases t with
  | character c => exact h.write c
  | color c => exact { h with color := rfl }
  | background c => exact { h with background := rfl }

theorem showsEnd_run {s : Screen} {r : Roll} (h : s.page.ShowsEnd r) (text : List TextCommand) :
    (s.run (text.map TextCommand.toCommand)).page.ShowsEnd (r.run text) := by
  induction text generalizing s r with
  | nil => exact h
  | cons t text ih => exact ih (showsEnd_apply h t)

/-- Whatever is written on an empty screen, its page shows the end of the roll that the
same was written on. Every cell that was written since it came onto the page is the cell
of the roll, colors included, and the others are blank. The cursor is that of the roll,
moved up by as many rows as were lost. -/
theorem page_shows_end_of_roll (columns rows : Nat) (text : List TextCommand) :
    let page := ((empty columns rows).run (text.map TextCommand.toCommand)).page
    let roll := Roll.run { columns := max columns 1 } text
    let off := roll.row - (max rows 1 - 1)
    page.columns = max columns 1 ∧ page.rows = max rows 1 ∧
      page.column = roll.column ∧ page.row + off = roll.row ∧
      ∀ column < max columns 1, ∀ row < max rows 1,
        match roll.cell? column (row + off) with
        | some written => page.cell? column row = some written
        | none => ∃ cell, page.cell? column row = some cell ∧ cell.character = ' ' := by
  intro page roll off
  have start : (empty columns rows).page.ShowsEnd { columns := max columns 1 } :=
    Page.showsEnd_empty (by omega) (by omega)
  have shown : page.ShowsEnd roll := showsEnd_run start text
  have width : page.columns = max columns 1 := columns_run (empty columns rows) _
  have height : page.rows = max rows 1 := rows_run (empty columns rows) _
  have lost : off = roll.lost page.rows := by rw [height]; rfl
  refine ⟨width, height, shown.column, lost ▸ shown.row, ?_⟩
  intro column hc row hr
  have cell := shown.shows column (width ▸ hc) row (height ▸ hr)
  rw [← lost] at cell
  exact cell

end Screen

end LineBasic
