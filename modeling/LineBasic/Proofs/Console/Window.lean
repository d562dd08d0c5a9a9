import LineBasic.Proofs.Console.Calling
import LineBasic.Proofs.Display.Bounds
import LineBasic.Proofs.Display.Scrolling

/-!
# The terminal and the screen in memory

A window is a terminal as it ought to work. It is as high as the page and wider than it, so
that it never wraps by itself. An output writes to it by calls, and holds text back that is
not written yet; the page of its screen was changed at once. Both agree whenever the calls are
carried out and the held text is written: the cursor is in the same place, and every cell of
the page shows the same character.

Main statement: `Output.window_in_step`.
-/

namespace LineBasic

/-- A terminal that shows characters in rows and columns and puts each at its cursor. -/
structure Window where
  columns : Nat
  rows : Nat
  column : Nat := 0
  row : Nat := 0
  /-- The character in a column and a row. -/
  shown : Nat → Nat → Char := fun _ _ => ' '

namespace Window

/-- The window with its cursor at the start of the next row. Below the last row it scrolls. -/
def newline (w : Window) : Window :=
  if w.row + 1 < w.rows then { w with column := 0, row := w.row + 1 }
  else { w with
    column := 0
    shown := fun column row => if row + 1 < w.rows then w.shown column (row + 1) else ' ' }

/-- The window with a character at its cursor, which goes on by one column. -/
def put (w : Window) (c : Char) : Window :=
  { w with
    column := w.column + 1
    shown := fun column row => if column = w.column ∧ row = w.row then c else w.shown column row }

def write (w : Window) (c : Char) : Window :=
  if c = '\n' then w.newline else if c = '\r' then { w with column := 0 } else w.put c

def writeAll (w : Window) (text : String) : Window := text.toList.foldl write w

/-- What a call does to the window. The cursor stays inside when it is moved. -/
def carryOut (w : Window) : Call → Window
  | .write text | .print text => w.writeAll text
  | .clearScreen => { w with column := 0, row := 0, shown := fun _ _ => ' ' }
  | .moveUp n => { w with row := w.row - n }
  | .moveDown n => { w with row := min (w.row + n) (w.rows - 1) }
  | .firstColumn => { w with column := 0 }
  | .moveRight n => { w with column := min (w.column + n) (w.columns - 1) }

def replay (w : Window) (record : List Record) : Window :=
  record.foldl (fun w entry => match entry with
    | .call c => w.carryOut c
    | _ => w) w

@[simp] theorem writeAll_empty (w : Window) : w.writeAll "" = w := rfl

@[simp] theorem writeAll_append (w : Window) (s t : String) :
    w.writeAll (s ++ t) = (w.writeAll s).writeAll t := by
  simp [writeAll]

@[simp] theorem writeAll_toString (w : Window) (c : Char) : w.writeAll c.toString = w.write c := by
  simp [writeAll, Char.toString]

theorem size_writeAll (w : Window) (text : String) :
    (w.writeAll text).columns = w.columns ∧ (w.writeAll text).rows = w.rows := by
  have write (w : Window) (c : Char) :
      (w.write c).columns = w.columns ∧ (w.write c).rows = w.rows := by
    rw [Window.write, Window.newline]
    split <;> (try split) <;> exact ⟨rfl, rfl⟩
  rw [writeAll]
  induction text.toList generalizing w with
  | nil => exact ⟨rfl, rfl⟩
  | cons c t ih => exact ⟨(ih _).1.trans (write w c).1, (ih _).2.trans (write w c).2⟩

@[simp] theorem replay_append (w : Window) (r s : List Record) :
    w.replay (r ++ s) = (w.replay r).replay s := by
  simp [replay]

@[simp] theorem replay_calls (w : Window) (calls : List Call) :
    w.replay (calls.map .call) = calls.foldl carryOut w := by
  simp [replay, List.foldl_map]

end Window

/-- A window shows what is on a page, with the cursor in the same place. -/
structure Page.InStep (p : Page) (w : Window) : Prop where
  bounded : p.Bounded
  columns_lt : p.columns < w.columns
  rows : w.rows = p.rows
  column : w.column = p.column
  row : w.row = p.row
  shown : ∀ column < p.columns, ∀ row < p.rows,
    (p.cell? column row).map Cell.character = some (w.shown column row)

namespace Page.InStep

variable {p : Page} {w : Window}

theorem newline (h : p.InStep w) : p.newline.InStep w.newline := by
  obtain ⟨columns, rows⟩ := And.intro (columns_newline p) (rows_newline p)
  have last : w.row + 1 < w.rows ↔ p.row + 1 < p.rows := by rw [h.row, h.rows]
  have inside := h.bounded.row_lt
  by_cases below : p.row + 1 < p.rows
  · have page : p.newline = { p with column := 0, row := p.row + 1 } := if_pos below
    have window : w.newline = { w with column := 0, row := w.row + 1 } := if_pos (last.mpr below)
    refine ⟨h.bounded.newline, ?_, ?_, ?_, ?_, ?_⟩ <;> rw [page, window]
    · exact h.columns_lt
    · exact h.rows
    · exact congrArg (· + 1) h.row
    · exact h.shown
  · have place : p.row + 1 = p.rows := by omega
    have window : w.newline = { w with
        column := 0
        shown := fun column row => if row + 1 < w.rows then w.shown column (row + 1) else ' ' } :=
      if_neg (mt last.mp below)
    have cursor : p.newline.column = 0 ∧ p.newline.row = p.rows - 1 := by
      rw [Page.newline, if_neg below]
      exact ⟨rfl, rfl⟩
    refine ⟨h.bounded.newline, ?_, ?_, ?_, ?_, ?_⟩ <;> rw [window]
    · rw [columns]
      exact h.columns_lt
    · rw [rows]
      exact h.rows
    · exact cursor.1.symm
    · rw [cursor.2]
      show w.row = p.rows - 1
      have := h.row
      omega
    · intro column hc row hr
      rw [columns] at hc
      rw [rows] at hr
      rw [cell?_newline_of_last place hc hr, h.rows]
      dsimp only
      split
      · next above => exact h.shown column hc (row + 1) above
      · rfl

/-- Before its cursor goes on, a page with one more character shows what the window does. -/
theorem put (h : p.InStep w) (c : Char) :
    (p.put c).InStep { w.put c with column := w.column } := by
  refine ⟨h.bounded.put c, ?_, ?_, h.column, h.row, ?_⟩
  · rw [columns_put]
    exact h.columns_lt
  · rw [rows_put]
    exact h.rows
  · intro column hc row hr
    rw [columns_put] at hc
    rw [rows_put] at hr
    rw [cell?_put c hc hr]
    simp only [Window.put, h.column, h.row]
    split
    · rfl
    · exact h.shown column hc row hr

/-- What is shown of a character does to the window what the character does to the page. In
the last column of the page the window has to be told to go on to the next row. -/
theorem write (h : p.InStep w) (c : Char) :
    (p.write c).InStep (w.writeAll (Output.shown false (p.write c) c)) := by
  have inside := h.bounded.column_lt
  by_cases feed : c = '\n'
  · have page : p.write c = p.newline := if_pos feed
    rw [Output.shown, if_pos (.inl feed), Window.writeAll_toString, Window.write, if_pos feed, page]
    exact h.newline
  by_cases back : c = '\r'
  · have page : p.write c = { p with column := 0 } := by rw [Page.write, if_neg feed, if_pos back]
    have bounded := h.bounded.write c
    rw [Output.shown, if_pos (.inr back), Window.writeAll_toString, Window.write, if_neg feed,
      if_pos back]
    rw [page] at bounded ⊢
    exact
      { bounded, columns_lt := h.columns_lt, rows := h.rows, column := rfl, row := h.row
        shown := h.shown }
  have put := h.put c
  have page : p.write c = (p.put c).advance := by rw [Page.write, if_neg feed, if_neg back]
  have window : w.writeAll c.toString = w.put c := by
    rw [Window.writeAll_toString, Window.write, if_neg feed, if_neg back]
  have plain : ¬ (c = '\n' ∨ c = '\r') := not_or.mpr ⟨feed, back⟩
  have column : (p.put c).column = p.column := rfl
  rw [Output.shown, if_neg plain, page, advance, columns_put]
  by_cases room : p.column + 1 < p.columns
  · rw [column, if_pos room, if_neg (Nat.succ_ne_zero p.column), Output.styled,
      if_neg Bool.false_ne_true, window]
    exact { put with
      bounded := { put.bounded with column_lt := (columns_put p c).symm ▸ room }
      column := congrArg (· + 1) h.column }
  · have start : (p.put c).newline.column = 0 := by
      rw [Page.newline]
      split <;> rfl
    rw [column, if_neg room, if_pos start, Output.styled, if_neg Bool.false_ne_true,
      Window.writeAll_append, window]
    exact put.newline

theorem clear (h : p.InStep w) : p.clear.InStep (w.carryOut .clearScreen) where
  bounded := h.bounded.clear
  columns_lt := h.columns_lt
  rows := h.rows
  column := rfl
  row := rfl
  shown := by
    intro column hc row hr
    rw [cell?, Page.clear, Grid.get?_fill, if_pos]
    · rfl
    · exact contains (p := p.clear) hc hr

theorem moveTo (h : p.InStep w) (column row : Option Int32) :
    (p.moveTo column row).InStep
      ((Output.moves p.row (p.moveTo column row).column (p.moveTo column row).row).foldl
        Window.carryOut w) := by
  have bounded := h.bounded.moveTo column row
  have place : (Output.moves p.row (p.moveTo column row).column (p.moveTo column row).row).foldl
      Window.carryOut w =
        { w with column := (p.moveTo column row).column, row := (p.moveTo column row).row } := by
    have across := bounded.column_lt
    have down := bounded.row_lt
    have same : (p.moveTo column row).columns = p.columns ∧ (p.moveTo column row).rows = p.rows :=
      ⟨rfl, rfl⟩
    generalize (p.moveTo column row).column = x at across ⊢
    generalize (p.moveTo column row).row = y at down ⊢
    rw [same.1] at across
    rw [same.2] at down
    have column := h.columns_lt
    have row := h.row
    have rows := h.rows
    obtain ⟨wide, high, wx, wy, shown⟩ := w
    simp only at column row rows
    subst row rows
    rw [Output.moves]
    split <;> split <;> split <;> simp [Window.carryOut] <;> omega
  rw [place]
  exact
    { bounded := bounded, columns_lt := h.columns_lt, rows := h.rows, column := rfl, row := rfl
      shown := h.shown }

end Page.InStep

theorem Page.inStep_empty {columns rows wide : Nat} (hc : 0 < columns) (hr : 0 < rows)
    (wider : columns < wide) : (empty columns rows).InStep { columns := wide, rows } where
  bounded :=
    { column_lt := hc, row_lt := hr, color_le := (by decide : (14 : Color) ≤ 15)
      background_le := (by decide : (0 : Color) ≤ 15) }
  columns_lt := wider
  rows := rfl
  column := rfl
  row := rfl
  shown := by
    intro column hc row hr
    rw [cell?, empty, Grid.get?_fill]
    exact congrArg (Option.map Cell.character)
      (if_pos (contains (p := empty columns rows) hc hr))

namespace Output

/-- The page shows what a window does once the record and the held text are written to it. -/
structure Reflects (w : Window) (o : Output) : Prop where
  plain : o.color = false
  inStep : o.screen.page.InStep ((w.replay o.terminal.record.toList).writeAll o.held)

variable {w : Window} {o : Output}

/-- No call fails that was made up to the second terminal. -/
theorem fault?_eq_none {t t' : Terminal} {made : List Call} (h : t.Made t' made)
    (smooth : ∀ i < t'.calls, t.faults i = none) : t.fault? made.length = none := by
  rw [Terminal.fault?_eq_none_iff, ← h.count]
  exact fun i _ hi => smooth i hi

theorem Reflects.command (h : o.Reflects w) (c : Display.Command)
    (smooth : ∀ i < (o.apply c).terminal.calls, o.terminal.faults i = none) :
    (o.apply c).Reflects w := by
  obtain ⟨made, -, all, whole⟩ := o.exists_made_apply c
  obtain rfl := whole (fault?_eq_none all.terminal smooth)
  refine ⟨all.color.trans h.plain, ?_⟩
  have inStep := h.inStep
  rw [all.terminal.record, Window.replay_append, Window.replay_calls, screen_apply, held_apply]
  generalize w.replay o.terminal.record.toList = v at inStep
  have size := v.size_writeAll o.held
  cases c with
  | character c =>
      have text : o.heldAfter (.character c) =
          o.held ++ shown false (o.screen.page.write c) c := by
        rw [heldAfter_character, h.plain]
      rw [text, Window.writeAll_append]
      exact inStep.write c
  | clearScreen =>
      have cleared : (v.writeAll o.held).carryOut .clearScreen = v.carryOut .clearScreen := by
        rw [Window.carryOut, Window.carryOut, size.1, size.2]
      have clear := inStep.clear
      rw [cleared] at clear
      exact clear
  | moveTo column row => exact inStep.moveTo column row
  | textColor c =>
      exact { inStep with
        bounded := { inStep.bounded with color_le := Screen.textColor_le c } }
  | backgroundColor c =>
      exact { inStep with
        bounded := { inStep.bounded with background_le := Screen.backgroundColor_le c } }
  | _ => exact inStep

theorem Reflects.flush (h : o.Reflects w) : o.flush.1.Reflects w := by
  have all := o.made_flush.1
  refine ⟨o.color_flush.trans h.plain, ?_⟩
  rw [all.record, Window.replay_append, Window.replay_calls, screen_flush, held_flush,
    Window.writeAll_empty, callsToFlush]
  split
  · next empty =>
    have inStep := h.inStep
    rwa [String.isEmpty_iff.mp empty] at inStep
  · exact h.inStep

theorem Reflects.obeyAll (h : o.Reflects w) (orders : List Order)
    (smooth : ∀ i < (o.obeyAll orders).terminal.calls, o.terminal.faults i = none) :
    (o.obeyAll orders).Reflects w := by
  induction orders generalizing o with
  | nil => exact h
  | cons order orders ih =>
      obtain ⟨made, first⟩ := o.exists_made_obey order
      obtain ⟨_, rest⟩ := (o.obey order).exists_made_obeyAll orders
      have early : ∀ i < (o.obey order).terminal.calls, o.terminal.faults i = none := by
        intro i hi
        have later := rest.count
        exact smooth i (Nat.lt_of_lt_of_le hi (later ▸ Nat.le_add_right _ _))
      have next : (o.obey order).Reflects w := by
        cases order with
        | command c => exact h.command c early
        | flush => exact h.flush
      refine ih next ?_
      rw [first.faults]
      exact smooth

/-- Whatever an output is asked to do without styling its text, as long as no call fails, its
page agrees with a window on which its calls are carried out and what it holds back is
written: the cursor is in the same place, and every cell shows the same character. -/
theorem window_in_step (columns rows wide : Nat) (wider : max columns 1 < wide)
    (faults : Nat → Option Text) (breakAt : Option Nat) (orders : List Order) :
    let start : Output :=
      { terminal := { faults, breakAt }, screen := .empty columns rows, color := false }
    let o := start.obeyAll orders
    let page := o.screen.page
    let window := (Window.replay { columns := wide, rows := max rows 1 }
      o.terminal.record.toList).writeAll o.held
    (∀ i < o.terminal.calls, faults i = none) →
      page.columns = max columns 1 ∧ page.rows = max rows 1 ∧
      window.column = page.column ∧ window.row = page.row ∧
      ∀ column < max columns 1, ∀ row < max rows 1,
        (page.cell? column row).map Cell.character = some (window.shown column row) := by
  intro start o page window smooth
  have empty : start.Reflects { columns := wide, rows := max rows 1 } :=
    ⟨rfl, Page.inStep_empty (by omega) (by omega) wider⟩
  have reflects := (empty.obeyAll orders smooth).inStep
  have width : page.columns = max columns 1 := by
    rw [show page = (o.screen).page from rfl, screen_obeyAll, Screen.columns_run]
    rfl
  have height : page.rows = max rows 1 := by
    rw [show page = (o.screen).page from rfl, screen_obeyAll, Screen.rows_run]
    rfl
  have shown := reflects.shown
  rw [show (start.obeyAll orders).screen.page = page from rfl, width, height] at shown
  exact ⟨width, height, reflects.column, reflects.row, shown⟩

/-- Text wraps and scrolls on a page of two columns and two rows, the cursor is moved back up,
and the call that would fail is never made. -/
theorem window_in_step_scrolled :
    let faults : Nat → Option Text := fun i => if i = 5 then some "BROKEN".toList else none
    let commands : List Display.Command :=
      "ABC\n".toList.map .character ++ [.moveTo (some 7) (some 0), .character 'D']
    let orders : List Order := commands.map .command ++ [.flush]
    let start : Output := { terminal := { faults }, screen := .empty 2 2, color := false }
    let o := start.obeyAll orders
    let window :=
      (Window.replay { columns := 3, rows := 2 } o.terminal.record.toList).writeAll o.held
    (∀ i < o.terminal.calls, faults i = none) ∧
      o.terminal.record.toList =
        [.call (.write "AB\nC\n"), .call (.moveUp 1), .call .firstColumn, .call (.moveRight 1),
          .call (.write "D\n")] ∧
      window.column = o.screen.page.column ∧ window.row = o.screen.page.row ∧
      ∀ column < 2, ∀ row < 2,
        (o.screen.page.cell? column row).map Cell.character = some (window.shown column row) := by
  intro faults commands orders start o window
  have smooth : ∀ i < o.terminal.calls, faults i = none := by decide +kernel
  have step := window_in_step 2 2 3 (by decide) faults none orders smooth
  exact ⟨smooth, by decide +kernel, step.2.2⟩

end Output

end LineBasic
