import LineBasic.Proofs.Display.Fill

/-!
# The size of a screen

No command changes how many columns and rows the page has or how many pixels the surface
has.
-/

namespace LineBasic

namespace Page

@[simp] theorem columns_put (p : Page) (c : Char) : (p.put c).columns = p.columns :=
  Grid.width_set _ _ _

@[simp] theorem rows_put (p : Page) (c : Char) : (p.put c).rows = p.rows :=
  Grid.height_set _ _ _

@[simp] theorem columns_newline (p : Page) : p.newline.columns = p.columns := by
  rw [newline]
  split <;> rfl

@[simp] theorem rows_newline (p : Page) : p.newline.rows = p.rows := by
  rw [newline]
  split <;> rfl

@[simp] theorem columns_advance (p : Page) : p.advance.columns = p.columns := by
  rw [advance]
  split
  · rfl
  · exact columns_newline p

@[simp] theorem rows_advance (p : Page) : p.advance.rows = p.rows := by
  rw [advance]
  split
  · rfl
  · exact rows_newline p

@[simp] theorem columns_write (p : Page) (c : Char) : (p.write c).columns = p.columns := by
  rw [write]
  split
  · exact columns_newline p
  · split
    · rfl
    · rw [columns_advance, columns_put]

@[simp] theorem rows_write (p : Page) (c : Char) : (p.write c).rows = p.rows := by
  rw [write]
  split
  · exact rows_newline p
  · split
    · rfl
    · rw [rows_advance, rows_put]

end Page

namespace Grid

variable {α : Type}

theorem width_foldl_paint (g : Grid α) (v : α) (spans : List Span) :
    (spans.foldl (·.paint v ·) g).width = g.width := by
  induction spans generalizing g with
  | nil => rfl
  | cons s spans ih => exact (ih _).trans (width_paint g v s)

theorem height_foldl_paint (g : Grid α) (v : α) (spans : List Span) :
    (spans.foldl (·.paint v ·) g).height = g.height := by
  induction spans generalizing g with
  | nil => rfl
  | cons s spans ih => exact (ih _).trans (height_paint g v s)

end Grid

namespace Screen

variable (s : Screen)

theorem columns_apply (command : Display.Command) :
    (s.apply command).page.columns = s.page.columns := by
  cases command with
  | character c => exact Page.columns_write s.page c
  | _ => rfl

theorem rows_apply (command : Display.Command) :
    (s.apply command).page.rows = s.page.rows := by
  cases command with
  | character c => exact Page.rows_write s.page c
  | _ => rfl

theorem width_apply (command : Display.Command) :
    (s.apply command).surface.pixels.width = s.surface.pixels.width := by
  cases command with
  | pixel | line | rectangle | circle => exact Grid.width_foldl_paint _ _ _
  | fill => exact Grid.width_floodFill _ _ _
  | _ => rfl

theorem height_apply (command : Display.Command) :
    (s.apply command).surface.pixels.height = s.surface.pixels.height := by
  cases command with
  | pixel | line | rectangle | circle => exact Grid.height_foldl_paint _ _ _
  | fill => exact Grid.height_floodFill _ _ _
  | _ => rfl

theorem columns_run (commands : List Display.Command) :
    (s.run commands).page.columns = s.page.columns := by
  induction commands generalizing s with
  | nil => rfl
  | cons command commands ih => exact (ih _).trans (columns_apply s command)

theorem rows_run (commands : List Display.Command) :
    (s.run commands).page.rows = s.page.rows := by
  induction commands generalizing s with
  | nil => rfl
  | cons command commands ih => exact (ih _).trans (rows_apply s command)

theorem width_run (commands : List Display.Command) :
    (s.run commands).surface.pixels.width = s.surface.pixels.width := by
  induction commands generalizing s with
  | nil => rfl
  | cons command commands ih => exact (ih _).trans (width_apply s command)

theorem height_run (commands : List Display.Command) :
    (s.run commands).surface.pixels.height = s.surface.pixels.height := by
  induction commands generalizing s with
  | nil => rfl
  | cons command commands ih => exact (ih _).trans (height_apply s command)

end Screen

end LineBasic
