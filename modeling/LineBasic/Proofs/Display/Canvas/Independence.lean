import LineBasic.Proofs.Display.Canvas.Run

/-!
# Text and graphics

A screen shows text over graphics. What a command does to the page depends on the page alone, and
a command that draws does nothing to it; the same holds of the surface and the commands that write.
So a sequence of commands leads to the same page when those that draw are left out, and to the same
surface when those that write are left out.

There is one command that is for both: the color of the text is also the ink. No other command
changes the ink, so on a screen that starts with the two alike they stay alike.

Main statement: `Canvas.text_and_graphics_independent`.
-/

namespace LineBasic

namespace Display.Command

/-- Whether the command is for the surface only. -/
def isGraphic : Command → Bool
  | .clearGraphics | .pixel .. | .line .. | .rectangle .. | .circle .. | .fill .. => true
  | .character _ | .textColor _ | .backgroundColor _ | .clearScreen | .moveTo .. => false

/-- Whether the command is for the page only. -/
def isTextual : Command → Bool
  | .character _ | .backgroundColor _ | .clearScreen | .moveTo .. => true
  | .textColor _ | .clearGraphics | .pixel .. | .line .. | .rectangle .. | .circle ..
  | .fill .. => false

end Display.Command

namespace Page

theorem color_newline (p : Page) : p.newline.color = p.color := by
  rw [newline]
  split <;> rfl

theorem color_write (p : Page) (c : Char) : (p.write c).color = p.color := by
  rw [write]
  split
  · exact color_newline p
  · split
    · rfl
    · rw [advance]
      split
      · rfl
      · exact color_newline (p.put c)

end Page

namespace Screen

section

variable {α : Type} {view : Screen → α} {ignored : Display.Command → Bool}

/-- A part of the screen that some commands do not change, and to which every command does what
the part alone decides. -/
structure Ignores (view : Screen → α) (ignored : Display.Command → Bool) : Prop where
  view_apply : ∀ (s : Screen) (command : Display.Command), ignored command = true →
    view (s.apply command) = view s
  apply_congr : ∀ (s t : Screen) (command : Display.Command), view s = view t →
    view (s.apply command) = view (t.apply command)

/-- Such a part is the same without the commands that it ignores. -/
theorem Ignores.view_run (h : Ignores view ignored) {s t : Screen} (same : view s = view t)
    (commands : List Display.Command) :
    view (s.run (commands.filter fun command => !ignored command)) = view (t.run commands) := by
  induction commands generalizing s t with
  | nil => exact same
  | cons command commands ih =>
      by_cases skipped : ignored command = true
      · rw [List.filter_cons_of_neg (by simp [skipped])]
        exact ih (same.trans (h.view_apply t command skipped).symm)
      · rw [List.filter_cons_of_pos (by simp [skipped])]
        exact ih (h.apply_congr s t command same)

end

/-- The page ignores drawing. -/
theorem ignores_page : Ignores page Display.Command.isGraphic where
  view_apply s command graphic := by
    cases command with
    | clearGraphics | pixel | line | rectangle | circle | fill => rfl
    | _ => cases graphic
  apply_congr s t command same := by
    obtain ⟨page, surface⟩ := s
    obtain ⟨page', surface'⟩ := t
    obtain rfl : page = page' := same
    cases command <;> rfl

/-- The surface ignores writing. -/
theorem ignores_surface : Ignores surface Display.Command.isTextual where
  view_apply s command textual := by
    cases command with
    | character | backgroundColor | clearScreen | moveTo => rfl
    | _ => cases textual
  apply_congr s t command same := by
    obtain ⟨page, surface⟩ := s
    obtain ⟨page', surface'⟩ := t
    obtain rfl : surface = surface' := same
    cases command <;> rfl

/-- Every command is for one of the two parts only, but for the one that sets both colors. -/
theorem apply_cases (s : Screen) (command : Display.Command) :
    (command.isGraphic = true ∧ (s.apply command).page = s.page) ∨
    (command.isTextual = true ∧ (s.apply command).surface = s.surface) ∨
    ∃ color, command = .textColor color ∧
      s.apply command =
        { page := { s.page with color := textColor color }
          surface := { s.surface with ink := textColor color } } := by
  cases command with
  | textColor color => exact .inr (.inr ⟨color, rfl, rfl⟩)
  | clearGraphics | pixel | line | rectangle | circle | fill => exact .inl ⟨rfl, rfl⟩
  | character | backgroundColor | clearScreen | moveTo => exact .inr (.inl ⟨rfl, rfl⟩)

theorem color_eq_ink_apply {s : Screen} (h : s.page.color = s.surface.ink)
    (command : Display.Command) :
    (s.apply command).page.color = (s.apply command).surface.ink := by
  cases command with
  | character c => exact (Page.color_write s.page c).trans h
  | textColor c => rfl
  | _ => exact h

theorem color_eq_ink_run {s : Screen} (h : s.page.color = s.surface.ink)
    (commands : List Display.Command) :
    (s.run commands).page.color = (s.run commands).surface.ink := by
  induction commands generalizing s with
  | nil => exact h
  | cons command commands ih => exact ih (color_eq_ink_apply h command)

end Screen

namespace Canvas

/-- Whether two canvases hold the same text, with the cursor at the same place and the same colors
to write in. -/
structure SameText (c d : Canvas) : Prop where
  columns : c.columns = d.columns
  rows : c.rows = d.rows
  cells : c.cells = d.cells
  column : c.column = d.column
  row : c.row = d.row
  textColor : c.textColor = d.textColor
  backgroundColor : c.backgroundColor = d.backgroundColor

/-- Whether two canvases hold the same pixels, with the same color to draw in, and both or none are
remembered as drawn on. -/
structure SameGraphics (c d : Canvas) : Prop where
  width : c.width = d.width
  height : c.height = d.height
  pixels : c.pixels = d.pixels
  pixelColor : c.pixelColor = d.pixelColor
  dirty : c.dirty = d.dirty

variable {s t : Screen}

theorem sameText_ofScreen (h : s.page = t.page) : (ofScreen s).SameText (ofScreen t) := by
  constructor <;> simp only [h]

theorem sameGraphics_ofScreen (h : s.surface = t.surface) :
    (ofScreen s).SameGraphics (ofScreen t) := by
  constructor <;> simp only [h]

/-- Without the commands that draw, a sequence leads to the same page, and without those that write
to the same surface. A canvas, which keeps both in one record, shows no difference either. The only
command that is for both parts sets the color of the text and the ink to the same color, so these
are the same after every sequence that starts with an empty screen. -/
theorem text_and_graphics_independent (s : Screen) (commands : List Display.Command) :
    let undrawn := commands.filter fun command => !command.isGraphic
    let unwritten := commands.filter fun command => !command.isTextual
    (s.run undrawn).page = (s.run commands).page ∧
    (s.run unwritten).surface = (s.run commands).surface ∧
    (s.Bounded → ∃ all text graphics, (ofScreen s).run commands = some all ∧
      (ofScreen s).run undrawn = some text ∧ (ofScreen s).run unwritten = some graphics ∧
      text.SameText all ∧ graphics.SameGraphics all) ∧
    (∀ command : Display.Command,
      (command.isGraphic = true ∧ (s.apply command).page = s.page) ∨
      (command.isTextual = true ∧ (s.apply command).surface = s.surface) ∨
      ∃ color, command = .textColor color ∧
        s.apply command =
          { page := { s.page with color := Screen.textColor color }
            surface := { s.surface with ink := Screen.textColor color } }) ∧
    ∀ columns rows,
      ((Screen.empty columns rows).run commands).page.color =
        ((Screen.empty columns rows).run commands).surface.ink := by
  intro undrawn unwritten
  have page : (s.run undrawn).page = (s.run commands).page :=
    Screen.ignores_page.view_run rfl commands
  have surface : (s.run unwritten).surface = (s.run commands).surface :=
    Screen.ignores_surface.view_run rfl commands
  refine ⟨page, surface, fun bounded => ?_, s.apply_cases, fun columns rows => ?_⟩
  · exact ⟨_, _, _, run_eq bounded commands, run_eq bounded undrawn, run_eq bounded unwritten,
      sameText_ofScreen page, sameGraphics_ofScreen surface⟩
  · exact Screen.color_eq_ink_run rfl commands

/-- Text is written in between drawing, and both go on in a color that was set in between. -/
theorem text_and_graphics_independent_interleaved :
    let commands : List Display.Command := [
      .character 'a', .pixel 2 1 none, .textColor 3, .backgroundColor 5, .line 0 0 3 0 none,
      .character 'b', .fill 4 4, .moveTo (some 0) none]
    (Screen.empty 3 1).Bounded ∧
    ∃ all text graphics, (ofScreen (Screen.empty 3 1)).run commands = some all ∧
      (ofScreen (Screen.empty 3 1)).run [.character 'a', .textColor 3, .backgroundColor 5,
        .character 'b', .moveTo (some 0) none] = some text ∧
      (ofScreen (Screen.empty 3 1)).run [.pixel 2 1 none, .textColor 3, .line 0 0 3 0 none,
        .fill 4 4] = some graphics ∧
      all.cells[1]? = some ⟨'b', 3, 5⟩ ∧ text.cells = all.cells ∧ text.dirty = false ∧
      all.pixels[20]? = some 14 ∧ graphics.pixels = all.pixels ∧ graphics.column = 0 := by
  intro commands
  have bounded : (Screen.empty 3 1).Bounded := Screen.bounded_empty (by decide) (by decide)
  obtain ⟨-, -, kept, -, -⟩ := text_and_graphics_independent (Screen.empty 3 1) commands
  obtain ⟨all, text, graphics, runAll, runText, runGraphics, sameText, sameGraphics⟩ := kept bounded
  have ran (commands : List Display.Command) := run_eq bounded commands
  obtain rfl : _ = all := Option.some.inj ((ran commands).symm.trans runAll)
  obtain rfl : _ = text := Option.some.inj ((ran _).symm.trans runText)
  obtain rfl : _ = graphics := Option.some.inj ((ran _).symm.trans runGraphics)
  exact ⟨bounded, _, _, _, runAll, runText, runGraphics, by decide +kernel, sameText.cells,
    by decide +kernel, by decide +kernel, sameGraphics.pixels, by decide +kernel⟩

end Canvas

end LineBasic
