import LineBasic.Display.Page
import LineBasic.Display.Surface

/-!
# The screen

A screen has a page of text and a drawing surface of six by eight pixels to a
cell. The two are independent but for one thing: setting the text color also sets
the ink.
-/

namespace LineBasic

structure Screen where
  page : Page
  surface : Surface

namespace Screen

/-- How many pixels wide a cell is. -/
def cellWidth : Nat := 6

/-- How many pixels high a cell is. -/
def cellHeight : Nat := 8

def defaultColumns : Nat := 40

def defaultRows : Nat := 20

/-- An empty screen of at least one column and one row. -/
def empty (columns rows : Nat) : Screen :=
  let columns := max columns 1
  let rows := max rows 1
  { page := .empty columns rows
    surface := .empty (columns * cellWidth) (rows * cellHeight) }

def point (x y : Int32) : Point := ⟨x.toInt, y.toInt⟩

/-- A text color beyond the palette is black. -/
def textColor (c : Color) : Color := if 15 < c then 0 else c

/-- A background color beyond the palette is the last one. -/
def backgroundColor (c : Color) : Color := if 15 < c then 15 else c

def apply (s : Screen) (command : Display.Command) : Screen :=
  -- taken apart, so that page and surface have no second owner while they are written
  match s with
  | ⟨page, surface⟩ =>
    match command with
    | .character c => ⟨page.write c, surface⟩
    | .textColor c => ⟨{ page with color := textColor c }, surface.setInk (textColor c)⟩
    | .backgroundColor c => ⟨{ page with background := backgroundColor c }, surface⟩
    | .clearScreen => ⟨page.clear, surface⟩
    | .clearGraphics => ⟨page, surface.clear⟩
    | .moveTo column row => ⟨page.moveTo column row, surface⟩
    | .pixel x y color => ⟨page, surface.plot (point x y) (surface.colorOr color)⟩
    | .line x₁ y₁ x₂ y₂ color =>
      ⟨page, surface.line (point x₁ y₁) (point x₂ y₂) (surface.colorOr color)⟩
    | .rectangle x₁ y₁ x₂ y₂ filled color =>
      ⟨page, surface.rectangle (point x₁ y₁) (point x₂ y₂) filled (surface.colorOr color)⟩
    | .circle x y radius filled color =>
      ⟨page, surface.circle (point x y) radius.toInt filled (surface.colorOr color)⟩
    | .fill x y => ⟨page, surface.fill (point x y)⟩

def run (s : Screen) (commands : List Display.Command) : Screen := commands.foldl apply s

/-- The screen remembered as not drawn on. -/
def clean (s : Screen) : Screen := { s with surface := s.surface.clean }

end Screen

end LineBasic
