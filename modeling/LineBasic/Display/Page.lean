import LineBasic.Display.Command
import LineBasic.Display.Grid
import LineBasic.Text.Blank

/-!
# The text page

Text is written at a cursor, which moves to the next row as soon as the last
column is written. Below the last row the page scrolls: the first row is lost and
an empty one appears in the current colors. A line feed starts the next row and a
carriage return goes back to the first column; every other character, control
characters included, takes one cell.
-/

namespace LineBasic

/-- A character with its color and the color behind it. -/
structure Cell where
  character : Char
  color : Color
  background : Color
  deriving DecidableEq, Repr

/-- The written characters, the cursor and the colors to write in. -/
structure Page where
  cells : Grid Cell
  column : Nat := 0
  row : Nat := 0
  color : Color := 14
  background : Color := 0

namespace Page

/-- An empty cell in the given colors. -/
def blank (color background : Color) : Cell := ⟨' ', color, background⟩

def empty (columns rows : Nat) : Page := { cells := .fill columns rows (blank 14 0) }

def columns (p : Page) : Nat := p.cells.width

def rows (p : Page) : Nat := p.cells.height

def cell? (p : Page) (column row : Nat) : Option Cell := p.cells.get? ⟨column, row⟩

/-- Every row as text, without blanks at its end. -/
def text (p : Page) : List Text := p.cells.rows.map fun row => Text.trimEnd (row.map Cell.character)

/-- The page with its cursor at the start of the next row. -/
def newline (p : Page) : Page :=
  if p.row + 1 < p.rows then { p with column := 0, row := p.row + 1 }
  else { p with
    column := 0
    row := p.rows - 1
    cells := p.cells.scroll (blank p.color p.background) }

/-- The page with a character in the cell at the cursor. -/
def put (p : Page) (c : Char) : Page :=
  { p with cells := p.cells.set ⟨p.column, p.row⟩ ⟨c, p.color, p.background⟩ }

/-- The page with its cursor behind the cell it is at. -/
def advance (p : Page) : Page :=
  if p.column + 1 < p.columns then { p with column := p.column + 1 } else p.newline

def write (p : Page) (c : Char) : Page :=
  if c = '\n' then p.newline
  else if c = '\r' then { p with column := 0 }
  else (p.put c).advance

/-- The page with nothing written on it, in the current colors. -/
def clear (p : Page) : Page :=
  { p with
    cells := .fill p.columns p.rows (blank p.color p.background)
    column := 0
    row := 0 }

/-- The place nearest to `n` among the first `size` places. -/
def clamp (size : Nat) (n : Int32) : Nat := (min n.toInt (size - 1)).toNat

/-- The page with its cursor moved; a missing part stays as it is. -/
def moveTo (p : Page) (column row : Option Int32) : Page :=
  { p with
    column := (column.map (clamp p.columns)).getD p.column
    row := (row.map (clamp p.rows)).getD p.row }

end Page

end LineBasic
