import LineBasic.Display.Screen
import LineBasic.Proofs.Display.Canvas.Word

/-!
# The canvas

The screen as a machine keeps it: two arrays with their sizes, a cursor and three
colors, and commands that compute in machine words. Pixels are counted in 32 bits,
shapes in 64, and every sum, product and conversion is checked, as is every access
to an array. The loops of lines, roots and fills stop at the conditions that the
machine tests, not after a number of rounds.
-/

namespace LineBasic

open Word

structure Canvas where
  columns : Nat
  rows : Nat
  cells : Array Cell
  width : Nat
  height : Nat
  pixels : Array Color
  column : Nat
  row : Nat
  textColor : Color
  backgroundColor : Color
  pixelColor : Color
  dirty : Bool
  deriving DecidableEq, Repr

namespace Canvas

/-- An empty canvas of at least one column and one row. -/
def create (columns rows : Nat) : Checked Canvas := do
  let columns := max columns 1
  let rows := max rows 1
  let width ← size (columns * Screen.cellWidth)
  let height ← size (rows * Screen.cellHeight)
  return {
    columns
    rows
    cells := .replicate (← size (columns * rows)) (Page.blank 14 0)
    width
    height
    pixels := .replicate (← size (width * height)) Surface.blank
    column := 0
    row := 0
    textColor := 14
    backgroundColor := 0
    pixelColor := 14
    dirty := false }

/-- Where the pixel of a point is kept, for a point on the surface. -/
def index (c : Canvas) (x y : Int) : Checked (Option Nat) := do
  if x < 0 ∨ y < 0 then return none
  let column ← size x
  let row ← size y
  if c.width ≤ column ∨ c.height ≤ row then return none
  let start ← size (row * c.width)
  return some (← size (start + column))

def pixel (c : Canvas) (x y : Int) : Checked (Option Color) := do
  match ← c.index x y with
  | some i => return some (← c.pixels[i]?)
  | none => return none

def set (c : Canvas) (x y : Int) (color : Color) : Checked Canvas := do
  match ← c.index x y with
  | some i => return { c with pixels := ← Checked.write c.pixels i color, dirty := true }
  | none => return c

/-- Draws one row from `x₁` to `x₂`, which come in any order. -/
def hline (c : Canvas) (x₁ x₂ y : Int) (color : Color) : Checked Canvas := do
  if y < 0 ∨ (← int64 c.height) ≤ y then return c
  let left := max (min x₁ x₂) 0
  let right := min (max x₁ x₂) (← int64 ((← int64 c.width) - 1))
  (between left right).foldlM (fun c x => do c.set (← int32 x) (← int32 y) color) c

def newline (c : Canvas) : Checked Canvas := do
  let row ← size (c.row + 1)
  if c.rows ≤ row then
    let kept ← Checked.drop c.cells c.columns
    let row ← size (c.rows - 1)
    let blank := Page.blank c.textColor c.backgroundColor
    return { c with column := 0, row, cells := kept ++ Array.replicate c.columns blank }
  else return { c with column := 0, row }

/-- Starts the next row when the cursor stands behind the last column. -/
def wrap (c : Canvas) : Checked Canvas :=
  if c.columns ≤ c.column then c.newline else return c

/-- Writes into the cell at the cursor and moves on. -/
def putChar (c : Canvas) (ch : Char) : Checked Canvas := do
  let start ← size (c.row * c.columns)
  let i ← size (start + c.column)
  let cells ← Checked.write c.cells i ⟨ch, c.textColor, c.backgroundColor⟩
  let column ← size (c.column + 1)
  { c with cells, column }.wrap

def addChar (c : Canvas) (ch : Char) : Checked Canvas :=
  if ch = '\n' then c.newline
  else if ch = '\r' then return { c with column := 0 }
  else c.putChar ch

def setTextColor (c : Canvas) (color : Color) : Canvas :=
  let color := if 15 < color then 0 else color
  { c with textColor := color, pixelColor := color }

def setBackgroundColor (c : Canvas) (color : Color) : Canvas :=
  { c with backgroundColor := if 15 < color then 15 else color }

def clearScreen (c : Canvas) : Canvas :=
  let blank := Page.blank c.textColor c.backgroundColor
  { c with cells := c.cells.map fun _ => blank, column := 0, row := 0 }

def clearGraphics (c : Canvas) : Canvas :=
  { c with pixels := c.pixels.map fun _ => Surface.blank, dirty := true }

/-- The place on an axis of this length that is nearest to `n`. -/
def clamp (length : Nat) (n : Int32) : Checked Nat := do
  size (min (max n.toInt 0) (← int32 ((← int32 length) - 1)))

def moveCursorTo (c : Canvas) (column row : Option Int32) : Checked Canvas := do
  let column ← match column with
    | some n => clamp c.columns n
    | none => pure c.column
  let row ← match row with
    | some n => clamp c.rows n
    | none => pure c.row
  return { c with column, row }

def drawPixel (c : Canvas) (x y : Int32) (color : Option Color) : Checked Canvas :=
  c.set x.toInt y.toInt (color.getD c.pixelColor)

/-- Moves the pen along the first axis, if the balance asks for it. -/
def stepX (s : Shape.Slope) (doubled : Int) (p : Shape.Pen) : Checked Shape.Pen := do
  if (← int64 (-s.dy)) < doubled then
    return ⟨⟨← int64 (p.point.x + s.sx), p.point.y⟩, ← int64 (p.balance - s.dy)⟩
  else return p

/-- Moves the pen along the second axis, if the balance asks for it. -/
def stepY (s : Shape.Slope) (doubled : Int) (p : Shape.Pen) : Checked Shape.Pen := do
  if doubled < s.dx then
    return ⟨⟨p.point.x, ← int64 (p.point.y + s.sy)⟩, ← int64 (p.balance + s.dx)⟩
  else return p

/-- Draws on from where the pen is, until it stands on the last point or off the
surface. -/
def lineFrom (color : Color) (last : Point) (s : Shape.Slope) (p : Shape.Pen) (c : Canvas) :
    Checked Canvas := do
  let width ← int64 c.width
  let height ← int64 c.height
  if p.point.x < 0 ∨ p.point.y < 0 ∨ width ≤ p.point.x ∨ height ≤ p.point.y then return c
  let c ← c.set (← int32 p.point.x) (← int32 p.point.y) color
  if p.point = last then return c
  let doubled ← int64 (2 * p.balance)
  let p ← stepX s doubled p
  let p ← stepY s doubled p
  c |>.lineFrom color last s p
partial_fixpoint

def drawLine (c : Canvas) (x₁ y₁ x₂ y₂ : Int32) (color : Option Color) : Checked Canvas := do
  let (x₁, y₁, x₂, y₂) := (x₁.toInt, y₁.toInt, x₂.toInt, y₂.toInt)
  let dx ← int64 (← int64 (x₂ - x₁)).natAbs
  let dy ← int64 (← int64 (y₂ - y₁)).natAbs
  let sx := if x₁ < x₂ then 1 else -1
  let sy := if y₁ < y₂ then 1 else -1
  let balance ← int64 (dx - dy)
  c.lineFrom (color.getD c.pixelColor) ⟨x₂, y₂⟩ { dx, dy, sx, sy } ⟨⟨x₁, y₁⟩, balance⟩

/-- Draws a rectangle of which everything off the surface was cut away. -/
def drawBox (c : Canvas) (b : Shape.Box) (filled : Bool) (color : Color) : Checked Canvas := do
  if b.right < b.left ∨ b.bottom < b.top then return c
  if filled then
    (between b.top b.bottom).foldlM (fun c y => c.hline b.left b.right y color) c
  else
    let c ← c.hline b.left b.right b.top color
    let c ← c.hline b.left b.right b.bottom color
    (between b.top b.bottom).foldlM
      (fun c y => do (← c.set b.left y color).set b.right y color) c

def drawRectangle (c : Canvas) (x₁ y₁ x₂ y₂ : Int32) (filled : Bool) (color : Option Color) :
    Checked Canvas := do
  let (x₁, y₁, x₂, y₂) := (x₁.toInt, y₁.toInt, x₂.toInt, y₂.toInt)
  let left := max (min x₁ x₂) 0
  let right := min (max x₁ x₂) (← int32 ((← int32 c.width) - 1))
  let top := max (min y₁ y₂) 0
  let bottom := min (max y₁ y₂) (← int32 ((← int32 c.height) - 1))
  c.drawBox { left, right, top, bottom } filled (color.getD c.pixelColor)

/-- A number with an estimate of its root. -/
structure Estimate where
  n : Int
  x : Int

/-- Lowers an estimate while its square is above the number. -/
def Estimate.lower (e : Estimate) : Checked Int := do
  if e.n < (← int64 (e.x * e.x)) then
    let x ← int64 (e.x - 1)
    ({ e with x } : Estimate) |>.lower
  else return e.x
partial_fixpoint

/-- Raises an estimate while the square of its successor is not above the number. -/
def Estimate.raise (e : Estimate) : Checked Int := do
  let next ← int64 (e.x + 1)
  if (← int64 (next * next)) ≤ e.n then ({ e with x := next } : Estimate) |>.raise
  else return e.x
partial_fixpoint

/-- The square root of the nearest number of floating point, with the fraction cut
off. Rounding makes it too small or too large for some numbers. -/
def estimateRoot (n : Int) : Int :=
  (Float.Model.ofInt64 (Int64.ofInt n)).sqrt.toInt64.toInt

/-- The root of a number, from an estimate of it. -/
def root (estimate : Int → Int) (n : Int) : Checked Int := do
  let x ← Estimate.lower ⟨n, estimate n⟩
  Estimate.raise ⟨n, x⟩

/-- Half the width of a disc at a distance from its center row, or -1 where it has
no points. -/
def halfWidth (estimate : Int → Int) (radius distance : Int) : Checked Int := do
  if radius < distance then return -1
  let square ← int64 (radius * radius)
  let lost ← int64 (distance * distance)
  root estimate (← int64 (square - lost))

/-- Draws one row of a circle around a center. -/
def circleRow (estimate : Int → Int) (center : Point) (radius : Int) (filled : Bool)
    (color : Color) (c : Canvas) (y : Int) : Checked Canvas := do
  let distance ← int64 (← int64 (y - center.y)).natAbs
  let outer ← halfWidth estimate radius distance
  if filled then
    c.hline (← int64 (center.x - outer)) (← int64 (center.x + outer)) y color
  else
    let next ← halfWidth estimate radius (← int64 (distance + 1))
    let inner := min (← int64 (next + 1)) outer
    let c ← c.hline (← int64 (center.x - outer)) (← int64 (center.x - inner)) y color
    c.hline (← int64 (center.x + inner)) (← int64 (center.x + outer)) y color

/-- Draws a circle, with roots that are found from an estimate. -/
def drawCircle (c : Canvas) (estimate : Int → Int) (x y radius : Int32) (filled : Bool)
    (color : Option Color) : Checked Canvas := do
  let color := color.getD c.pixelColor
  let (x, y, radius) := (x.toInt, y.toInt, radius.toInt)
  if radius < 0 then return c
  let width ← int64 c.width
  let height ← int64 c.height
  let left ← int64 (x - radius)
  let right ← int64 (x + radius)
  let top ← int64 (y - radius)
  let bottom ← int64 (y + radius)
  if right < 0 ∨ bottom < 0 ∨ width ≤ left ∨ height ≤ top then return c
  (between (max top 0) (min bottom (← int64 (height - 1)))).foldlM
    (circleRow estimate ⟨x, y⟩ radius filled color) c

/-- Recolors whatever is connected to the points on a stack. -/
def fillFrom (target color : Color) (stack : List Point) (c : Canvas) : Checked Canvas := do
  match stack with
  | [] => return c
  | p :: stack =>
    if (← c.pixel p.x p.y) = some target then
      let c ← c.set p.x p.y color
      let right ← int32 (p.x + 1)
      let left ← int32 (p.x - 1)
      let below ← int32 (p.y + 1)
      let above ← int32 (p.y - 1)
      c |>.fillFrom target color
        (⟨p.x, above⟩ :: ⟨p.x, below⟩ :: ⟨left, p.y⟩ :: ⟨right, p.y⟩ :: stack)
    else c |>.fillFrom target color stack
partial_fixpoint

def floodFill (c : Canvas) (x y : Int32) : Checked Canvas := do
  let color := c.pixelColor
  match ← c.pixel x.toInt y.toInt with
  | some target =>
    if target ≠ color then c.fillFrom target color [⟨x.toInt, y.toInt⟩] else return c
  | none => return c

def apply (c : Canvas) : Display.Command → Checked Canvas
  | .character ch => c.addChar ch
  | .textColor color => return c.setTextColor color
  | .backgroundColor color => return c.setBackgroundColor color
  | .clearScreen => return c.clearScreen
  | .clearGraphics => return c.clearGraphics
  | .moveTo column row => c.moveCursorTo column row
  | .pixel x y color => c.drawPixel x y color
  | .line x₁ y₁ x₂ y₂ color => c.drawLine x₁ y₁ x₂ y₂ color
  | .rectangle x₁ y₁ x₂ y₂ filled color => c.drawRectangle x₁ y₁ x₂ y₂ filled color
  | .circle x y radius filled color => c.drawCircle estimateRoot x y radius filled color
  | .fill x y => c.floodFill x y

def run (c : Canvas) (commands : List Display.Command) : Checked Canvas :=
  commands.foldlM apply c

/-- The canvas that holds a screen. -/
abbrev ofScreen (s : Screen) : Canvas where
  columns := s.page.columns
  rows := s.page.rows
  cells := s.page.cells.cells
  width := s.surface.pixels.width
  height := s.surface.pixels.height
  pixels := s.surface.pixels.cells
  column := s.page.column
  row := s.page.row
  textColor := s.page.color
  backgroundColor := s.page.background
  pixelColor := s.surface.ink
  dirty := s.surface.dirty

end Canvas

end LineBasic
