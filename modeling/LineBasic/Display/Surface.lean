import LineBasic.Display.Command
import LineBasic.Display.Region
import LineBasic.Display.Shape.Circle
import LineBasic.Display.Shape.Line

/-!
# The drawing surface

The surface is a grid of pixels with a drawing color, its ink. It remembers
whether something was drawn since this was last asked: painting any pixel counts,
even in the color it has, while drawing that lies off the surface altogether does
not.
-/

namespace LineBasic

/-- The pixels, the color to draw in, and whether they were drawn on. -/
structure Surface where
  pixels : Grid Color
  ink : Color := 14
  dirty : Bool := false

namespace Surface

/-- The color of a pixel that was never drawn. -/
def blank : Color := 15

def empty (width height : Nat) : Surface := { pixels := .fill width height blank }

def pixel? (s : Surface) (x y : Int) : Option Color := s.pixels.get? ⟨x, y⟩

/-- The color to draw in, unless another one is asked for. -/
def colorOr (s : Surface) (color : Option Color) : Color := color.getD s.ink

/-- The surface with spans painted in a color. -/
def paint (s : Surface) (color : Color) (spans : List Span) : Surface :=
  -- taken apart, so that the pixels have no second owner while they are written
  match s with
  | ⟨pixels, ink, dirty⟩ =>
    let touched := spans.any pixels.touches
    ⟨spans.foldl (·.paint color ·) pixels, ink, dirty || touched⟩

def plot (s : Surface) (p : Point) (color : Color) : Surface := s.paint color [.ofPoint p]

def line (s : Surface) (a b : Point) (color : Color) : Surface :=
  s.paint color ((Shape.line (fun p => decide (s.pixels.Contains p)) a b).map .ofPoint)

def rectangle (s : Surface) (a b : Point) (filled : Bool) (color : Color) : Surface :=
  s.paint color (Shape.rectangle s.pixels.width s.pixels.height a b filled)

def circle (s : Surface) (center : Point) (radius : Int) (filled : Bool) (color : Color) :
    Surface :=
  s.paint color (Shape.circle s.pixels.height center radius filled)

/-- Fills the region of a point with the ink. -/
def fill (s : Surface) (p : Point) : Surface :=
  match s with
  | ⟨pixels, ink, dirty⟩ =>
    let changes := (pixels.get? p).any (· != ink)
    ⟨pixels.floodFill p ink, ink, dirty || changes⟩

/-- The surface with nothing drawn on it; this counts as drawing. -/
def clear (s : Surface) : Surface :=
  { s with pixels := .fill s.pixels.width s.pixels.height blank, dirty := true }

def setInk (s : Surface) (color : Color) : Surface := { s with ink := color }

/-- The surface remembered as not drawn on. -/
def clean (s : Surface) : Surface := { s with dirty := false }

@[simp] theorem ink_paint (s : Surface) (color : Color) (spans : List Span) :
    (s.paint color spans).ink = s.ink := rfl

@[simp] theorem pixels_paint (s : Surface) (color : Color) (spans : List Span) :
    (s.paint color spans).pixels = spans.foldl (·.paint color ·) s.pixels := rfl

@[simp] theorem dirty_paint (s : Surface) (color : Color) (spans : List Span) :
    (s.paint color spans).dirty = (s.dirty || spans.any s.pixels.touches) := rfl

end Surface

end LineBasic
