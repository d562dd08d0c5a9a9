import LineBasic.Text.Basic

/-!
# Display commands

The interpreter speaks to its display in commands and is never answered. Colors
are indices of the palette. A drawing command without a color uses the drawing
color of the display, and coordinates may lie anywhere.
-/

namespace LineBasic

/-- An index of the palette. -/
abbrev Color := UInt8

namespace Display

/-- One order to the display. -/
inductive Command where
  | character (c : Char)
  | textColor (color : Color)
  | backgroundColor (color : Color)
  | clearScreen
  | clearGraphics
  /-- Moves the cursor to a column and a row, counted from zero. A missing one
  stays as it is. -/
  | moveTo (column row : Option Int32)
  | pixel (x y : Int32) (color : Option Color)
  | line (x₁ y₁ x₂ y₂ : Int32) (color : Option Color)
  | rectangle (x₁ y₁ x₂ y₂ : Int32) (filled : Bool) (color : Option Color)
  | circle (x y radius : Int32) (filled : Bool) (color : Option Color)
  | fill (x y : Int32)
  deriving DecidableEq, Repr

/-- The commands that write a text. -/
def write (t : Text) : List Command := t.map .character

@[simp] theorem write_nil : write [] = [] := rfl

@[simp] theorem write_append (s t : Text) : write (s ++ t) = write s ++ write t := by
  simp [write]

/-- The characters that commands write. -/
def written (commands : List Command) : Text :=
  commands.filterMap fun
    | .character c => some c
    | _ => none

@[simp] theorem written_write (t : Text) : written (write t) = t := by
  induction t with
  | nil => rfl
  | cons c t ih => exact congrArg (c :: ·) ih

end Display

end LineBasic
