import LineBasic.Console.Terminal
import LineBasic.Display.Screen

/-!
# Terminal output

Display commands are carried out twice: on a screen in memory and on a terminal.
The screen in memory knows the cursor and the colors. Text is held back until it
is flushed or the cursor is moved; what is held back when the screen is cleared
is never written. A failure of the terminal is remembered, and the first one is
told at the next flush.
-/

namespace LineBasic

/-- A terminal with the screen that goes with it. -/
structure Output where
  terminal : Terminal := {}
  screen : Screen
  /-- Text that is still to be written. -/
  held : String := ""
  /-- Whether text is styled in its colors. -/
  color : Bool := true
  /-- The first failure since the last flush. -/
  failure : Option Text := none

namespace Output

/-- Remembers a failure, unless there is an earlier one. -/
def remember (o : Output) (failure : Option Text) : Output :=
  { o with failure := o.failure <|> failure }

/-- Makes calls and remembers whether one failed. -/
def callAll (o : Output) (calls : List Call) : Output :=
  let (terminal, failure) := o.terminal.callAll calls
  { o with terminal }.remember failure

/-- A character as the terminal is to show it on this page. -/
def styled (color : Bool) (page : Page) (c : Char) : String :=
  if color then Style.colored page.color page.background c.toString else c.toString

/-- How a character is written on the terminal, given the page with the character
on it. The terminal may be wider than the page, so where the page went on to the
next row the terminal is told to. -/
def shown (color : Bool) (page : Page) (c : Char) : String :=
  if c = '\n' ∨ c = '\r' then c.toString
  else if page.column = 0 then styled color page c ++ "\n"
  else styled color page c

/-- The calls that bring the cursor of the terminal from one place to another. -/
def moves (fromRow column row : Nat) : List Call :=
  (if row < fromRow then [.moveUp (fromRow - row)] else []) ++
    (if fromRow < row then [.moveDown (row - fromRow)] else []) ++
    .firstColumn :: if 0 < column then [.moveRight column] else []

def apply (o : Output) (command : Display.Command) : Output :=
  -- taken apart, so that the screen has no second owner while it is written
  match o with
  | ⟨terminal, screen, held, color, failure⟩ =>
    let row := screen.page.row
    let screen := screen.apply command
    match command with
    | .character c => ⟨terminal, screen, held ++ shown color screen.page c, color, failure⟩
    | .clearScreen => callAll ⟨terminal, screen, "", color, failure⟩ [.clearScreen]
    | .moveTo _ _ =>
      callAll ⟨terminal, screen, "", color, failure⟩
        (.write held :: moves row screen.page.column screen.page.row)
    | _ => ⟨terminal, screen, held, color, failure⟩

/-- Writes the held text, if there is any, and tells the first failure. -/
def flush (o : Output) : Output × Option Text :=
  let o := if o.held.isEmpty then o else { o with held := "" }.callAll [.write o.held]
  ({ o with failure := none }, o.failure)

/-- Keeps the screen in step with a line that appears on the terminal by itself. -/
def echo (o : Output) (line : Text) : Output :=
  { o with screen := o.screen.run (Display.write (line ++ ['\n'])) }

/-- Draws a picture of the surface if it was drawn on, and tells a failure. -/
def drawPicture (o : Output) : Output × Option Text :=
  if o.screen.surface.dirty then
    let (terminal, failure) := o.terminal.call (.write (Style.picture o.color o.screen.surface))
    ({ o with terminal, screen := o.screen.clean }, failure)
  else (o, none)

end Output

end LineBasic
