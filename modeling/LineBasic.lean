import LineBasic.Main
import LineBasic.Proofs.Display.Fill
import LineBasic.Proofs.Expression.Arithmetic
import LineBasic.Proofs.Expression.Readback
import LineBasic.Proofs.Interpreter.Coupling
import LineBasic.Proofs.Session.CountedLoop
import LineBasic.Proofs.Session.Delivery
import LineBasic.Proofs.Session.Editing
import LineBasic.Proofs.Session.Forward
import LineBasic.Proofs.Session.Interruption
import LineBasic.Proofs.Session.Reload
import LineBasic.Proofs.Session.Queueing
import LineBasic.Proofs.Session.LastEdit
import LineBasic.Proofs.Session.Printing
import LineBasic.Proofs.Display.Scrolling
import LineBasic.Proofs.Display.Outline
import LineBasic.Proofs.Display.Bounds
import LineBasic.Proofs.Display.Disc
import LineBasic.Proofs.Display.Rectangle
import LineBasic.Proofs.Display.Nearest
import LineBasic.Proofs.Display.Canvas.Basic
import LineBasic.Proofs.Display.Canvas.Binary64
import LineBasic.Proofs.Display.Canvas.Fill
import LineBasic.Proofs.Display.Canvas.Independence
import LineBasic.Proofs.Display.Canvas.Line
import LineBasic.Proofs.Display.Canvas.Root
import LineBasic.Proofs.Display.Canvas.Run
import LineBasic.Proofs.Statement.Delimiters
import LineBasic.Proofs.Console.Calling
import LineBasic.Proofs.Console.Window
import LineBasic.Proofs.Console.Course
import LineBasic.Proofs.Console.Failure
import LineBasic.Proofs.Console.Ready
import LineBasic.Proofs.Statement.Case
import LineBasic.Proofs.Console.Picture
import LineBasic.Proofs.Expression.Joining
import LineBasic.Proofs.Statement.WellFormed
import LineBasic.Proofs.Statement.Assignment
import LineBasic.Proofs.Value.Comparison
