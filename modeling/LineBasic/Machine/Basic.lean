import LineBasic.Display.Command
import LineBasic.Expression.Eval
import LineBasic.Loop
import LineBasic.Program

/-!
# The machine

The machine holds the stored program, the variables and the open loops. While a
program runs it also holds the line numbers as they were when the run began and
the place of the next one: later edits change the text of lines, but neither
their order nor which of them are visited.
-/

namespace LineBasic

/-- A run in progress. -/
structure Run where
  /-- The line numbers of the program when it was started. -/
  lines : Array Nat
  /-- The place of the line that comes next. -/
  next : Nat
  deriving DecidableEq, Repr

/-- The line that is named when the run is interrupted: the next one, or the last
one behind the end of the program. -/
def Run.pendingLine? (r : Run) : Option Nat := r.lines[r.next]? <|> r.lines.back?

/-- Everything that statements act on. -/
structure Machine where
  program : Program := .empty
  vars : Variables := .empty
  loops : Stack Loop := .empty
  run : Option Run := none

namespace Machine

def initial : Machine := {}

def isRunning (m : Machine) : Bool := m.run.isSome

/-- The machine with its run ended. Program, variables and loops stay. -/
def halt (m : Machine) : Machine := { m with run := none }

def erase (_ : Machine) : Machine := .initial

/-- The machine at the first line of its program, if there is any. -/
def start (m : Machine) : Machine :=
  let m := { m with run := none, loops := .empty }
  if m.program.isEmpty then m
  else { m with run := some { lines := m.program.numbers.toArray, next := 0 } }

def integer (m : Machine) (e : Expression) : Except Error Int32 := e.evalInteger m.vars

def holds (m : Machine) : Condition → Except Error Bool
  | .compare left relation right => do
    let left ← left.eval m.vars
    let right ← right.eval m.vars
    return left.relates relation right
  | .value e => do return (← e.eval m.vars).isTrue

def printPart (m : Machine) : PrintPart → Except Error Text
  | .value e => do return (← e.eval m.vars).print
  | .space => .ok [' ']
  | .newline => .ok ['\n']

/-- What a list of parts prints, complete before any of it is written. -/
def printParts (m : Machine) (parts : List PrintPart) : Except Error Text := do
  return (← parts.mapM m.printPart).flatten

/-- A color of the palette. -/
def colorIndex (n : Int32) : Except Error Color :=
  if 0 ≤ n.toInt ∧ n.toInt ≤ 15 then .ok (UInt8.ofNat n.toInt.toNat)
  else .error (.because .illegalFunctionCall "COLOR MUST BE 0 TO 15")

def color (m : Machine) (e : Expression) : Except Error Color := do colorIndex (← m.integer e)

/-- The cursor position that an expression denotes, which is counted from one. -/
def position (m : Machine) (e : Expression) : Except Error Int32 := do
  let n ← m.integer e
  return (Integer.ofInt? (n.toInt - 1)).getD n

end Machine

end LineBasic
