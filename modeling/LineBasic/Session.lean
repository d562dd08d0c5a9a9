import LineBasic.Machine.Execute

/-!
# Sessions

A session takes lines in and executes them in slices, so that its host stays
responsive. Entering a line executes nothing: a numbered line edits the program,
a direct line is queued, and a line that cannot be read is put aside. A slice
reports what was put aside, then a requested break, then runs the program and
the queued lines; it ends when nothing is left to do or when its budget of
program steps is spent with the program still running.
-/

namespace LineBasic

/-- What goes on when a slice ends. -/
inductive Activity where
  /-- Nothing is left to do. -/
  | stopped
  /-- The budget was spent with a program still running. -/
  | running
  deriving DecidableEq, Repr

/-- The machine together with what it has been asked to do. -/
structure Session where
  machine : Machine := .initial
  /-- Direct lines that wait for their execution, the oldest first. -/
  queue : List Line := []
  /-- Errors of lines that were rejected since the last slice. -/
  rejected : List Error := []
  /-- Whether a break was requested since the last slice. -/
  interrupted : Bool := false

/-- What a slice leaves behind: what goes on, the session, and what it commanded. -/
structure Slice where
  activity : Activity
  session : Session
  output : Array Display.Command

namespace Session

def initial : Session := {}

/-- How many steps a line may run before the host looks at the keyboard. -/
def defaultBudget : Nat := 5000

def reject (s : Session) (e : Error) : Session := { s with rejected := s.rejected ++ [e] }

/-- Takes a line that could be read. A direct line ends the run in progress. -/
def accept (s : Session) (l : Line) : Session × Bool :=
  match l.number with
  | none =>
    if l.isEmpty then (s, false)
    else ({ s with machine := s.machine.halt, queue := s.queue ++ [l] }, true)
  | some n =>
    let program :=
      if l.isEmpty then s.machine.program.remove n else s.machine.program.insert ⟨n, l.text⟩
    ({ s with machine := { s.machine with program } }, true)

/-- Takes one line of input and tells whether it is worth remembering. -/
def enter (s : Session) (t : Text) : Session × Bool :=
  if Line.maxBytes < t.byteLength then (s.reject { kind := .lineBufferOverflow }, false)
  else
    match Line.read t with
    | .error e => (s.reject e, false)
    | .ok l => s.accept l

def interrupt (s : Session) : Session := { s with interrupted := true }

/-- Runs the program as long as it takes and the budget lasts, then the queued
lines in turn. -/
def work (budget : Nat) (queue : List Line) (m : Machine) (output : Array Display.Command) :
    Slice :=
  if m.isRunning then
    match budget with
    | 0 => ⟨.running, { machine := m, queue }, output⟩
    | budget + 1 =>
      let (m, commands) := m.step
      work budget queue m (output ++ commands)
  else
    match queue with
    | [] => ⟨.stopped, { machine := m }, output⟩
    | l :: queue =>
      let (m, commands) := m.execute l
      work budget queue m (output ++ commands)
termination_by budget + queue.length

/-- One slice with a budget of program steps. -/
def execute (s : Session) (budget : Nat) : Slice :=
  let reports := s.rejected.flatMap Machine.report
  let (m, breakReport) := if s.interrupted then s.machine.interrupt else (s.machine, [])
  work budget s.queue m (reports ++ breakReport).toArray

/-- Slices of the given budget until nothing is left to do; `fuel` bounds their
number. -/
def finish (budget : Nat) (fuel : Nat) (s : Session) (output : Array Display.Command) :
    Option (Session × Array Display.Command) :=
  match fuel with
  | 0 => none
  | fuel + 1 =>
    let slice := s.execute budget
    match slice.activity with
    | .stopped => some (slice.session, output ++ slice.output)
    | .running => finish budget fuel slice.session (output ++ slice.output)

/-- Enters a line and executes until nothing is left to do. -/
def process (fuel : Nat) (s : Session) (t : Text) : Option (Session × Array Display.Command) :=
  finish defaultBudget fuel (s.enter t).1 #[]

end Session

end LineBasic
