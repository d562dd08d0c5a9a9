import LineBasic.Machine.Perform

/-!
# Executing lines

A line is read each time it is executed, and whatever fails is reported on the
display, so executing always goes on. A step of a running program executes the
line that comes next; the counter moves on first, so that a statement can set it
anew. A line that was removed since the run began is passed over, and the step
behind the last line ends the run.
-/

namespace LineBasic.Machine

def report (e : Error) : List Display.Command := Display.write e.report

/-- Executes a line. An error is placed in it. -/
def execute (m : Machine) (l : Line) : Machine × List Display.Command :=
  match l.statement with
  | .error e => (m, report (e.inLine l.number))
  | .ok statement =>
    match m.perform statement with
    | (m, .ok commands) => (m, commands)
    | (m, .error e) => (m, report (e.inLine l.number))

/-- One step of the running program. -/
def step (m : Machine) : Machine × List Display.Command :=
  match m.run with
  | none => (m, [])
  | some run =>
    match run.lines[run.next]? with
    | none => (m.halt, [])
    | some number =>
      let m := { m with run := some { run with next := run.next + 1 } }
      match m.program.find? number with
      | none => (m, [])
      | some line => m.execute line.toLine

/-- Ends the run at once and reports where. -/
def interrupt (m : Machine) : Machine × List Display.Command :=
  match m.run with
  | none => (m, [])
  | some run => (m.halt, report { kind := .interrupted, line := run.pendingLine? })

end LineBasic.Machine
