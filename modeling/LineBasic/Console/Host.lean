import LineBasic.Console.Options
import LineBasic.Console.Output

/-!
# The host

The host gives lines from the keyboard to a session and carries out on the
terminal what the session commands. Between two slices it looks at the break key.
Whenever the session has nothing left to do, the host prints that it is ready if
text was written since, and reads a line. A failure of the terminal ends it.
-/

namespace LineBasic

/-- The session with its terminal. -/
structure Host where
  options : Options
  output : Output
  session : Session := .initial
  /-- Whether there was output since the host last printed that it is ready. -/
  announce : Bool := true

namespace Host

/-- What comes next. -/
inductive Turn where
  /-- Another slice. -/
  | again
  /-- A line is to be read. -/
  | prompt
  | failed (reason : Text)
  deriving DecidableEq, Repr

/-- A host on a new terminal. -/
def initial (options : Options) : Host :=
  { options
    output := { screen := .empty options.columns options.rows, color := options.color } }

/-- What the host needs before it can start, in the order in which it is set up. -/
inductive Equipment where
  /-- The watch over the break key. -/
  | breakKey
  /-- The reader of lines. -/
  | reader
  | terminal
  deriving DecidableEq, Repr

/-- Sets a host up, unless something that it needs is at fault. -/
def setUp (faults : Equipment → Option Text) (options : Options) : Except Text Host :=
  match faults .breakKey, faults .reader, faults .terminal with
  | some reason, _, _ => .error ("Error setting Ctrl-C handler: ".toList ++ reason)
  | none, some reason, _ => .error reason
  | none, none, some reason => .error reason
  | none, none, none => .ok (initial options)

/-- What the host prints when it is ready, without its style. -/
def ready : String := "READY."

/-- Passes a press of the break key on to the session. -/
def passBreak (h : Host) : Host :=
  if h.output.terminal.interrupted then
    { h with
      session := h.session.interrupt
      output := { h.output with terminal := { h.output.terminal with interrupted := false } } }
  else h

/-- Executes one slice and carries out what it commanded. -/
def slice (h : Host) : Host × Activity :=
  let h := h.passBreak
  let slice := h.session.execute h.options.cycles
  let output := slice.output.foldl Output.apply h.output
  ({ h with
      session := slice.session
      announce := h.announce || !output.held.isEmpty
      output },
    slice.activity)

/-- Prints that the host is ready, if it has to. -/
def printReady (h : Host) : Host × Option Text :=
  if h.announce then
    match h.output.terminal.call (.print (Style.bold ready ++ "\n")) with
    | (terminal, some reason) =>
      ({ h with output := { h.output with terminal }, announce := false }, some reason)
    | (terminal, none) =>
      ({ h with output := { h.output with terminal }.echo ready.toList, announce := false }, none)
  else (h, none)

def drawPicture (h : Host) : Host × Option Text :=
  if h.options.graphics then
    let (output, failure) := h.output.drawPicture
    ({ h with output }, failure)
  else (h, none)

/-- One turn: a slice, and when nothing is left to do, all that comes before the
next line is read. -/
def turn (h : Host) : Host × Turn :=
  let (h, activity) := h.slice
  let (output, failure) := h.output.flush
  let h := { h with output }
  match failure, activity with
  | some reason, _ => (h, .failed reason)
  | none, .running => (h, .again)
  | none, .stopped =>
    match h.drawPicture with
    | (h, some reason) => (h, .failed reason)
    | (h, none) =>
      match h.printReady with
      | (h, some reason) => (h, .failed reason)
      | (h, none) => (h, .prompt)

/-- The line that completes what is typed: the number of a program line brings
the line itself. -/
def offer (h : Host) (typed : Text) : Option Text :=
  (Decimal.readUnsigned? typed.trim).bind fun n =>
    (h.session.machine.program.find? n).map fun line => line.toLine.display

/-- Takes a line that was read. -/
def take (h : Host) (line : Text) : Host :=
  let output := h.output.echo line
  match h.session.enter line with
  | (session, true) =>
    let terminal := output.terminal.note (.history line)
    { h with session, output := { output with terminal } }
  | (session, false) => { h with session, output }

/-- Runs the host on what happens at the keyboard until it ends, with the reason
if it failed; `fuel` bounds the number of turns. -/
def run (fuel : Nat) (h : Host) (actions : List Action) : Option (Host × Option Text) :=
  match fuel with
  | 0 => none
  | fuel + 1 =>
    match h.turn with
    | (h, .failed reason) => some (h, some reason)
    | (h, .again) => run fuel h actions
    | (h, .prompt) =>
      let (terminal, input, rest) := h.output.terminal.readLine h.offer actions
      let h := { h with output := { h.output with terminal } }
      match input with
      | .closed => some (h, none)
      | .failure reason => some (h, some reason)
      | .line line => run fuel (h.take line) rest

end Host

end LineBasic
