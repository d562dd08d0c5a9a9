import LineBasic.Session

/-!
# The interpreter

The session as a machine keeps it. Whether a program runs, the lines that it runs and the
counter are three fields, and nothing but the code that writes them keeps them in step. A
stored line stands under a key and has a number of its own, if it has any. Statements are
actions on the interpreter and the display: what they changed and what they called for stays
when they fail later on. The loops that work off a program and the queued lines stop at the
conditions that they test and nowhere else.
-/

namespace LineBasic

/-- Lines under their keys, in ascending order of the keys. -/
structure Listing where
  source : List (Nat × Line) := []
  deriving DecidableEq, Repr

namespace Listing

def isEmpty (l : Listing) : Bool := l.source.isEmpty

/-- Puts a line where its key belongs, in place of the line that is there. -/
def put (key : Nat) (line : Line) : List (Nat × Line) → List (Nat × Line)
  | [] => [(key, line)]
  | entry :: rest =>
    if key < entry.1 then (key, line) :: entry :: rest
    else if key = entry.1 then (key, line) :: rest
    else entry :: put key line rest

/-- Stores a numbered line; a direct line changes nothing. -/
def insert (l : Listing) (line : Line) : Listing :=
  match line.number with
  | some number => ⟨put number line l.source⟩
  | none => l

def remove (l : Listing) (key : Nat) : Listing := ⟨l.source.filter (·.1 != key)⟩

def get? (l : Listing) (key : Nat) : Option Line :=
  (l.source.find? (·.1 == key)).map Prod.snd

def lineNumbers (l : Listing) : List Nat := l.source.map Prod.fst

def lines (l : Listing) : List Line := l.source.map Prod.snd

end Listing

namespace Interpreter

inductive State where
  | direct
  | running
  deriving DecidableEq, Repr

end Interpreter

structure Interpreter where
  listing : Listing := {}
  vars : Variables := .empty
  loops : Stack Loop := .empty
  state : Interpreter.State := .direct
  /-- The line numbers of the program when it was started. -/
  lines : Array Nat := #[]
  /-- The place of the line that comes next. -/
  counter : Nat := 0
  /-- Direct lines that wait for their execution, the oldest first. -/
  queue : List Line := []
  /-- Errors of lines that were rejected since the last slice. -/
  pending : List Error := []
  interrupted : Bool := false

/-- An interpreter with a display: what it called for so far, and the errors it reported. -/
structure Interpreter.Work where
  interpreter : Interpreter
  calls : List Display.Command := []
  reports : List Error := []

namespace Interpreter

def initial : Interpreter := {}

/-- Ends the run. -/
def stop (i : Interpreter) : Interpreter :=
  { i with state := .direct, lines := #[], counter := 0 }

/-- Takes one line of input and tells whether it is worth remembering. -/
def enter (i : Interpreter) (t : Text) : Interpreter × Bool :=
  if Line.maxBytes < t.byteLength then
    ({ i with pending := i.pending ++ [{ kind := .lineBufferOverflow }] }, false)
  else
    match Line.read t with
    | .error e => ({ i with pending := i.pending ++ [e] }, false)
    | .ok line =>
      match line.number with
      | none =>
        if line.isEmpty then (i, false)
        else
          let i := if i.state = .running then i.stop else i
          ({ i with queue := i.queue ++ [line] }, true)
      | some number =>
        if line.isEmpty then ({ i with listing := i.listing.remove number }, true)
        else ({ i with listing := i.listing.insert line }, true)

def interrupt (i : Interpreter) : Interpreter := { i with interrupted := true }

namespace Work

/-- Calls the display. -/
def send (w : Work) (command : Display.Command) : Work :=
  { w with calls := w.calls ++ [command] }

def write (w : Work) (t : Text) : Work := t.foldl (fun w c => w.send (.character c)) w

/-- Writes one line about an error. -/
def report (w : Work) (e : Error) : Work :=
  let w := { w with reports := w.reports ++ [e] }
  if e.kind.isComputation then w.write ("?ERROR: ".toList ++ e.message ++ ['\n'])
  else w.write ('?' :: e.message ++ ['\n'])

end Work

/-- What may fail. A failure leaves the work as it is at that moment. -/
abbrev Action := EStateM Error Work

namespace Action

def send (command : Display.Command) : Action Unit := modify (·.send command)

def write (t : Text) : Action Unit := modify (·.write t)

def change (f : Interpreter → Interpreter) : Action Unit :=
  modify fun w => { w with interpreter := f w.interpreter }

def interpreter : Action Interpreter := return (← get).interpreter

def lift {α : Type} : Except Error α → Action α
  | .ok a => pure a
  | .error e => throw e

def value (e : Expression) : Action Value := do lift (e.eval (← interpreter).vars)

def integer (e : Expression) : Action Int32 := do lift (← value e).toInteger

def store (name : Text) (v : Value) : Action Unit := do
  let vars ← lift ((← interpreter).vars.store name v)
  change ({ · with vars })

def holds : Condition → Action Bool
  | .compare left relation right => do
    let left ← value left
    let right ← value right
    return left.relates relation right
  | .value e => return (← value e).isTrue

def printed : PrintPart → Action Text
  | .value e => return (← value e).print
  | .space => return [' ']
  | .newline => return ['\n']

/-- Puts the parts together, and writes them if none of them failed. -/
def print (parts : List PrintPart) : Action Unit := do
  let shown ← parts.foldlM (fun (shown : Text) part => return shown ++ (← printed part)) []
  write shown

def colorIndex (n : Int32) : Action Color :=
  if 0 ≤ n.toInt ∧ n.toInt ≤ 15 then return UInt8.ofNat n.toInt.toNat
  else throw (.because .illegalFunctionCall "COLOR MUST BE 0 TO 15")

def color (e : Expression) : Action Color := do colorIndex (← integer e)

def setColors (text : Expression) : Option Expression → Action Unit
  | none => do
    let text ← color text
    send (.textColor text)
  | some background => do
    let text ← color text
    let background ← color background
    send (.textColor text)
    send (.backgroundColor background)

/-- One less, unless there is no such number. -/
def before (n : Int32) : Int32 := (Integer.ofInt? (n.toInt - 1)).getD n

def list : Action Unit := do
  let listing := (← interpreter).listing
  if listing.isEmpty then write "No program lines\n".toList
  else listing.lines.forM fun line => write (line.display ++ ['\n'])

def run : Action Unit := do
  change stop
  change ({ · with loops := .empty })
  let listing := (← interpreter).listing
  if listing.isEmpty then write "No program to run\n".toList
  else change ({ · with lines := listing.lineNumbers.toArray, state := .running })

def erase : Action Unit := do
  change stop
  change ({ · with listing := {}, vars := .empty, loops := .empty })

/-- Fails unless a program runs. -/
def expectRun : Action Unit := do
  if (← interpreter).state ≠ .running then throw { kind := .illegalDirect }

/-- The step of a loop, which is one unless it is given. -/
def stride : Option Expression → Action Int32
  | some step => integer step
  | none => return 1

/-- Gives up the loop of a variable, with all loops inside it. -/
def giveUp (name : Text) : Action Unit :=
  change fun i =>
    match i.loops.position? (·.name == name) with
    | some index => { i with loops := i.loops.truncate index }
    | none => i

def pushLoop (name : Text) (limit step : Int32) : Action Unit := do
  let i ← interpreter
  let loops ← lift (i.loops.push "TOO MANY NESTED LOOPS" { name, limit, step, resume := i.counter })
  change ({ · with loops })

def popLoop : Action Unit := do
  let (_, loops) ← lift (← interpreter).loops.pop
  change ({ · with loops })

def openLoop (name : Text) (start limit : Expression) (step : Option Expression) :
    Action Unit := do
  expectRun
  let start ← integer start
  let limit ← integer limit
  let step ← stride step
  store name (.integer start)
  giveUp name
  pushLoop name limit step

/-- The index of the loop that is to be closed. -/
def index? (loops : Stack Loop) : Option Text → Option Nat
  | some name => loops.position? (·.name == name)
  | none => if loops.isEmpty then none else some (loops.size - 1)

/-- The loop that is to be closed, with its index. -/
def target (name : Option Text) : Action (Nat × Loop) := do
  let loops := (← interpreter).loops
  match (index? loops name).bind fun index => (loops.get? index).map (index, ·) with
  | some found => return found
  | none => throw { kind := .nextWithoutFor }

/-- The next value of a loop's variable, and whether the loop goes around again. -/
def following (loop : Loop) : Action (Int32 × Bool) := do
  let current ← lift ((← interpreter).vars.fetch loop.name).toInteger
  lift (loop.advance current)

def closeLoop (name : Option Text) : Action Unit := do
  expectRun
  let (index, loop) ← target name
  change fun i => { i with loops := i.loops.truncate (index + 1) }
  let (next, again) ← following loop
  store loop.name (.integer next)
  if again then change ({ · with counter := loop.resume }) else popLoop

def perform : Statement → Action Unit
  | .circle x y radius filled => do
    let x ← integer x
    let y ← integer y
    let radius ← integer radius
    send (.circle x y radius filled none)
  | .clear => do
    send .clearScreen
    send .clearGraphics
  | .color text background => setColors text background
  | .stop => do
    change stop
    write "Program ended\n".toList
  | .fill x y => do
    let x ← integer x
    let y ← integer y
    send (.fill x y)
  | .loop name start limit step => openLoop name start limit step
  | .home => send (.moveTo (some 0) (some 0))
  | .column e => do
    let column := before (← integer e)
    send (.moveTo (some column) none)
  | .branch condition yes => do
    if ← holds condition then perform yes
  | .branchElse condition yes no => do
    if ← holds condition then perform yes else perform no
  | .assign name e => do
    let v ← value e
    store name v
  | .line x₁ y₁ x₂ y₂ => do
    let x₁ ← integer x₁
    let y₁ ← integer y₁
    let x₂ ← integer x₂
    let y₂ ← integer y₂
    send (.line x₁ y₁ x₂ y₂ none)
  | .list => list
  | .erase => do
    erase
    write "Program cleared\n".toList
  | .next name => closeLoop name
  | .plot x y => do
    let x ← integer x
    let y ← integer y
    send (.pixel x y none)
  | .print parts => print parts
  | .rectangle x₁ y₁ x₂ y₂ filled => do
    let x₁ ← integer x₁
    let y₁ ← integer y₁
    let x₂ ← integer x₂
    let y₂ ← integer y₂
    send (.rectangle x₁ y₁ x₂ y₂ filled none)
  | .remark => pure ()
  | .run => run
  | .row e => do
    let row := before (← integer e)
    send (.moveTo none (some row))

/-- Reads a line anew and performs its statement. -/
def line (l : Line) : Action Unit := do
  let s ← lift l.statement
  perform s

end Action

namespace Work

/-- Executes a line. If it fails, its error is reported as `placed` leaves it. -/
def attempt (w : Work) (l : Line) (placed : Error → Error) : Work :=
  match Action.line l w with
  | .ok _ w => w
  | .error e w => w.report (placed e)

/-- One step of the running program. The counter moves on before the line is executed. -/
def step (w : Work) : Work :=
  match w.interpreter.lines[w.interpreter.counter]? with
  | none => { w with interpreter := w.interpreter.stop }
  | some number =>
    let i := { w.interpreter with counter := w.interpreter.counter + 1 }
    match i.listing.get? number with
    | none => { w with interpreter := i }
    | some line =>
      { w with interpreter := i }.attempt line fun e =>
        if e.isDirect then { e with line := some number } else e

/-- Reports what was rejected. -/
def reportPending (w : Work) : Work :=
  w.interpreter.pending.foldl report { w with interpreter.pending := [] }

/-- Ends the run and reports where, if that was asked for. -/
def obeyBreak (w : Work) : Work :=
  let i := { w.interpreter with interrupted := false }
  if w.interpreter.interrupted ∧ i.state = .running then
    let w := { w with interpreter := i }.report
      { kind := .interrupted, line := i.lines[i.counter]? <|> i.lines.back? }
    { w with interpreter := w.interpreter.stop }
  else { w with interpreter := i }

/-- Works off the program and the queued lines. -/
def loop (budget : Nat) (w : Work) : Option (Activity × Work) :=
  if w.interpreter.state = .running then
    match budget with
    | 0 => some (.running, w)
    | budget + 1 => w.step |>.loop budget
  else
    match w.interpreter.queue with
    | [] => some (.stopped, w)
    | l :: queue => { w with interpreter.queue := queue }.attempt l id |>.loop budget
partial_fixpoint

/-- One slice with a budget of program steps. -/
def execute (w : Work) (budget : Nat) : Option (Activity × Work) :=
  w.reportPending.obeyBreak.loop budget

/-- Slices until nothing is left to do. -/
def finish (w : Work) : Option Work := do
  let (activity, w) ← w.execute Session.defaultBudget
  match activity with
  | .stopped => return w
  | .running => w |>.finish
partial_fixpoint

/-- Enters a line and executes until nothing is left to do. -/
def process (w : Work) (t : Text) : Option Work :=
  { w with interpreter := (w.interpreter.enter t).1 }.finish

end Work

/-- The interpreters that calls of the host lead to. Processing a line counts only if it
comes to an end. -/
inductive Reachable : Interpreter → Prop where
  | initial : Reachable initial
  | enter {i : Interpreter} (t : Text) : Reachable i → Reachable (i.enter t).1
  | execute {i : Interpreter} {w : Work} {budget : Nat} {activity : Activity} :
      Reachable i → Work.execute { interpreter := i } budget = some (activity, w) →
        Reachable w.interpreter
  | process {i : Interpreter} {w : Work} {t : Text} :
      Reachable i → Work.process { interpreter := i } t = some w → Reachable w.interpreter
  | interrupt {i : Interpreter} : Reachable i → Reachable i.interrupt

/-- The interpreters between two calls of the host, and those between two lines of a slice. -/
inductive Occurs : Interpreter → Prop where
  | reached {i : Interpreter} : Reachable i → Occurs i
  | opened {w : Work} : Reachable w.interpreter → Occurs w.reportPending.obeyBreak.interpreter
  | step {w : Work} :
      Occurs w.interpreter → w.interpreter.state = .running → Occurs w.step.interpreter
  | direct {w : Work} {l : Line} {queue : List Line} :
      Occurs w.interpreter → w.interpreter.state = .direct → w.interpreter.queue = l :: queue →
        Occurs ({ w with interpreter.queue := queue }.attempt l id).interpreter

end Interpreter

end LineBasic
