import LineBasic.Console.Host

/-!
# The program

The command line, the terminal and the keyboard of a host. Everything is decided
by `Host`; here its record is sent to the terminal and lines are read.
-/

namespace LineBasic

/-- Sends what was recorded to the terminal. -/
def Host.send (h : Host) : IO Host := do
  let stdout ← IO.getStdout
  for entry in h.output.terminal.record do
    if let .call c := entry then stdout.putStr c.sequence
  stdout.flush
  return { h with output := { h.output with terminal := { h.output.terminal with record := #[] } } }

/-- A line from the keyboard without its end, or nothing at the end of the input. -/
def readLine : IO (Option Text) := do
  let line ← (← IO.getStdin).getLine
  return if line.isEmpty then none else some (line.toList.filter (· != '\n'))

/-- Serves the keyboard until the input ends. -/
partial def Host.serve (h : Host) : IO Unit := do
  let (h, turn) := h.turn
  let h ← h.send
  match turn with
  | .again => h.serve
  | .failed reason => IO.eprintln (String.ofList reason)
  | .prompt =>
    match ← readLine with
    | none => return
    | some line => (h.take line).serve

end LineBasic

/-- Reads the command line and serves the keyboard. -/
def main (arguments : List String) : IO UInt32 := do
  match LineBasic.Options.parse (arguments.map String.toList) with
  | .error e =>
    IO.eprintln e.message
    IO.eprintln "\nUsage: retro [OPTIONS]\n\nFor more information, try '--help'."
    return 2
  | .ok .help =>
    IO.print LineBasic.Options.help
    return 0
  | .ok (.start options) =>
    (LineBasic.Host.initial options).serve
    return 0
