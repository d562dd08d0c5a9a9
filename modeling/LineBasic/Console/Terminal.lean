import LineBasic.Console.Style

/-!
# Terminals

The console works on a terminal by calls, each of which may fail. What a terminal
does about a call is not modelled: a terminal here is the record of what it was
asked, together with what will go wrong. Faults and the press of the break key
are given by the number of the call during which they happen, so that every
course of events can be described beforehand.
-/

namespace LineBasic

/-- One order to the terminal. -/
inductive Call where
  | write (text : String)
  | clearScreen
  | moveUp (rows : Nat)
  | moveDown (rows : Nat)
  | firstColumn
  | moveRight (columns : Nat)
  /-- Writes a line of the console itself. -/
  | print (text : String)
  deriving DecidableEq, Repr

/-- What a terminal is sent to carry out the call. -/
def Call.sequence : Call → String
  | .write text | .print text => text
  | .clearScreen => Style.escape ++ "2J" ++ Style.escape ++ "H"
  | .moveUp rows => Style.escape ++ toString rows ++ "A"
  | .moveDown rows => Style.escape ++ toString rows ++ "B"
  | .firstColumn => "\r"
  | .moveRight columns => Style.escape ++ toString columns ++ "C"

/-- One entry of the record. -/
inductive Record where
  | call (c : Call)
  | read (line : Text)
  /-- A completion was asked for, and this was offered. -/
  | complete (typed : Text) (offer : Option Text)
  | history (line : Text)
  deriving DecidableEq, Repr

/-- The record of a terminal and what is to happen to it. -/
structure Terminal where
  record : Array Record := #[]
  calls : Nat := 0
  /-- Why the call of a number fails, if it does. -/
  faults : Nat → Option Text := fun _ => none
  /-- The number of the call during which the break key is pressed. -/
  breakAt : Option Nat := none
  /-- Whether the break key was pressed and not yet looked at. -/
  interrupted : Bool := false

namespace Terminal

/-- Adds an entry that is no call. -/
def note (t : Terminal) (entry : Record) : Terminal := { t with record := t.record.push entry }

/-- Makes a call, which is recorded even if it fails. -/
def call (t : Terminal) (c : Call) : Terminal × Option Text :=
  ({ t with
      record := t.record.push (.call c)
      calls := t.calls + 1
      interrupted := t.interrupted || t.breakAt == some t.calls },
    t.faults t.calls)

/-- Makes calls in order up to the first that fails. -/
def callAll (t : Terminal) : List Call → Terminal × Option Text
  | [] => (t, none)
  | c :: rest =>
    match t.call c with
    | (t, none) => t.callAll rest
    | (t, some fault) => (t, some fault)

end Terminal

/-- What happens at the keyboard. -/
inductive Action where
  | line (text : Text)
  | endOfInput
  | signal
  | failure (reason : Text)
  /-- A completion of what is typed so far is asked for. -/
  | complete (typed : Text)
  | interrupt
  /-- The break key is going to be pressed during the `n`-th call from now. -/
  | interruptAfter (n : Nat)
  /-- The `n`-th call from now is going to fail. -/
  | faultAfter (n : Nat) (reason : Text)
  deriving DecidableEq, Repr

/-- What reading a line comes to. -/
inductive Input where
  | line (text : Text)
  | closed
  | failure (reason : Text)
  deriving DecidableEq, Repr

namespace Terminal

/-- Reads a line: what happens up to its end, and what is left to happen. When
nothing is left, the input is at its end. -/
def readLine (offer : Text → Option Text) (t : Terminal) :
    List Action → Terminal × Input × List Action
  | [] => (t, .closed, [])
  | .line text :: rest => (t.note (.read text), .line text, rest)
  | .endOfInput :: rest => (t, .closed, rest)
  | .signal :: rest => (t, .closed, rest)
  | .failure reason :: rest => (t, .failure reason, rest)
  | .complete typed :: rest => (t.note (.complete typed (offer typed))).readLine offer rest
  | .interrupt :: rest => readLine offer { t with interrupted := true } rest
  | .interruptAfter n :: rest => readLine offer { t with breakAt := some (t.calls + n - 1) } rest
  | .faultAfter n reason :: rest =>
    readLine offer
      { t with faults := fun i => if i = t.calls + n - 1 then some reason else none } rest

end Terminal

end LineBasic
