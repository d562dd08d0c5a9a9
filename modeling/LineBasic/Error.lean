import LineBasic.Text.Decimal

/-!
# Errors

Whatever goes wrong with a line is reported as one line of text: the name of the
error, the number of the program line in which it arose, and a detail. Failures
to compute a value are told apart from failures in the shape or the place of a
statement, and reported with a different opening.
-/

namespace LineBasic

inductive ErrorKind where
  /-- The run was interrupted from the keyboard. -/
  | interrupted
  | nextWithoutFor
  | syntaxError
  | illegalFunctionCall
  | overflow
  | outOfMemory
  | divisionByZero
  /-- The statement works in a running program only. -/
  | illegalDirect
  | typeMismatch
  | lineBufferOverflow
  | internalError
  deriving DecidableEq, Repr

namespace ErrorKind

/-- The number by which the kind is known. -/
def number : ErrorKind → Nat
  | interrupted => 0
  | nextWithoutFor => 1
  | syntaxError => 2
  | illegalFunctionCall => 5
  | overflow => 6
  | outOfMemory => 7
  | divisionByZero => 11
  | illegalDirect => 12
  | typeMismatch => 13
  | lineBufferOverflow => 23
  | internalError => 51

/-- The name that opens the message. -/
def name : ErrorKind → String
  | interrupted => "BREAK"
  | nextWithoutFor => "NEXT WITHOUT FOR"
  | syntaxError => "SYNTAX ERROR"
  | illegalFunctionCall => "ILLEGAL FUNCTION CALL"
  | overflow => "OVERFLOW"
  | outOfMemory => "OUT OF MEMORY"
  | divisionByZero => "DIVISION BY ZERO"
  | illegalDirect => "ILLEGAL DIRECT"
  | typeMismatch => "TYPE MISMATCH"
  | lineBufferOverflow => "LINE BUFFER OVERFLOW"
  | internalError => "INTERNAL ERROR"

/-- Failures to compute a value, as opposed to failures in the shape or the
place of a statement. -/
def isComputation : ErrorKind → Bool
  | overflow | outOfMemory | divisionByZero | typeMismatch | internalError => true
  | _ => false

end ErrorKind

/-- An error, with the program line in which it arose, if any, and a detail that
may be empty. -/
structure Error where
  kind : ErrorKind
  line : Option Nat := none
  detail : Text := []
  deriving DecidableEq, Repr

namespace Error

/-- An error without a line, with a fixed detail. -/
def because (kind : ErrorKind) (detail : String) : Error := { kind, detail := detail.toList }

/-- The error placed in a line. An error that has a line keeps it. -/
def inLine (e : Error) (line : Option Nat) : Error :=
  if e.line.isNone then { e with line } else e

@[simp] theorem inLine_kind (e : Error) (line : Option Nat) : (e.inLine line).kind = e.kind := by
  unfold inLine
  split <;> rfl

theorem inLine_of_isNone {e : Error} (h : e.line = none) (line : Option Nat) :
    e.inLine line = { e with line } := by
  simp [inLine, h]

theorem inLine_of_some {e : Error} {n : Nat} (h : e.line = some n) (line : Option Nat) :
    e.inLine line = e := by
  simp [inLine, h]

def isDirect (e : Error) : Bool := e.line.isNone

/-- Where the error arose, as the message tells it. -/
def place (e : Error) : Text :=
  match e.line with
  | none => []
  | some n => " IN ".toList ++ Decimal.print n

/-- The message: name, place and detail. -/
def message (e : Error) : Text :=
  e.kind.name.toList ++ e.place ++ if e.detail.isEmpty then [] else "; ".toList ++ e.detail

/-- The opening of a report. -/
def opening (e : Error) : Text := if e.kind.isComputation then "?ERROR: ".toList else ['?']

/-- What is written when the error is reported: one line. -/
def report (e : Error) : Text := e.opening ++ e.message ++ ['\n']

end Error

end LineBasic
