import LineBasic.Statement.Parser

/-!
# Lines

A typed line may start with a line number, which is set off from the statement
by any number of gaps. The text of the statement is kept as it was typed and
read each time it runs. A number alone stands for the removal of its line.
-/

namespace LineBasic

/-- One line of input. A line without a number is direct: it is run at once. -/
structure Line where
  number : Option Nat
  text : Text
  deriving DecidableEq, Repr

namespace Line

def maxNumber : Nat := 65529

/-- The most bytes that a line may have when it is entered. -/
def maxBytes : Nat := 255

/-- Reads a line: the run of digits at its start is the number. -/
def read (s : Text) : Except Error Line :=
  let s := s.trimWhile isLineEdge
  let digits := s.takeWhile Char.isDigit
  let rest := s.dropWhile Char.isDigit
  if digits.isEmpty then .ok ⟨none, s⟩
  else if Decimal.value digits ≤ maxNumber then
    .ok ⟨some (Decimal.value digits), rest.dropWhile isGap⟩
  else .error (.because .syntaxError "INVALID LINE NUMBER")

/-- The line as it is listed. -/
def display (l : Line) : Text :=
  match l.number with
  | none => l.text
  | some n => Decimal.print n ++ ' ' :: l.text

/-- Whether the line is run at once. -/
def isDirect (l : Line) : Bool := l.number.isNone

/-- Whether there is no statement on the line. -/
def isEmpty (l : Line) : Bool := l.text.isEmpty

def statement (l : Line) : Except Error Statement := Statement.parse l.number l.text

end Line

end LineBasic
