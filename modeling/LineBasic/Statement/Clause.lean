import LineBasic.Keyword
import LineBasic.Statement.Basic
import LineBasic.Text.Name

/-!
# Clauses

A clause is a statement read one level deep: the branches of a condition are
still text. Every failure to read one says what was expected in its place.

The branches are cut out of the text of their clause, so reading them in turn
comes to an end.
-/

namespace LineBasic

/-- What a statement lacks. -/
inductive Expected where
  | assignment
  | expression
  | statement
  | variable
  | consequence
  | column
  | row
  | colors
  | point
  | segment
  | rectangle
  | circle
  | loop
  deriving DecidableEq, Repr

namespace Expected

def name : Expected → String
  | assignment => "ASSIGNMENT"
  | expression => "EXPRESSION"
  | statement => "STATEMENT"
  | .variable => "VARIABLE"
  | consequence => "THEN"
  | column => "COLUMN"
  | row => "ROW"
  | colors => "FOREGROUND[,BACKGROUND]"
  | point => "X,Y"
  | segment => "X1,Y1,X2,Y2"
  | rectangle => "X1,Y1,X2,Y2[,F]"
  | circle => "X,Y,R[,F]"
  | loop => "FOR <VAR>=<START> TO <END> [STEP <STEP>]"

end Expected

/-- Why a text is no statement. -/
inductive Malformed where
  /-- It starts neither with a keyword nor with an assignment. -/
  | unknown
  /-- Something follows a keyword that stands alone. -/
  | argument
  | missing (part : Expected)
  deriving DecidableEq, Repr

/-- The detail that the error message gives. -/
def Malformed.detail : Malformed → String
  | unknown => ""
  | argument => "UNEXPECTED ARGUMENT"
  | missing part => "EXPECTED " ++ part.name

/-- A statement whose branches, if it has any, are still text. -/
inductive Clause where
  | whole (statement : Statement)
  | branch (condition : Condition) (yes : Text)
  | branchElse (condition : Condition) (yes no : Text)
  deriving DecidableEq, Repr

namespace Clause

/-- How much text is left to read, plus one for a branching clause. -/
def size : Clause → Nat
  | whole _ => 0
  | branch _ yes => yes.length + 1
  | branchElse _ yes no => yes.length + no.length + 1

@[simp] theorem size_whole (s : Statement) : (whole s).size = 0 := rfl

@[simp] theorem size_branch (condition : Condition) (yes : Text) :
    (branch condition yes).size = yes.length + 1 := rfl

@[simp] theorem size_branchElse (condition : Condition) (yes no : Text) :
    (branchElse condition yes no).size = yes.length + no.length + 1 := rfl

/-- An expression in its place; blank text is none. -/
def expression (part : Expected) (t : Text) : Except Malformed Expression :=
  if t.trim.isEmpty then .error (.missing part) else .ok (.ofText t)

/-- The expressions between commas, unless one of them is blank. -/
def arguments? (t : Text) : Option (List Expression) :=
  let parts := (t.split ',').map Expression.ofText
  if parts.any (·.source.isEmpty) then none else some parts

/-- Whether an argument is the mark of a filled shape. -/
def isFillMark (e : Expression) : Bool := e.source.upper == ['F']

/-- A keyword that stands alone. -/
def alone (s : Statement) (t : Text) : Except Malformed Clause :=
  if t.isEmpty then .ok (whole s) else .error .argument

/-- The assignment that the text is. -/
def assignment? (t : Text) : Option (Except Malformed Clause) :=
  t.assignment?.map fun (name, value) =>
    (expression .expression value).map fun e => whole (.assign name.canonical e)

/-- The pair of coordinates that the text is. -/
def point (make : Expression → Expression → Statement) (t : Text) : Except Malformed Clause :=
  match arguments? t with
  | some [x, y] => .ok (whole (make x y))
  | _ => .error (.missing .point)

/-- One color for the text, or one each for text and background. -/
def color (t : Text) : Except Malformed Clause :=
  match arguments? t with
  | some [text] => .ok (whole (.color text none))
  | some [text, background] => .ok (whole (.color text (some background)))
  | _ => .error (.missing .colors)

/-- Both ends of a line. -/
def segment (t : Text) : Except Malformed Clause :=
  match arguments? t with
  | some [x₁, y₁, x₂, y₂] => .ok (whole (.line x₁ y₁ x₂ y₂))
  | _ => .error (.missing .segment)

/-- Two opposite corners and the mark of a filled shape. -/
def rectangle (t : Text) : Except Malformed Clause :=
  match arguments? t with
  | some [x₁, y₁, x₂, y₂] => .ok (whole (.rectangle x₁ y₁ x₂ y₂ false))
  | some [x₁, y₁, x₂, y₂, mark] =>
    if isFillMark mark then .ok (whole (.rectangle x₁ y₁ x₂ y₂ true))
    else .error (.missing .rectangle)
  | _ => .error (.missing .rectangle)

/-- Center, radius and the mark of a filled shape. -/
def circle (t : Text) : Except Malformed Clause :=
  match arguments? t with
  | some [x, y, radius] => .ok (whole (.circle x y radius false))
  | some [x, y, radius, mark] =>
    if isFillMark mark then .ok (whole (.circle x y radius true))
    else .error (.missing .circle)
  | _ => .error (.missing .circle)

/-- What one piece between separators prints: nothing if it is blank. -/
def printed (piece : Text) : List PrintPart :=
  if piece.trim.isEmpty then [] else [.value (.ofText piece)]

/-- The parts of a list to print. A comma stands for a space. A new line follows
at the end, unless the last separator is a semicolon with nothing behind it. -/
def printParts (last : Option Char) (piece : Text) : List (Char × Text) → List PrintPart
  | [] =>
    if piece.trim.isEmpty then if last = some ';' then [] else [.newline]
    else [.value (.ofText piece), .newline]
  | (separator, following) :: rest =>
    printed piece ++ (if separator = ',' then [.space] else []) ++
      printParts (some separator) following rest

def print (t : Text) : Clause :=
  let parts := t.segments fun c => c == ';' || c == ','
  whole (.print (printParts none parts.1 parts.2))

def loop (t : Text) : Except Malformed Clause :=
  match t.assignment? with
  | none => .error (.missing .loop)
  | some (name, range) =>
    match Keyword.to_.divide? range with
    | none => .error (.missing .loop)
    | some (start, rest) => do
      let start ← expression .loop start
      match Keyword.step.divide? rest with
      | none => do
        let limit ← expression .loop rest
        return whole (.loop name.canonical start limit none)
      | some (limit, step) => do
        let limit ← expression .loop limit
        let step ← expression .loop step
        return whole (.loop name.canonical start limit (some step))

def next (t : Text) : Except Malformed Clause :=
  if t.isEmpty then .ok (whole (.next none))
  else if t.isName then .ok (whole (.next (some t.canonical)))
  else .error (.missing .variable)

/-- A comparison if a relation is exposed, else a single value. -/
def condition (t : Text) : Except Malformed Condition :=
  match Relation.divide? t with
  | none => (expression .expression t).map .value
  | some (left, relation, right) => do
    let left ← expression .expression left
    let right ← expression .expression right
    return .compare left relation right

/-- A condition with its branches. -/
def conditional (t : Text) : Except Malformed Clause :=
  match Keyword.then_.divide? t with
  | none => .error (.missing .consequence)
  | some (test, branches) => do
    let test ← condition test
    match Keyword.else_.divide? branches with
    | none => return branch test branches
    | some (yes, no) => return branchElse test yes no

/-- The clause that a keyword opens. -/
def ofKeyword (t : Text) : Keyword → Except Malformed Clause
  | .circle => circle t
  | .cls => alone .clear t
  | .color => color t
  | .end_ => alone .stop t
  | .fill => point .fill t
  | .for_ => loop t
  | .home => alone .home t
  | .htab => (expression .column t).map fun e => whole (.column e)
  | .if_ => conditional t
  | .let_ => (assignment? t).getD (.error (.missing .assignment))
  | .line => segment t
  | .list => alone .list t
  | .new => alone .erase t
  | .next => next t
  | .plot => point .plot t
  | .print | .question => .ok (print t)
  | .rect => rectangle t
  | .rem => .ok (whole .remark)
  | .run => alone .run t
  | .vtab => (expression .row t).map fun e => whole (.row e)
  | .else_ | .step | .then_ | .to_ => .error (.missing .statement)

/-- Reads a clause. A keyword at its start decides; without one it has to be an
assignment. -/
def read (t : Text) : Except Malformed Clause :=
  match Keyword.leading? t with
  | some (w, rest) => ofKeyword rest w
  | none => (assignment? t).getD (.error .unknown)

/-- Reads a branch. Here an assignment comes first, even to a name that starts
with a keyword. -/
def readBranch (t : Text) : Except Malformed Clause :=
  if t.trim.isEmpty then .error (.missing .statement)
  else (assignment? t.trim).getD (read t.trim)

end Clause

end LineBasic
