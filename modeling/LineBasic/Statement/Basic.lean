import LineBasic.Expression.Basic
import LineBasic.Relation

/-!
# Statements

A statement is what one line, or one branch of a condition, asks for. The shape
of its arguments is settled here; the expressions in it stay source text and are
evaluated when the statement runs.
-/

namespace LineBasic

/-- What a branch depends on. -/
inductive Condition where
  | compare (left : Expression) (relation : Relation) (right : Expression)
  /-- Holds when the value is neither zero nor empty. -/
  | value (e : Expression)
  deriving DecidableEq, Repr

/-- One part of what is printed. -/
inductive PrintPart where
  | value (e : Expression)
  | space
  | newline
  deriving DecidableEq, Repr

/-- Everything a line can ask for. -/
inductive Statement where
  | circle (x y radius : Expression) (filled : Bool)
  /-- Clears the text and the graphics. -/
  | clear
  | color (text : Expression) (background : Option Expression)
  /-- Ends the running program. -/
  | stop
  | fill (x y : Expression)
  | loop (name : Text) (start limit : Expression) (step : Option Expression)
  /-- Moves the cursor to the top left corner. -/
  | home
  | column (position : Expression)
  | branch (condition : Condition) (yes : Statement)
  | branchElse (condition : Condition) (yes no : Statement)
  | assign (name : Text) (value : Expression)
  | line (x₁ y₁ x₂ y₂ : Expression)
  | list
  /-- Removes the program, the variables and the loops. -/
  | erase
  /-- Closes the loop of the variable, or the innermost one. -/
  | next (name : Option Text)
  | plot (x y : Expression)
  | print (parts : List PrintPart)
  | rectangle (x₁ y₁ x₂ y₂ : Expression) (filled : Bool)
  | remark
  | run
  | row (position : Expression)
  deriving DecidableEq, Repr

end LineBasic
