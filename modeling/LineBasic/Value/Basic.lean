import LineBasic.Relation
import LineBasic.Text.Blank
import LineBasic.Value.Integer

/-!
# Values

A value is an integer or a text; names carry no type, so either kind may be
stored under any name. Two values are compared as numbers when both are numbers
or one is and the other reads as one, and by their printed forms otherwise.
-/

namespace LineBasic

/-- What a variable holds and an expression denotes. -/
inductive Value where
  | text (content : Text)
  | integer (number : Int32)
  deriving DecidableEq, Repr

namespace Value

/-- What an unassigned variable holds. -/
def zero : Value := .integer 0

/-- The value as it is printed. -/
def print : Value → Text
  | .text s => s
  | .integer n => Integer.print n

@[simp] theorem print_text (s : Text) : (Value.text s).print = s := rfl

/-- Neither zero nor empty. -/
def isTrue : Value → Bool
  | .text s => !s.isEmpty
  | .integer n => n != 0

/-- The integer that a text with blanks around it denotes. -/
def numeral? (s : Text) : Option Int32 := Integer.read? s.trim

/-- The integer that the value is or denotes. -/
def toInteger : Value → Except Error Int32
  | .integer n => .ok n
  | .text s =>
    match numeral? s with
    | some n => .ok n
    | none => .error { kind := .typeMismatch }

/-- How two values stand to each other. -/
def compare : Value → Value → Ordering
  | .integer a, .integer b => Ord.compare a b
  | .text s, .text t => Ord.compare s t
  | .integer a, .text t =>
    match numeral? t with
    | some b => Ord.compare a b
    | none => Ord.compare (Integer.print a) t
  | .text s, .integer b =>
    match numeral? s with
    | some a => Ord.compare a b
    | none => Ord.compare s (Integer.print b)

def relates (r : Relation) (left right : Value) : Bool := r.holds (compare left right)

/-- The character of a code from 1 to 255; every other value gives a question mark. -/
def character (v : Value) : Value :=
  match v.toInteger with
  | .ok n => if 1 ≤ n.toInt ∧ n.toInt ≤ 255 then .text [Char.ofNat n.toInt.toNat] else .text ['?']
  | .error _ => .text ['?']

end Value

end LineBasic
