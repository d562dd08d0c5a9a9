import LineBasic.Error

/-!
# Checked integers

Numbers are signed 32-bit integers. Every operation is computed exactly and then
has to fit; a result outside the range is an overflow, never a wrapped number.
Main statements: `ofInt?_eq_some_iff` says what fits, and each operation is
characterised by its exact result.
-/

namespace LineBasic

namespace Integer

/-- The integer of this value, if it is in range. -/
def ofInt? (n : Int) : Option Int32 :=
  if -2147483648 ≤ n ∧ n < 2147483648 then some (Int32.ofInt n) else none

theorem ofInt?_eq_some_iff {n : Int} {a : Int32} : ofInt? n = some a ↔ a.toInt = n := by
  unfold ofInt?
  constructor
  · intro h
    split at h
    · next hr =>
      obtain rfl : Int32.ofInt n = a := by simpa using h
      exact Int32.toInt_ofInt_of_le hr.1 hr.2
    · cases h
  · rintro rfl
    rw [if_pos ⟨a.le_toInt, a.toInt_lt⟩, Int32.ofInt_toInt]

theorem ofInt?_eq_none_iff {n : Int} : ofInt? n = none ↔ n < -2147483648 ∨ 2147483648 ≤ n := by
  unfold ofInt?
  split
  · next h => simp; omega
  · next h => simp; omega

@[simp] theorem ofInt?_toInt (a : Int32) : ofInt? a.toInt = some a :=
  ofInt?_eq_some_iff.mpr rfl

/-- An exact result that has to fit. -/
def checked (n : Int) : Except Error Int32 :=
  match ofInt? n with
  | some a => .ok a
  | none => .error { kind := .overflow }

theorem checked_eq_ok_iff {n : Int} {a : Int32} : checked n = .ok a ↔ a.toInt = n := by
  rw [← ofInt?_eq_some_iff, checked]
  cases ofInt? n <;> simp

theorem checked_eq_error_iff {n : Int} {e : Error} :
    checked n = .error e ↔ (n < -2147483648 ∨ 2147483648 ≤ n) ∧ e = { kind := .overflow } := by
  rw [← ofInt?_eq_none_iff, checked]
  cases ofInt? n <;> simp [eq_comm]

def print (a : Int32) : Text := Decimal.printInt a.toInt

/-- Reads digits with at most one sign before them, if the number is in range. -/
def read? (t : Text) : Option Int32 := (Decimal.readInt? t).bind ofInt?

theorem read?_print (a : Int32) : read? (print a) = some a := by
  simp [read?, print, Decimal.readInt?_printInt]

def negate (a : Int32) : Except Error Int32 := checked (-a.toInt)

end Integer

/-- The four operations. -/
inductive Operator where
  | plus
  | minus
  | times
  | divide
  deriving DecidableEq, Repr

namespace Operator

def sign : Operator → Char
  | plus => '+'
  | minus => '-'
  | times => '*'
  | divide => '/'

def ofChar? : Char → Option Operator
  | '+' => some plus
  | '-' => some minus
  | '*' => some times
  | '/' => some divide
  | _ => none

theorem ofChar?_sign (o : Operator) : ofChar? o.sign = some o := by cases o <;> rfl

theorem ofChar?_eq_some_iff {c : Char} {o : Operator} : ofChar? c = some o ↔ c = o.sign := by
  constructor
  · intro h
    unfold ofChar? at h
    split at h <;> cases h <;> rfl
  · rintro rfl
    exact ofChar?_sign o

/-- Applies the operation. Division cuts the fraction off, toward zero. -/
def apply (o : Operator) (a b : Int32) : Except Error Int32 :=
  match o with
  | plus => Integer.checked (a.toInt + b.toInt)
  | minus => Integer.checked (a.toInt - b.toInt)
  | times => Integer.checked (a.toInt * b.toInt)
  | divide =>
    if b = 0 then .error { kind := .divisionByZero }
    else Integer.checked (a.toInt.tdiv b.toInt)

end Operator

end LineBasic
