import LineBasic.Text.Basic

/-!
# Decimal numbers

Numbers are written in the ten ASCII digits. Reading accepts any positive count
of digits, leading zeros included, and an optional sign; printing uses the
fewest digits. Main statement: a printed number reads back.
-/

namespace LineBasic.Decimal

/-- A non-empty text of digits only. -/
def isDigits (t : Text) : Bool := !t.isEmpty && t.all Char.isDigit

/-- The number that a text of digits denotes. -/
def value (t : Text) : Nat := Nat.ofDigitChars 10 t 0

/-- The decimal digits of a number, without leading zeros. -/
def print (n : Nat) : Text := Nat.toDigits 10 n

/-- A negative number has a minus sign in front of its digits. -/
def printInt : Int → Text
  | .ofNat n => print n
  | .negSucc n => '-' :: print (n + 1)

def read? (t : Text) : Option Nat := if isDigits t then some (value t) else none

/-- Reads digits with at most one sign before them. -/
def readInt? : Text → Option Int
  | '-' :: t => (read? t).map fun n => -(n : Int)
  | '+' :: t => (read? t).map fun n => (n : Int)
  | t => (read? t).map fun n => (n : Int)

/-- Reads digits with at most a plus sign before them. -/
def readUnsigned? : Text → Option Nat
  | '+' :: t => read? t
  | t => read? t

theorem isDigits_print (n : Nat) : isDigits (print n) = true := by
  have hne : print n ≠ [] := Nat.toDigits_ne_nil
  have hall : (print n).all Char.isDigit = true :=
    List.all_eq_true.mpr fun c hc => Nat.isDigit_of_mem_toDigits (by decide) (by decide) hc
  simp [isDigits, hall, hne]

@[simp] theorem value_print (n : Nat) : value (print n) = n :=
  Nat.ofDigitChars_toDigits (by decide) (by decide)

theorem read?_print (n : Nat) : read? (print n) = some n := by
  simp [read?, isDigits_print]

/-- The first character of a text of digits is a digit, so it is no sign. -/
theorem readInt?_of_isDigits {t : Text} (h : isDigits t = true) :
    readInt? t = some (value t : Int) := by
  cases t with
  | nil => simp [isDigits] at h
  | cons c t =>
    have hc : c.isDigit = true := by simp_all [isDigits]
    have hm : c ≠ '-' := by rintro rfl; simp at hc
    have hp : c ≠ '+' := by rintro rfl; simp at hc
    unfold readInt?
    split
    · simp_all
    · simp_all
    · simp [read?, h]

theorem readInt?_printInt (n : Int) : readInt? (printInt n) = some n := by
  cases n with
  | ofNat n =>
    rw [printInt, readInt?_of_isDigits (isDigits_print n), value_print]
    rfl
  | negSucc n => simp [printInt, readInt?, read?_print, Int.negSucc_eq]

end LineBasic.Decimal
