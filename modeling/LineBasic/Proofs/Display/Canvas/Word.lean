import Mathlib

/-!
# Machine words

Numbers on a machine have a limited size, and arrays have an end. A computation
that needs a number beyond its word, or names a place behind the end of an array,
has no result. Conversions from one word to another are checked like arithmetic,
so where there is a result nothing was cut off. Sizes have 64 bits. The memory that
an array takes is not counted.
-/

namespace LineBasic

/-- The outcome of a computation in machine words. There is none when a number does
not fit its word, when a place lies outside its array, and when a loop never ends. -/
abbrev Checked (α : Type) := Option α

namespace Checked

variable {α β : Type}

theorem bind_eq {x : Checked α} {a : α} (h : x = some a) (f : α → Checked β) :
    (x >>= f) = f a := by
  rw [h]
  rfl

/-- The array with one entry replaced. -/
def write (a : Array α) (i : Nat) (v : α) : Checked (Array α) :=
  if h : i < a.size then some (a.set i v h) else none

/-- The array without its first entries. -/
def drop (a : Array α) (n : Nat) : Checked (Array α) :=
  if n ≤ a.size then some (a.extract n a.size) else none

theorem write_bind {a : Array α} {i : Nat} {v : α} (h : i < a.size) (f : Array α → Checked β) :
    (write a i v >>= f) = f (a.set i v h) :=
  bind_eq (dif_pos h) f

theorem drop_bind {a : Array α} {n : Nat} (h : n ≤ a.size) (f : Array α → Checked β) :
    (drop a n >>= f) = f (a.extract n a.size) :=
  bind_eq (if_pos h) f

end Checked

namespace Word

/-- The number, if it lies between two bounds. -/
def fit (least greatest n : Int) : Checked Int :=
  if least ≤ n ∧ n ≤ greatest then some n else none

/-- A signed number of 32 bits. -/
def int32 (n : Int) : Checked Int := fit (-2147483648) 2147483647 n

/-- A signed number of 64 bits. -/
def int64 (n : Int) : Checked Int := fit (-9223372036854775808) 9223372036854775807 n

/-- An unsigned number of 64 bits, which counts the entries of an array. -/
def size (n : Int) : Checked Nat := (fit 0 18446744073709551615 n).map Int.toNat

variable {α : Type} {n : Int}

theorem int32_bind (least : -2147483648 ≤ n) (greatest : n ≤ 2147483647)
    (f : Int → Checked α) : (int32 n >>= f) = f n :=
  Checked.bind_eq (if_pos ⟨least, greatest⟩) f

theorem int64_bind (least : -9223372036854775808 ≤ n) (greatest : n ≤ 9223372036854775807)
    (f : Int → Checked α) : (int64 n >>= f) = f n :=
  Checked.bind_eq (if_pos ⟨least, greatest⟩) f

theorem size_eq (least : 0 ≤ n) (greatest : n ≤ 18446744073709551615) :
    size n = some n.toNat := by
  rw [size, fit, if_pos ⟨least, greatest⟩, Option.map_some]

theorem size_bind (least : 0 ≤ n) (greatest : n ≤ 18446744073709551615)
    (f : Nat → Checked α) : (size n >>= f) = f n.toNat :=
  Checked.bind_eq (size_eq least greatest) f

end Word

end LineBasic
