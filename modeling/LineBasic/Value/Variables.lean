import LineBasic.Value.Basic
import Std.Data.TreeMap

/-!
# Variables

Values are kept under canonical names. A name that was never stored holds zero.
Only a new name can be refused, when there are too many already.
-/

namespace LineBasic

/-- The values stored so far, by name. -/
structure Variables where
  entries : Std.TreeMap Text Value := ∅

namespace Variables

/-- The most names that may be stored. -/
def capacity : Nat := 65535

def empty : Variables := {}

def size (vars : Variables) : Nat := vars.entries.size

def contains (vars : Variables) (name : Text) : Bool := vars.entries.contains name

def fetch (vars : Variables) (name : Text) : Value := (vars.entries[name]?).getD .zero

/-- The variables with one value replaced or added. -/
def insert (vars : Variables) (name : Text) (value : Value) : Variables :=
  ⟨vars.entries.insert name value⟩

/-- Stores a value, unless that takes one name too many. -/
def store (vars : Variables) (name : Text) (value : Value) : Except Error Variables :=
  if vars.contains name ∨ vars.size < capacity then .ok (vars.insert name value)
  else .error (.because .outOfMemory "TOO MANY VARIABLES")

@[simp] theorem size_empty : empty.size = 0 := rfl

@[simp] theorem contains_empty (name : Text) : empty.contains name = false := rfl

@[simp] theorem fetch_empty (name : Text) : empty.fetch name = .zero := rfl

@[simp] theorem contains_insert (vars : Variables) (name other : Text) (value : Value) :
    (vars.insert name value).contains other = (name == other || vars.contains other) := by
  simp [contains, insert, Std.TreeMap.contains_insert, Bool.beq_eq_decide_eq]

theorem fetch_insert (vars : Variables) (name other : Text) (value : Value) :
    (vars.insert name value).fetch other = if name = other then value else vars.fetch other := by
  simp only [fetch, insert, Std.TreeMap.getElem?_insert, Std.LawfulEqOrd.compare_eq_iff_eq]
  split <;> rfl

theorem fetch_insert_self (vars : Variables) (name : Text) (value : Value) :
    (vars.insert name value).fetch name = value := by
  rw [fetch_insert, if_pos rfl]

theorem contains_insert_self (vars : Variables) (name : Text) (value : Value) :
    (vars.insert name value).contains name = true := by
  simp

theorem size_insert (vars : Variables) (name : Text) (value : Value) :
    (vars.insert name value).size =
      if vars.contains name then vars.size else vars.size + 1 :=
  Std.TreeMap.size_insert

theorem store_eq_ok_iff {vars next : Variables} {name : Text} {value : Value} :
    vars.store name value = .ok next ↔
      (vars.contains name = true ∨ vars.size < capacity) ∧ next = vars.insert name value := by
  unfold store
  split
  · next h => simp only [h, true_and, Except.ok.injEq, @eq_comm _ next]
  · next h => simp only [h, false_and, reduceCtorEq]

end Variables

end LineBasic
