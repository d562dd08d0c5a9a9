import LineBasic.Line

/-!
# Programs

A program is its lines in ascending order of their numbers, one line to a
number. Storing a line under a number that is taken replaces it.

The order is an invariant of `insert` and `remove`, not part of the type: the
lines of a program built from `empty` by these are strictly ascending
(`ascending_insert`, `ascending_remove`).
-/

namespace LineBasic

/-- A stored line: its number and the text of its statement. -/
structure ProgramLine where
  number : Nat
  text : Text
  deriving DecidableEq, Repr

/-- The line as it was typed, its spacing put aside. -/
def ProgramLine.toLine (l : ProgramLine) : Line := ⟨some l.number, l.text⟩

structure Program where
  lines : List ProgramLine := []
  deriving DecidableEq, Repr

namespace Program

def empty : Program := {}

def size (p : Program) : Nat := p.lines.length

def isEmpty (p : Program) : Bool := p.lines.isEmpty

/-- The line numbers in listing order. -/
def numbers (p : Program) : List Nat := p.lines.map ProgramLine.number

def find? (p : Program) (n : Nat) : Option ProgramLine := p.lines.find? (·.number == n)

/-- Puts a line where its number belongs, in place of the one that has it. -/
def insertInto (l : ProgramLine) : List ProgramLine → List ProgramLine
  | [] => [l]
  | x :: xs =>
    if l.number < x.number then l :: x :: xs
    else if l.number = x.number then l :: xs
    else x :: insertInto l xs

def insert (p : Program) (l : ProgramLine) : Program := ⟨insertInto l p.lines⟩

/-- Stores a numbered line; a direct line changes nothing. -/
def store (p : Program) (l : Line) : Program :=
  match l.number with
  | none => p
  | some n => p.insert ⟨n, l.text⟩

def remove (p : Program) (n : Nat) : Program := ⟨p.lines.filter (·.number != n)⟩

def listing (p : Program) : List Text := p.lines.map fun l => l.toLine.display

/-- The line numbers are strictly ascending. -/
def Ascending (p : Program) : Prop := p.numbers.Pairwise (· < ·)

theorem ascending_empty : empty.Ascending := List.Pairwise.nil

theorem mem_numbers_insertInto {l : ProgramLine} {xs : List ProgramLine} {n : Nat} :
    n ∈ (insertInto l xs).map ProgramLine.number ↔
      n = l.number ∨ n ∈ xs.map ProgramLine.number := by
  induction xs with
  | nil => simp [insertInto]
  | cons x xs ih =>
    rw [insertInto]
    split
    · simp
    · split
      · next h => simp [h]
      · simp only [List.map_cons, List.mem_cons, ih]
        constructor
        · rintro (h | h | h) <;> simp [h]
        · rintro (h | h | h) <;> simp [h]

theorem ascending_insert {p : Program} (h : p.Ascending) (l : ProgramLine) :
    (p.insert l).Ascending := by
  obtain ⟨lines⟩ := p
  simp only [Ascending, numbers, insert] at h ⊢
  induction lines with
  | nil => simp [insertInto]
  | cons x xs ih =>
    have hx := List.pairwise_cons.mp h
    rw [insertInto]
    split
    · next hlt =>
      refine List.pairwise_cons.mpr ⟨fun n hn => ?_, h⟩
      rcases List.mem_cons.mp hn with rfl | hn
      · exact hlt
      · exact Nat.lt_trans hlt (hx.1 n hn)
    · split
      · next heq =>
        refine List.pairwise_cons.mpr ⟨fun n hn => ?_, hx.2⟩
        rw [heq]
        exact hx.1 n hn
      · next hlt heq =>
        refine List.pairwise_cons.mpr ⟨fun n hn => ?_, ih hx.2⟩
        rcases mem_numbers_insertInto.mp hn with rfl | hn
        · omega
        · exact hx.1 n hn

theorem ascending_remove {p : Program} (h : p.Ascending) (n : Nat) : (p.remove n).Ascending := by
  have := List.filter_sublist (p := fun l : ProgramLine => l.number != n) (l := p.lines)
  exact h.sublist (this.map ProgramLine.number)

theorem find?_insert (p : Program) (l : ProgramLine) (n : Nat) (h : p.Ascending) :
    (p.insert l).find? n = if l.number = n then some l else p.find? n := by
  obtain ⟨lines⟩ := p
  simp only [Ascending, numbers, find?, insert] at h ⊢
  induction lines with
  | nil => by_cases hn : l.number = n <;> simp [insertInto, hn]
  | cons x xs ih =>
    have hx := List.pairwise_cons.mp h
    rw [insertInto]
    split
    · by_cases hn : l.number = n <;> simp [hn]
    · split
      · next heq => by_cases hn : l.number = n <;> simp [hn, ← heq]
      · next hne =>
        by_cases hn : x.number = n
        · have : l.number ≠ n := by omega
          simp [hn, this]
        · simp [hn, ih hx.2]

theorem find?_remove (p : Program) (m n : Nat) :
    (p.remove m).find? n = if m = n then none else p.find? n := by
  simp only [find?, remove, List.find?_filter]
  split
  · next h =>
    subst h
    simp
  · next h =>
    congr 1
    funext l
    by_cases hl : l.number = n <;> simp [hl, Ne.symm h]

end Program

end LineBasic
