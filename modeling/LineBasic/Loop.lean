import LineBasic.Value.Basic

/-!
# Loops

The open loops form a stack of limited depth. A statement that names a variable
means the newest loop of that variable and gives up all loops above it.
-/

namespace LineBasic

/-- A stack with its newest entry first. -/
structure Stack (α : Type) where
  entries : List α := []
  deriving DecidableEq, Repr

namespace Stack

variable {α : Type}

/-- The most entries that a stack may have. -/
def capacity : Nat := 255

def empty : Stack α := {}

def size (s : Stack α) : Nat := s.entries.length

def isEmpty (s : Stack α) : Bool := s.entries.isEmpty

/-- Adds an entry; a full stack refuses it with the given detail. -/
def push (detail : String) (s : Stack α) (x : α) : Except Error (Stack α) :=
  if s.size < capacity then .ok ⟨x :: s.entries⟩ else .error (.because .outOfMemory detail)

/-- The newest entry and the stack below it. -/
def pop (s : Stack α) : Except Error (α × Stack α) :=
  match s.entries with
  | [] => .error (.because .internalError "UNDERFLOW")
  | x :: below => .ok (x, ⟨below⟩)

/-- The newest entry that satisfies `p`, and the stack below it. -/
def newest? (p : α → Bool) (s : Stack α) : Option (α × Stack α) :=
  match s.entries.dropWhile fun x => !p x with
  | [] => none
  | x :: below => some (x, ⟨below⟩)

/-- The entry at an index, counted from the oldest one. -/
def get? (s : Stack α) (i : Nat) : Option α := s.entries.reverse[i]?

/-- The index of the newest entry that satisfies `p`. -/
def position? (p : α → Bool) (s : Stack α) : Option Nat :=
  (s.newest? p).map fun (_, below) => below.size

/-- The stack of the oldest `n` entries, or of all if there are fewer. -/
def truncate (s : Stack α) (n : Nat) : Stack α := ⟨s.entries.drop (s.size - n)⟩

/-- The entries in square brackets, the oldest first. -/
def print (display : α → Text) (s : Stack α) : Text :=
  '[' :: ", ".toList.intercalate (s.entries.reverse.map display) ++ [']']

theorem push_eq_ok_iff {detail : String} {s t : Stack α} {x : α} :
    s.push detail x = .ok t ↔ s.size < capacity ∧ t = ⟨x :: s.entries⟩ := by
  unfold push
  split
  · next h => simp only [h, true_and, Except.ok.injEq, @eq_comm _ t]
  · next h => simp only [h, false_and, reduceCtorEq]

/-- The entries above the newest match do not match. -/
theorem newest?_eq_some_iff {p : α → Bool} {s below : Stack α} {x : α} :
    s.newest? p = some (x, below) ↔
      p x = true ∧ ∃ above, s.entries = above ++ x :: below.entries ∧ ∀ y ∈ above, p y = false := by
  obtain ⟨entries⟩ := s
  obtain ⟨below⟩ := below
  simp only [newest?]
  induction entries with
  | nil => simp
  | cons y ys ih =>
    by_cases hy : p y = true
    · simp only [List.dropWhile_cons, hy, Bool.not_true, Bool.false_eq_true, if_false]
      constructor
      · intro h
        obtain ⟨rfl, rfl⟩ : y = x ∧ ys = below := by simpa using h
        exact ⟨hy, [], rfl, by simp⟩
      · rintro ⟨hx, above, h, ha⟩
        cases above with
        | nil => simp_all
        | cons a above =>
          obtain rfl : y = a := by simpa using congrArg List.head? h
          exact absurd hy (by simp [ha])
    · simp only [List.dropWhile_cons, hy, Bool.not_false, if_true, ih]
      constructor
      · rintro ⟨hx, above, rfl, ha⟩
        exact ⟨hx, y :: above, rfl, by simpa [hy] using ha⟩
      · rintro ⟨hx, above, h, ha⟩
        cases above with
        | nil =>
          obtain rfl : y = x := by simpa using congrArg List.head? h
          exact absurd hx hy
        | cons a above =>
          obtain ⟨rfl, rfl⟩ : y = a ∧ ys = above ++ x :: below := by simpa using h
          exact ⟨hx, above, rfl, fun z hz => ha z (by simp [hz])⟩

end Stack

/-- An open loop: its variable, where it ends, and the place in the running
program from which it goes around again. -/
structure Loop where
  name : Text
  limit : Int32
  step : Int32
  resume : Nat
  deriving DecidableEq, Repr

namespace Loop

/-- The next value of the loop variable, and whether the loop goes around again.
A step of zero counts as ascending. -/
def advance (l : Loop) (current : Int32) : Except Error (Int32 × Bool) := do
  let next ← Operator.plus.apply current l.step
  return (next, if 0 ≤ l.step then next ≤ l.limit else l.limit ≤ next)

end Loop

end LineBasic
