import LineBasic.Session

/-!
# What typed lines are taken for

A typed line is refused, or has no statement and no number and is passed over, or is a
direct line, or edits the program. Its length and its first characters decide which,
whatever the session is (`Session.enter_eq`).
-/

namespace LineBasic

/-- What a typed line is taken for. -/
inductive Intake where
  | refused (e : Error)
  /-- There is neither a number nor a statement. -/
  | blank
  | direct (statement : Text)
  /-- The statement is stored under the number. If there is none, its line is removed. -/
  | edit (number : Nat) (statement : Text)
  deriving DecidableEq, Repr

namespace Intake

/-- The line that is queued. -/
def line? : Intake → Option Line
  | direct statement => some ⟨none, statement⟩
  | _ => none

/-- The error that is put aside. -/
def error? : Intake → Option Error
  | refused e => some e
  | _ => none

end Intake

/-- The lines of a program after an edit. -/
def Program.edit (p : Program) (n : Nat) (statement : Text) : Program :=
  if statement = [] then p.remove n else p.insert ⟨n, statement⟩

/-- What a typed line is taken for. Its number is its leading digits, if it has any. -/
def Line.intake (t : Text) : Intake :=
  let line := t.trimWhile isLineEdge
  let number := Decimal.value (line.takeWhile Char.isDigit)
  if maxBytes < t.byteLength then .refused { kind := .lineBufferOverflow }
  else if line = [] then .blank
  else if line.head?.any Char.isDigit = false then .direct line
  else if maxNumber < number then .refused (.because .syntaxError "INVALID LINE NUMBER")
  else .edit number ((line.dropWhile Char.isDigit).dropWhile isGap)

/-- Entering a line does what it is taken for, and tells whether it is to be remembered. -/
theorem Session.enter_eq (s : Session) (t : Text) :
    s.enter t =
      match Line.intake t with
      | .refused e => ({ s with rejected := s.rejected ++ [e] }, false)
      | .blank => (s, false)
      | .direct statement =>
        ({ s with machine := s.machine.halt, queue := s.queue ++ [⟨none, statement⟩] }, true)
      | .edit n statement =>
        ({ s with machine := { s.machine with
            program := s.machine.program.edit n statement } }, true) := by
  rw [enter, Line.intake]
  by_cases long : Line.maxBytes < t.byteLength
  · simp only [if_pos long, reject]
  simp only [if_neg long, Line.read]
  generalize t.trimWhile isLineEdge = line
  cases line with
  | nil => rfl
  | cons c rest =>
      rw [if_neg (List.cons_ne_nil c rest)]
      cases digit : c.isDigit with
      | false =>
          have numberless : (c :: rest).takeWhile Char.isDigit = [] := by simp [digit]
          simp [numberless, digit, accept, Line.isEmpty]
      | true =>
          have numbered : ((c :: rest).takeWhile Char.isDigit).isEmpty = false := by simp [digit]
          have first : (c :: rest).head?.any Char.isDigit = true := digit
          simp only [numbered, first, Bool.true_eq_false, Bool.false_eq_true, if_false]
          by_cases large : Line.maxNumber < Decimal.value ((c :: rest).takeWhile Char.isDigit)
          · rw [if_pos large, if_neg (Nat.not_le_of_lt large)]
            rfl
          · rw [if_neg large, if_pos (Nat.le_of_not_lt large)]
            simp only [accept, Line.isEmpty, Program.edit, List.isEmpty_iff]

end LineBasic
