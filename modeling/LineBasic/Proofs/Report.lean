import LineBasic.Display.Command
import LineBasic.Error
import LineBasic.Proofs.Text.Trim

/-!
# Reports

A report is written character by character (`Error.characters`). Who reads it finds the
lines that it names by the word `IN` in front of their numbers. `namedLines` finds all of
them in a text. A report names the line of its error once and no other line, unless the
detail of the error names one.
-/

namespace LineBasic

namespace Text

/-- The number of a line, if the text starts with naming one. -/
def lineAt? : Text → Option Nat
  | ' ' :: 'I' :: 'N' :: ' ' :: t => Decimal.read? (t.takeWhile Char.isDigit)
  | _ => none

/-- The numbers of all lines that the text names, in order. -/
def namedLines : Text → List Nat
  | [] => []
  | c :: t => (lineAt? (c :: t)).toList ++ namedLines t

/-- A word names no line. -/
theorem namedLines_append_of_not_mem {word : Text} (h : ' ' ∉ word) (t : Text) :
    namedLines (word ++ t) = namedLines t := by
  induction word with
  | nil => rfl
  | cons c word ih =>
      have first : c ≠ ' ' := fun same => h (same ▸ List.mem_cons_self)
      have none : lineAt? (c :: (word ++ t)) = none := by
        rw [lineAt?]
        rintro u rest
        exact absurd (List.cons.inj rest).1 first
      rw [List.cons_append, namedLines, none]
      exact ih fun hw => h (List.mem_cons_of_mem c hw)

theorem not_mem_print {c : Char} (h : c.isDigit = false) (n : Nat) : c ∉ Decimal.print n := by
  intro hc
  have digits := Decimal.isDigits_print n
  rw [Decimal.isDigits, Bool.and_eq_true, List.all_eq_true] at digits
  rw [digits.2 c hc] at h
  cases h

/-- A number behind `IN` is that of a line, and it is read to its end. -/
theorem namedLines_place (n : Nat) {t : Text} (behind : ∀ c ∈ t.head?, c.isDigit = false) :
    namedLines (" IN ".toList ++ Decimal.print n ++ t) = n :: namedLines t := by
  have digits := List.all_eq_true.mp (Bool.and_eq_true_iff.mp (Decimal.isDigits_print n)).2
  have number : (Decimal.print n ++ t).takeWhile Char.isDigit = Decimal.print n := by
    rw [List.takeWhile_append_of_pos digits, takeWhile_eq_nil behind, List.append_nil]
  have after : lineAt? (' ' :: (Decimal.print n ++ t)) = none := by
    cases print : Decimal.print n with
    | nil => exact absurd print Nat.toDigits_ne_nil
    | cons d ds =>
        rw [lineAt?]
        rintro u same
        have first : d = 'I' := (List.cons.inj (List.cons.inj same).2).1
        have digit := digits d (print ▸ List.mem_cons_self)
        rw [first] at digit
        cases digit
  calc namedLines (" IN ".toList ++ Decimal.print n ++ t)
      = (Decimal.read? ((Decimal.print n ++ t).takeWhile Char.isDigit)).toList ++
          ((lineAt? (' ' :: (Decimal.print n ++ t))).toList ++
            namedLines (Decimal.print n ++ t)) := by
        rfl
    _ = n :: namedLines t := by
        rw [number, Decimal.read?_print, after,
          namedLines_append_of_not_mem (not_mem_print (by decide) n)]
        rfl

end Text

namespace Error

/-- The characters of a report: the opening that belongs to the kind of the error, its name,
the number of its line if it has one, its detail if there is one, and the end of the line. -/
def characters (e : Error) : List Display.Command :=
  ((if e.kind ∈ [.overflow, .outOfMemory, .divisionByZero, .typeMismatch, .internalError]
    then "?ERROR: ".toList else "?".toList) ++ e.kind.name.toList ++
    e.line.elim [] (fun n => " IN ".toList ++ Decimal.print n) ++
    (if e.detail = [] then [] else "; ".toList ++ e.detail) ++ "\n".toList).map .character

theorem characters_eq (e : Error) : e.characters = e.report.map .character := by
  have opening : e.opening =
      if e.kind ∈ [.overflow, .outOfMemory, .divisionByZero, .typeMismatch, .internalError]
      then "?ERROR: ".toList else "?".toList := by
    rw [Error.opening]
    cases e.kind <;> rfl
  have place : e.place = e.line.elim [] fun n => " IN ".toList ++ Decimal.print n := by
    rw [Error.place]
    cases e.line <;> rfl
  rw [characters, ← opening, ← place, report, message]
  simp only [List.isEmpty_iff, List.append_assoc]
  rfl

/-- The report of an error without a detail tells its name and the number of its line. -/
theorem characters_inLine (kind : ErrorKind) (n : Nat) :
    characters { kind, line := some n } =
      (((if kind.isComputation then "?ERROR: " else "?").toList ++ kind.name.toList ++
        " IN ".toList) ++ Decimal.print n ++ ['\n']).map .character := by
  rw [characters_eq, report, message, place, opening]
  split <;> simp

/-- What a report says behind the place of the error. -/
def remark (e : Error) : Text :=
  (if e.detail.isEmpty then [] else "; ".toList ++ e.detail) ++ ['\n']

theorem report_eq (e : Error) :
    e.report = e.opening ++ e.kind.name.toList ++ (e.place ++ e.remark) := by
  simp only [report, message, remark, List.append_assoc]

/-- The opening and the name of an error name no line. -/
theorem namedLines_opening_name (e : Error) (t : Text) :
    Text.namedLines (e.opening ++ e.kind.name.toList ++ t) = Text.namedLines t := by
  rw [opening]
  cases e.kind <;> rfl

/-- A report names the line of its error and no other, if the detail names none. -/
theorem namedLines_report {e : Error} (nameless : Text.namedLines e.remark = []) :
    Text.namedLines e.report = e.line.toList := by
  rw [report_eq, namedLines_opening_name, place]
  cases line : e.line with
  | none => exact nameless
  | some n =>
      have behind : ∀ c ∈ e.remark.head?, c.isDigit = false := by
        intro c hc
        rw [remark] at hc
        split at hc
        · obtain rfl : '\n' = c := Option.some.inj hc
          decide
        · obtain rfl : ';' = c := Option.some.inj hc
          decide
      rw [Text.namedLines_place n behind, nameless]
      rfl

end Error

end LineBasic
