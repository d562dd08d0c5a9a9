import LineBasic.Proofs.Machine.Failure

/-!
# Lines that fail

A line fails because it cannot be read or because its statement fails when it is performed.
Either way its error is reported in the line, by the reader or when the error of the statement
leaves the line, and the report names this line and no other. Neither the program nor the run
has changed then.
-/

namespace LineBasic

theorem Malformed.nameless (malformed : Malformed) (line : Option Nat) :
    Text.namedLines
      (Error.remark { Error.because .syntaxError malformed.detail with line }) = [] := by
  cases malformed with
  | unknown => rfl
  | argument => rfl
  | missing part => cases part <;> rfl

/-- The commands write one report, character by character, and the lines that it names are
those given. -/
structure Reports (e : Error) (named : List Nat) (commands : List Display.Command) : Prop where
  text : commands = e.characters
  names : Text.namedLines (Display.written commands) = named

theorem reports_characters {e : Error} (nameless : Text.namedLines e.remark = []) :
    Reports e e.line.toList e.characters where
  text := rfl
  names := by
    rw [Error.characters_eq]
    exact (congrArg Text.namedLines (Display.written_write e.report)).trans
      (Error.namedLines_report nameless)

namespace Machine

variable {m : Machine} {l : Line} {cause : Error}

/-- Why a line fails: it cannot be read, or its statement fails. -/
inductive Fails (m : Machine) (l : Line) : Error → Prop where
  | unread {cause : Error} (unread : l.statement = .error cause) : Fails m l cause
  | unperformed {s : Statement} {cause : Error} (read : l.statement = .ok s)
      (failed : (m.perform s).2 = .error cause) : Fails m l cause

namespace Fails

theorem placed (h : m.Fails l cause) : cause.line = none ∨ cause.line = l.number := by
  cases h with
  | unread unread =>
      obtain ⟨malformed, rfl⟩ := Line.exists_malformed unread
      exact .inr rfl
  | unperformed read failed => exact .inl ((m.performs _).raised failed).placeless

theorem inLine_eq (h : m.Fails l cause) :
    cause.inLine l.number = { cause with line := l.number } := by
  rcases h.placed with none | same
  · exact Error.inLine_of_isNone none l.number
  · rw [Error.inLine, ← same, ite_self]

theorem nameless (h : m.Fails l cause) : Text.namedLines cause.remark = [] := by
  cases h with
  | unread unread =>
      obtain ⟨malformed, rfl⟩ := Line.exists_malformed unread
      exact malformed.nameless l.number
  | unperformed read failed => exact ((m.performs _).raised failed).nameless

theorem kind_ne (h : m.Fails l cause) :
    cause.kind ≠ .interrupted ∧ cause.kind ≠ .internalError := by
  cases h with
  | unread unread =>
      obtain ⟨malformed, rfl⟩ := Line.exists_malformed unread
      exact ⟨by simp [Error.because], by simp [Error.because]⟩
  | unperformed read failed =>
      have raised := (m.performs _).raised failed
      exact ⟨raised.not_interrupted, raised.not_internal⟩

theorem failure?_eq (h : m.Fails l cause) :
    m.failure? l = some { cause with line := l.number } := by
  rw [← h.inLine_eq, failure?]
  cases h with
  | unread unread => simp only [unread]
  | unperformed read failed =>
      simp only [read]
      split
      · next performed =>
        rw [performed] at failed
        rw [Except.error.inj failed]
      · next performed =>
        rw [performed] at failed
        cases failed

/-- A line that fails changes neither the program nor the run. -/
theorem same (h : m.Fails l cause) :
    (m.execute l).1.program = m.program ∧ (m.execute l).1.run = m.run := by
  cases h with
  | unread unread =>
      rw [execute, unread]
      exact ⟨rfl, rfl⟩
  | @unperformed s _ read failed =>
      rw [execute_fst_of_statement read]
      exact Performs.sameProgram (failed ▸ m.performs s)

/-- All that a failing line commands is one report, which names the line and no other. -/
theorem reports (h : m.Fails l cause) :
    Reports { cause with line := l.number } l.number.toList (m.execute l).2 := by
  rw [execute_of_failure? h.failure?_eq, report_eq_characters]
  exact reports_characters h.nameless

end Fails

theorem exists_fails_of_failure? {e : Error} (h : m.failure? l = some e) :
    ∃ cause, m.Fails l cause ∧ e.kind = cause.kind := by
  rw [failure?] at h
  split at h
  · next cause unread =>
    obtain rfl := Option.some.inj h
    exact ⟨cause, .unread unread, Error.inLine_kind cause l.number⟩
  · next s read =>
    split at h
    · next m' cause performed =>
      obtain rfl := Option.some.inj h
      refine ⟨cause, .unperformed read ?_, Error.inLine_kind cause l.number⟩
      rw [performed]
    · cases h

theorem exists_run_of_upcoming? {line : ProgramLine} (h : m.upcoming? = some line) :
    ∃ r, m.run = some r ∧ r.lines[r.next]? = some line.number := by
  obtain ⟨r, running, h⟩ := Option.bind_eq_some_iff.mp h
  obtain ⟨n, place, found⟩ := Option.bind_eq_some_iff.mp h
  obtain rfl : line.number = n := by simpa using List.find?_some found
  exact ⟨r, running, place⟩

end Machine

end LineBasic
