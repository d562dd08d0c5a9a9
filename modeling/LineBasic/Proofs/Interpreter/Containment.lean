import LineBasic.Proofs.Interpreter.Simulation
import LineBasic.Proofs.Machine.Containment

/-!
# Failing lines are contained

A line fails when it is executed: it cannot be read, or its statement fails. Until then it has
called the display for nothing, and all that comes of it is one report. A line of the program is
named in its report, and the program goes on behind it. A direct line is not named, and direct
mode stays. A typed line that is not taken at all is reported by the next slice, and no line is
named either.

Main statement: `failures_contained`, for all moments between two lines of a slice.
-/

namespace LineBasic

open Display (Command)

/-- A typed line that is not taken. -/
inductive Line.Refused (t : Text) : Error → Prop where
  | tooLong (long : maxBytes < t.byteLength) : Refused t { kind := .lineBufferOverflow }
  | unreadable {e : Error} (short : t.byteLength ≤ maxBytes) (unread : read t = .error e) :
      Refused t e

namespace Interpreter

/-- The line that comes next fails, which is a line of the program that runs or the first one
of the queue. With the number under which it stands, its error, and what is left of the work. -/
inductive Work.Fails (w : Work) : Option Nat → Error → Work → Prop where
  | step {n : Nat} {line : Line} {e : Error} {w' : Work}
      (running : w.interpreter.state = .running)
      (place : w.interpreter.lines[w.interpreter.counter]? = some n)
      (found : w.interpreter.listing.get? n = some line)
      (failed : Action.line line
        { w with interpreter.counter := w.interpreter.counter + 1 } = .error e w') :
      Fails w (some n) e w.step
  | direct {line : Line} {queue : List Line} {e : Error} {w' : Work}
      (direct : w.interpreter.state = .direct) (waiting : w.interpreter.queue = line :: queue)
      (failed : Action.line line { w with interpreter.queue := queue } = .error e w') :
      Fails w none e ({ w with interpreter.queue := queue }.attempt line id)

/-- All that came of an error. It is reported in the line that is given, and it had no line
before or this one already. The display was called for the characters of this one report. The
program and its run are what they were. -/
structure Work.Contains (before : Work) (e : Error) (line : Option Nat) (after : Work) : Prop where
  placed : e.line = none ∨ e.line = line
  called : ∃ commands, after.calls = before.calls ++ commands ∧
    Reports { e with line } line.toList commands
  reported : after.reports = before.reports ++ [{ e with line }]
  listing : after.interpreter.listing = before.interpreter.listing
  state : after.interpreter.state = before.interpreter.state
  lines : after.interpreter.lines = before.interpreter.lines

variable {s : Session} {i : Interpreter} {calls : List Command} {reports : List Error}

/-- A line fails for an interpreter if it does for the machine. -/
theorem exists_line_eq_error_iff (s : Session) (calls : List Command) (reports : List Error)
    {l : Line} {e : Error} :
    (∃ w, Action.line l ⟨ofSession s, calls, reports⟩ = .error e w) ↔ s.machine.Fails l e := by
  rw [Action.Mirrors.line s l calls reports]
  constructor
  · rintro ⟨w, failed⟩
    cases read : l.statement with
    | error e' =>
        simp only [read] at failed
        cases failed
        exact .unread read
    | ok statement =>
        simp only [read] at failed
        cases performed : s.machine.perform statement with
        | mk m outcome =>
            rw [performed] at failed
            cases outcome with
            | ok commands => cases failed
            | error e' =>
                cases failed
                exact .unperformed read (congrArg Prod.snd performed)
  · intro fails
    cases fails with
    | unread unread =>
        simp only [unread]
        exact ⟨_, rfl⟩
    | @unperformed statement _ read failed =>
        obtain ⟨m, performed⟩ : ∃ m, s.machine.perform statement = (m, .error e) :=
          ⟨_, Prod.ext rfl failed⟩
        simp only [read, performed]
        exact ⟨_, rfl⟩

/-- A line that fails is contained where it is attempted. -/
theorem contains_attempt {l : Line} {e : Error} {w : Work} {placed : Error → Error}
    (places : ∀ e, placed e = e.inLine l.number)
    (failed : Action.line l ⟨ofSession s, calls, reports⟩ = .error e w) :
    let before : Work := ⟨ofSession s, calls, reports⟩
    before.Contains e l.number (before.attempt l placed) ∧
      (before.attempt l placed).interpreter.counter = before.interpreter.counter := by
  have fails := (exists_line_eq_error_iff s calls reports).mp ⟨w, failed⟩
  obtain ⟨listing, state, lines, counter⟩ :=
    ofSession_of_same (s := s) fails.same.1 fails.same.2
  dsimp only
  rw [Work.attempt_ofSession s calls reports l places, fails.failure?_eq]
  exact ⟨⟨fails.placed, ⟨_, rfl, fails.reports⟩, rfl, listing, state, lines⟩, counter⟩

theorem enter_of_refused {t : Text} {e : Error} (h : Line.Refused t e) :
    i.enter t = ({ i with pending := i.pending ++ [e] }, false) := by
  cases h with
  | tooLong long => rw [enter, if_pos long]
  | unreadable short unread =>
      rw [enter, if_neg (Nat.not_lt.mpr short)]
      simp only [unread]

/-- The line of a step is attempted with the counter moved on. -/
theorem contains_step {n : Nat} {line : Line} {e : Error} {w : Work}
    (running : (ofSession s).state = .running)
    (place : (ofSession s).lines[(ofSession s).counter]? = some n)
    (found : (ofSession s).listing.get? n = some line)
    (failed : Action.line line
      ⟨{ ofSession s with counter := (ofSession s).counter + 1 }, calls, reports⟩ = .error e w) :
    let before : Work := ⟨ofSession s, calls, reports⟩
    before.Contains e (some n) before.step ∧
      before.step.interpreter.counter = before.interpreter.counter + 1 := by
  obtain ⟨r, run⟩ := Option.isSome_iff_exists.mp (state_eq_running_iff.mp running)
  have moved := advance_ofSession run
  have stored := found
  rw [listing_ofSession, Listing.get?_ofProgram] at stored
  obtain ⟨l, held, rfl⟩ := Option.map_eq_some_iff.mp stored
  obtain rfl : l.number = n := by simpa using List.find?_some held
  have found : (ofSession { s with machine := s.machine.advance }).listing.get? l.number =
      some l.toLine := found
  have stepped := Work.step_of_place (w := ⟨ofSession s, calls, reports⟩) place moved
  rw [found] at stepped
  rw [moved] at failed
  obtain ⟨contains, counter⟩ := contains_attempt (fun e => rfl) failed
  have before := congrArg Interpreter.counter moved
  have state := congrArg Interpreter.state moved
  have lines := congrArg Interpreter.lines moved
  dsimp only
  rw [stepped]
  exact ⟨⟨contains.placed, contains.called, contains.reported, contains.listing,
    contains.state.trans state.symm, contains.lines.trans lines.symm⟩,
    counter.trans before.symm⟩

/-- A direct line is attempted without the queue that it stood in. -/
theorem contains_direct (sound : s.Sound) {l : Line} {queue : List Line} {e : Error} {w : Work}
    (waiting : (ofSession s).queue = l :: queue)
    (failed : Action.line l ⟨{ ofSession s with queue }, calls, reports⟩ = .error e w) :
    let before : Work := ⟨ofSession s, calls, reports⟩
    let after := Work.attempt ⟨{ ofSession s with queue }, calls, reports⟩ l id
    before.Contains e none after ∧ after.interpreter.counter = before.interpreter.counter := by
  have waiting : s.queue = l :: queue := waiting
  have numberless : l.number = none := sound.queue l (waiting ▸ List.mem_cons_self)
  have places (e : Error) : id e = e.inLine l.number := by rw [numberless, e.inLine_none, id]
  obtain ⟨contains, counter⟩ := contains_attempt (s := { s with queue }) places failed
  rw [numberless] at contains
  exact ⟨⟨contains.placed, contains.called, contains.reported, contains.listing, contains.state,
    contains.lines⟩, counter⟩

/-- A line that fails is contained, whenever it is executed.

A line of the program that fails is named once, and the run goes on behind it. A direct
line that fails is not named, and direct mode stays. A line that is not taken changes
nothing, and its report in the next slice names no line. -/
theorem failures_contained {w : Work} (h : Occurs w.interpreter) :
    (∀ n e after, w.Fails (some n) e after →
      w.Contains e (some n) after ∧ w.interpreter.state = .running ∧
        after.interpreter.counter = w.interpreter.counter + 1) ∧
    (∀ e after, w.Fails none e after →
      w.Contains e none after ∧ w.interpreter.state = .direct ∧
        after.interpreter.counter = w.interpreter.counter) ∧
    (∀ t e, Line.Refused t e → w.interpreter.enter t =
      ({ w.interpreter with pending := w.interpreter.pending ++ [e] }, false)) ∧
    w.reportPending =
      { interpreter := { w.interpreter with pending := [] }
        calls := w.calls ++ w.interpreter.pending.flatMap Error.characters
        reports := w.reports ++ w.interpreter.pending } ∧
    ∀ e ∈ w.interpreter.pending, e.line = none ∧ Reports e [] e.characters := by
  obtain ⟨i, calls, reports⟩ := w
  obtain ⟨s, sound, here⟩ := h.exists_sound
  obtain rfl : i = ofSession s := here
  refine ⟨?_, ?_, fun t e => enter_of_refused, ?_, ?_⟩
  · intro n e after fails
    cases fails with
    | step running place found failed =>
        obtain ⟨contains, counter⟩ := contains_step running place found failed
        exact ⟨contains, running, counter⟩
  · intro e after fails
    cases fails with
    | direct direct waiting failed =>
        obtain ⟨contains, counter⟩ := contains_direct sound waiting failed
        exact ⟨contains, direct, counter⟩
  · rw [← Machine.report_eq_characters]
    exact Work.foldl_report _ _
  · intro e pending
    have raised := sound.rejected e pending
    have reports := reports_characters raised.nameless
    rw [raised.placeless] at reports
    exact ⟨raised.placeless, reports⟩

/-- Line 10 is next. Its statement has a first part that can be printed and a second one
that cannot. -/
def halfPrinted : Session :=
  ((Session.initial.enterAll ["10 PRINT \"A\";1/0".toList, "RUN".toList]).execute 0).session

/-- A direct line waits. The first of its colors is one and the second is not. -/
def halfColored : Session := Session.initial.enterAll ["COLOR 1,8+8".toList]

theorem failures_contained_halfway :
    let printing : Work := { interpreter := ofSession halfPrinted }
    let coloring : Work := { interpreter := ofSession halfColored }
    Occurs printing.interpreter ∧ Occurs coloring.interpreter ∧
      printing.Fails (some 10) { kind := .divisionByZero } printing.step ∧
      printing.step.calls = "?ERROR: DIVISION BY ZERO IN 10\n".toList.map .character ∧
      ∃ after, coloring.Fails none (.because .illegalFunctionCall "COLOR MUST BE 0 TO 15") after ∧
        after.calls =
          "?ILLEGAL FUNCTION CALL; COLOR MUST BE 0 TO 15\n".toList.map .character := by
  intro printing coloring
  have printed : Occurs printing.interpreter := .reached <| reachable_iff.mpr
    ⟨halfPrinted, (Session.Reachable.initial.enterAll _).execute 0, rfl⟩
  have colored : Occurs coloring.interpreter := .reached <| reachable_iff.mpr
    ⟨halfColored, Session.Reachable.initial.enterAll _, rfl⟩
  have printing_fails : printing.Fails (some 10) { kind := .divisionByZero } printing.step := by
    let l : Line := ⟨some 10, "PRINT \"A\";1/0".toList⟩
    have run : halfPrinted.machine.run = some ⟨#[10], 0⟩ := by decide +kernel
    have read : l.statement =
        .ok (.print [.value ⟨"\"A\"".toList⟩, .value ⟨"1/0".toList⟩, .newline]) :=
      eq_ok_of_toOption (by decide +kernel)
    have fails : halfPrinted.machine.advance.Fails l { kind := .divisionByZero } :=
      .unperformed read (by decide +kernel)
    obtain ⟨after, failed⟩ := (exists_line_eq_error_iff
      { halfPrinted with machine := halfPrinted.machine.advance } [] []).mpr fails
    rw [← advance_ofSession run] at failed
    exact .step (by decide +kernel) (by decide +kernel) (by decide +kernel) failed
  have coloring_fails : ∃ after,
      coloring.Fails none (.because .illegalFunctionCall "COLOR MUST BE 0 TO 15") after := by
    let l : Line := ⟨none, "COLOR 1,8+8".toList⟩
    have read : l.statement = .ok (.color ⟨['1']⟩ (some ⟨"8+8".toList⟩)) :=
      eq_ok_of_toOption (by decide +kernel)
    have fails : halfColored.machine.Fails l
        (.because .illegalFunctionCall "COLOR MUST BE 0 TO 15") :=
      .unperformed read (by decide +kernel)
    obtain ⟨after, failed⟩ :=
      (exists_line_eq_error_iff { halfColored with queue := [] } [] []).mpr fails
    exact ⟨_, .direct (by decide +kernel) (by decide +kernel) failed⟩
  obtain ⟨after, coloring_fails⟩ := coloring_fails
  obtain ⟨⟨-, ⟨commands, written, report⟩, -⟩, -⟩ :=
    (failures_contained printed).1 _ _ _ printing_fails
  obtain ⟨⟨-, ⟨commands', written', report'⟩, -⟩, -⟩ :=
    (failures_contained colored).2.1 _ _ coloring_fails
  refine ⟨printed, colored, printing_fails, ?_, after, coloring_fails, ?_⟩
  · rw [written, report.text]
    decide +kernel
  · rw [written', report'.text]
    decide +kernel

end Interpreter

end LineBasic
