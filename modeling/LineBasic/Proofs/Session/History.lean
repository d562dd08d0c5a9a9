import LineBasic.Proofs.Report
import LineBasic.Session

/-!
# What sessions go through

A session is driven by four calls: a line is entered, a slice is executed, a line
is processed to its end, or a break is requested. `Reachable` collects the sessions
that such calls lead to from the initial one.

Within a slice, `deeds` lists what is done, in order: errors of rejected lines are
reported, a requested break ends the run, the program makes steps, and direct lines
are executed. Everything that the slice commands comes from one of its deeds
(`output_execute`), and a deed that reports an error commands nothing but this
report (`Deed.output_of_error?`).
-/

namespace LineBasic

namespace Machine

theorem report_eq_characters : report = Error.characters := by
  funext e
  exact e.characters_eq.symm

/-- The machine with its counter moved on. -/
def advance (m : Machine) : Machine :=
  { m with run := m.run.map fun r => { r with next := r.next + 1 } }

/-- The line that the next step executes, if it was not removed since the run began. -/
def upcoming? (m : Machine) : Option ProgramLine :=
  m.run.bind fun r => r.lines[r.next]?.bind m.program.find?

/-- The error that executing a line reports, if it reports one. -/
def failure? (m : Machine) (l : Line) : Option Error :=
  match l.statement with
  | .error e => some (e.inLine l.number)
  | .ok statement =>
    match m.perform statement with
    | (_, .error e) => some (e.inLine l.number)
    | (_, .ok _) => none

/-- The numbers of the lines that are run; none in direct mode. -/
def snapshot (m : Machine) : Array Nat := (m.run.map Run.lines).getD #[]

/-- The place of the next line in a run; zero in direct mode. -/
def counter (m : Machine) : Nat := (m.run.map Run.next).getD 0

theorem isRunning_eq_false_iff {m : Machine} : m.isRunning = false ↔ m.run = none := by
  rw [isRunning, Option.isSome_eq_false_iff, Option.isNone_iff_eq_none]

theorem halt_of_run_eq_none {m : Machine} (h : m.run = none) : m.halt = m := by
  rw [halt, ← h]

theorem interrupt_of_run_eq_none {m : Machine} (h : m.run = none) : m.interrupt = (m, []) := by
  simp only [interrupt, h]

theorem interrupt_fst (m : Machine) : m.interrupt.1 = m.halt := by
  cases h : m.run with
  | none => rw [interrupt_of_run_eq_none h, halt_of_run_eq_none h]
  | some r => simp only [interrupt, h]

theorem step_of_upcoming? {m : Machine} {line : ProgramLine} (h : m.upcoming? = some line) :
    m.step = m.advance.execute line.toLine := by
  obtain ⟨r, hr, h⟩ := Option.bind_eq_some_iff.mp h
  obtain ⟨number, hn, h⟩ := Option.bind_eq_some_iff.mp h
  simp only [step, advance, hr, hn, h, Option.map_some]

/-- A step without a line to execute passes over a removed one or ends the run. -/
theorem step_of_upcoming?_eq_none {m : Machine} (h : m.upcoming? = none) :
    m.step = (if m.counter < m.snapshot.size then m.advance else m.halt, []) := by
  rw [step]
  cases hr : m.run with
  | none =>
      rw [halt_of_run_eq_none hr]
      simp [counter, snapshot, hr]
  | some r =>
      simp only [counter, snapshot, hr, Option.map_some, Option.getD_some]
      cases hn : r.lines[r.next]? with
      | none =>
          rw [if_neg (by simpa using Array.getElem?_eq_none_iff.mp hn)]
      | some number =>
          obtain ⟨bound, -⟩ := Array.getElem?_eq_some_iff.mp hn
          simp only [upcoming?, hr, hn, Option.bind_some] at h
          simp only [h, if_pos bound, advance, hr, Option.map_some]

/-- Executing a line performs its statement. -/
theorem execute_fst_of_statement {m : Machine} {l : Line} {s : Statement}
    (h : l.statement = .ok s) : (m.execute l).1 = (m.perform s).1 := by
  rw [execute]
  simp only [h]
  split <;> next performed => rw [performed]

theorem execute_of_perform_ok {m m' : Machine} {l : Line} {s : Statement}
    {commands : List Display.Command} (read : l.statement = .ok s)
    (performed : m.perform s = (m', .ok commands)) : m.execute l = (m', commands) := by
  rw [execute, read]
  simp only [performed]

theorem execute_of_perform_error {m m' : Machine} {l : Line} {s : Statement} {e : Error}
    (read : l.statement = .ok s) (performed : m.perform s = (m', .error e)) :
    m.execute l = (m', report (e.inLine l.number)) := by
  rw [execute, read]
  simp only [performed]

/-- Executing a line that fails commands the report and nothing else. -/
theorem execute_of_failure? {m : Machine} {l : Line} {e : Error} (h : m.failure? l = some e) :
    (m.execute l).2 = report e := by
  rw [failure?] at h
  rw [execute]
  split at h
  · obtain rfl := Option.some.inj h
    simp only [*]
  · split at h
    · obtain rfl := Option.some.inj h
      simp only [*]
    · cases h

end Machine

namespace Session

/-- The session after some lines were entered, nothing having been executed. -/
def enterAll (s : Session) (lines : List Text) : Session :=
  lines.foldl (fun s t => (s.enter t).1) s

/-- The sessions that calls of the host lead to. Processing a line counts only if
it comes to an end. -/
inductive Reachable : Session → Prop where
  | initial : Reachable initial
  | enter {s : Session} (t : Text) : Reachable s → Reachable (s.enter t).1
  | execute {s : Session} (budget : Nat) : Reachable s → Reachable (s.execute budget).session
  | process {s t : Session} {fuel : Nat} {line : Text} {output : Array Display.Command} :
      Reachable s → s.process fuel line = some (t, output) → Reachable t
  | interrupt {s : Session} : Reachable s → Reachable s.interrupt

theorem Reachable.enterAll {s : Session} (h : Reachable s) (lines : List Text) :
    Reachable (s.enterAll lines) := by
  induction lines generalizing s with
  | nil => exact h
  | cons t lines ih => exact ih (h.enter t)

/-- One thing that a slice does. -/
inductive Deed where
  /-- Reports a line that was rejected. -/
  | rejection (e : Error)
  /-- Ends the run in progress, as was requested. -/
  | interruption (m : Machine)
  /-- Makes a step of the running program. -/
  | step (m : Machine)
  /-- Executes a line that was queued. -/
  | direct (l : Line) (m : Machine)

namespace Deed

/-- What the deed commands. -/
def output : Deed → List Display.Command
  | rejection e => Machine.report e
  | interruption m => m.interrupt.2
  | step m => m.step.2
  | direct l m => (m.execute l).2

/-- The error that the deed reports, if it reports one. -/
def error? : Deed → Option Error
  | rejection e => some e
  | interruption m => m.run.map fun r => { kind := .interrupted, line := r.pendingLine? }
  | step m => m.upcoming?.bind fun line => m.advance.failure? line.toLine
  | direct l m => m.failure? l

/-- A deed that reports an error commands nothing else. -/
theorem output_of_error? {d : Deed} {e : Error} (h : d.error? = some e) :
    d.output = e.characters := by
  rw [← Machine.report_eq_characters]
  cases d with
  | rejection e' =>
      obtain rfl := Option.some.inj h
      rfl
  | interruption m =>
      obtain ⟨r, hr, rfl⟩ := Option.map_eq_some_iff.mp h
      simp only [output, Machine.interrupt, hr]
  | step m =>
      obtain ⟨line, hline, h⟩ := Option.bind_eq_some_iff.mp h
      rw [output, Machine.step_of_upcoming? hline]
      exact Machine.execute_of_failure? h
  | direct l m => exact Machine.execute_of_failure? h

end Deed

/-- What is done while a machine works off its program and the queued lines. -/
def workDeeds (budget : Nat) (queue : List Line) (m : Machine) : List Deed :=
  if m.isRunning then
    match budget with
    | 0 => []
    | budget + 1 => .step m :: workDeeds budget queue m.step.1
  else
    match queue with
    | [] => []
    | l :: queue => .direct l m :: workDeeds budget queue (m.execute l).1
termination_by budget + queue.length

/-- The machine after the break that was requested, if one was. -/
def resumed (s : Session) : Machine := if s.interrupted then s.machine.halt else s.machine

/-- What a slice does before it works. -/
def preliminaries (s : Session) : List Deed :=
  s.rejected.map .rejection ++
    if s.interrupted && s.machine.isRunning then [.interruption s.machine] else []

/-- What a slice does, in order. -/
def deeds (s : Session) (budget : Nat) : List Deed :=
  s.preliminaries ++ workDeeds budget s.queue s.resumed

variable {queue : List Line} {m : Machine}

theorem workDeeds_spent (h : m.isRunning = true) : workDeeds 0 queue m = [] := by
  rw [workDeeds.eq_def, if_pos h]

theorem workDeeds_step (budget : Nat) (h : m.isRunning = true) :
    workDeeds (budget + 1) queue m = .step m :: workDeeds budget queue m.step.1 := by
  rw [workDeeds.eq_def, if_pos h]

theorem workDeeds_done (budget : Nat) (h : m.isRunning = false) :
    workDeeds budget [] m = [] := by
  rw [workDeeds.eq_def, if_neg (by simp [h])]

theorem workDeeds_direct (budget : Nat) (l : Line) (h : m.isRunning = false) :
    workDeeds budget (l :: queue) m =
      .direct l m :: workDeeds budget queue (m.execute l).1 := by
  rw [workDeeds.eq_def, if_neg (by simp [h])]

theorem output_work (budget : Nat) (queue : List Line) (m : Machine)
    (output : Array Display.Command) :
    (work budget queue m output).output.toList =
      output.toList ++ (workDeeds budget queue m).flatMap Deed.output := by
  fun_induction work budget queue m output with
  | case1 queue m output running => simp [workDeeds_spent running]
  | case2 queue m output running budget m' commands step ih =>
      rw [ih, workDeeds_step budget running]
      simp [Deed.output, step]
  | case3 budget m output direct => simp [workDeeds_done budget (Bool.eq_false_iff.mpr direct)]
  | case4 budget m output direct l queue m' commands executed ih =>
      rw [ih, workDeeds_direct budget l (Bool.eq_false_iff.mpr direct)]
      simp [Deed.output, executed]

theorem execute_eq_work (s : Session) (budget : Nat) :
    s.execute budget =
      work budget s.queue s.resumed (s.preliminaries.flatMap Deed.output).toArray := by
  rw [execute, resumed, preliminaries, List.flatMap_append, List.flatMap_map]
  cases s.interrupted with
  | false =>
      simp only [Bool.false_and, Bool.false_eq_true, if_false, List.flatMap_nil]
      rfl
  | true =>
      cases hr : s.machine.run with
      | none =>
          simp [Machine.isRunning, hr, Machine.interrupt_of_run_eq_none hr,
            Machine.halt_of_run_eq_none hr, Deed.output]
      | some r => simp [Machine.isRunning, hr, Machine.interrupt_fst, Deed.output]

/-- Everything that a slice commands comes from its deeds. -/
theorem output_execute (s : Session) (budget : Nat) :
    (s.execute budget).output.toList = (s.deeds budget).flatMap Deed.output := by
  rw [execute_eq_work, output_work, deeds, List.flatMap_append]

end Session

end LineBasic
