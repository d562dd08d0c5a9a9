import LineBasic.Proofs.Failing
import LineBasic.Proofs.Session.Slicing

/-!
# Stretches of a run

`Runs m ms m'` means that the steps of a running program lead from `m` to `m'`, and
that `ms` are the machines in which these steps are made. The length of `ms` is the
exact number of steps. Stretches compose, and a slice whose budget covers a stretch
does all of it before anything else, while a smaller budget is spent inside it.

A session that has nothing to do but to start its program runs it to the end of a stretch
in this way (`run_when_idle`, `run_to_end`).
-/

namespace LineBasic

/-- The program runs from one machine to another through the machines in between. -/
inductive Runs : Machine → List Machine → Machine → Prop where
  | nil (m : Machine) : Runs m [] m
  | cons {m m' : Machine} {ms : List Machine} :
      m.isRunning = true → Runs m.step.1 ms m' → Runs m (m :: ms) m'

namespace Runs

variable {m m' m'' : Machine} {ms ms' : List Machine}

theorem single (running : m.isRunning = true) : Runs m [m] m.step.1 :=
  .cons running (.nil _)

theorem append (first : Runs m ms m') (second : Runs m' ms' m'') : Runs m (ms ++ ms') m'' := by
  induction first with
  | nil => exact second
  | cons running rest ih => exact .cons running (ih second)

end Runs

namespace Session

variable {m m' : Machine} {ms : List Machine} {queue : List Line}

theorem workDeeds_of_runs (stretch : Runs m ms m') (budget : Nat) :
    workDeeds (ms.length + budget) queue m = ms.map .step ++ workDeeds budget queue m' := by
  induction stretch with
  | nil m =>
      rw [List.length_nil, Nat.zero_add]
      rfl
  | cons running rest ih =>
      rw [List.length_cons, Nat.add_right_comm, workDeeds_step _ running, ih]
      rfl

theorem work_of_runs (stretch : Runs m ms m') (budget : Nat) (output : Array Display.Command) :
    ∃ more, work (ms.length + budget) queue m output = work budget queue m' (output ++ more) := by
  induction stretch generalizing output with
  | nil m =>
      refine ⟨#[], ?_⟩
      rw [List.length_nil, Nat.zero_add, Array.append_empty]
  | @cons m m' ms running rest ih =>
      obtain ⟨more, h⟩ := ih (output ++ m.step.2)
      have assoc : output ++ m.step.2 ++ more = output ++ (m.step.2.toArray ++ more) := by
        simp [← Array.toList_inj]
      refine ⟨m.step.2.toArray ++ more, ?_⟩
      rw [List.length_cons, Nat.add_right_comm, work_step _ running, h, assoc]

/-- A budget that is smaller than the stretch is spent inside it. -/
theorem running_of_runs (stretch : Runs m ms m') {budget : Nat} (short : budget < ms.length)
    (output : Array Display.Command) : (work budget queue m output).activity = .running := by
  induction stretch generalizing budget output with
  | nil m => cases short
  | cons running rest ih =>
      cases budget with
      | zero => rw [work_spent running]
      | succ budget =>
          rw [work_step _ running]
          exact ih (Nat.lt_of_succ_lt_succ short) _

theorem workDeeds_of_short (stretch : Runs m ms m') {budget : Nat} (short : budget < ms.length) :
    workDeeds budget queue m = (ms.take budget).map .step := by
  induction stretch generalizing budget with
  | nil m => cases short
  | cons running rest ih =>
      cases budget with
      | zero => exact workDeeds_spent running
      | succ budget =>
          rw [workDeeds_step _ running, ih (Nat.lt_of_succ_lt_succ short)]
          rfl

/-- The line that starts the stored program. -/
def runLine : Line := ⟨none, "RUN".toList⟩

theorem statement_runLine : runLine.statement = .ok .run :=
  eq_ok_of_toOption (by decide +kernel)

theorem enter_run (s : Session) :
    (s.enter "RUN".toList).1 =
      { s with machine := s.machine.halt, queue := s.queue ++ [runLine] } := by
  have read : Line.read "RUN".toList = .ok runLine := rfl
  rw [enter, if_neg (by decide), read]
  rfl

/-- In direct mode a queued line that starts the program is executed behind the reports of
what was put aside. If no other line is queued, nothing but the run is left to do then. -/
theorem run_when_idle {s : Session} {l : Line} (direct : s.machine.run = none)
    (queue : s.queue = [l]) (starts : l.statement = .ok .run) (budget : Nat) :
    s.deeds budget =
        s.rejected.map .rejection ++ .direct l s.machine :: workDeeds budget [] s.machine.start ∧
      ∃ output, s.execute budget = work budget [] s.machine.start output := by
  have halted : s.machine.isRunning = false := Machine.isRunning_eq_false_iff.mpr direct
  have reports : s.preliminaries = s.rejected.map .rejection := by simp [preliminaries, halted]
  have resumed : s.resumed = s.machine := by
    simp [Session.resumed, Machine.halt_of_run_eq_none direct]
  have started : (s.machine.execute l).1 = s.machine.start := by
    rw [Machine.execute_fst_of_statement starts]
    rfl
  constructor
  · rw [deeds, reports, resumed, queue, workDeeds_direct budget _ halted, started]
  · rw [execute_eq_work, resumed, queue, work_direct budget _ halted, started]
    exact ⟨_, rfl⟩

/-- If the run leads to its end through the machines `ms`, any slice makes as many of these
steps as it may, and none but these. -/
theorem run_to_end {s : Session} {l : Line} (direct : s.machine.run = none)
    (queue : s.queue = [l]) (starts : l.statement = .ok .run)
    (stretch : Runs s.machine.start ms m') (ended : m'.run = none) (budget : Nat) :
    s.deeds budget =
        s.rejected.map .rejection ++ .direct l s.machine :: (ms.take budget).map .step ∧
      (budget < ms.length → (s.execute budget).activity = .running) ∧
      (ms.length ≤ budget →
        (s.execute budget).activity = .stopped ∧ (s.execute budget).session.machine = m') := by
  obtain ⟨deeds, output, executed⟩ := run_when_idle direct queue starts budget
  have halted : m'.isRunning = false := Machine.isRunning_eq_false_iff.mpr ended
  rw [deeds, executed]
  rcases Nat.lt_or_ge budget ms.length with short | enough
  · rw [workDeeds_of_short stretch short]
    exact ⟨rfl, fun _ => running_of_runs stretch short output,
      fun enough => absurd short (Nat.not_lt_of_le enough)⟩
  · obtain ⟨rest, rfl⟩ := Nat.exists_eq_add_of_le enough
    obtain ⟨more, worked⟩ : ∃ more, work (ms.length + rest) [] s.machine.start output =
        work rest [] m' (output ++ more) := work_of_runs stretch rest output
    rw [workDeeds_of_runs stretch, workDeeds_done rest halted, List.append_nil,
      List.take_of_length_le enough, worked, work_done rest halted]
    exact ⟨rfl, fun short => absurd short (Nat.not_lt_of_le enough), fun _ => ⟨rfl, rfl⟩⟩

end Session

end LineBasic
