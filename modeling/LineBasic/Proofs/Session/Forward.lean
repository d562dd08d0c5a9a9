import LineBasic.Proofs.Machine.Counting
import LineBasic.Proofs.Session.Stretch

/-!
# Programs that only go forward

Two statements lead a run to a line at or before its place: one that closes a loop and one
that starts the program. All others leave the run where it is or end it, whether they fail or
not (`Performs.forward`). A program none of whose lines goes back in this way is therefore
visited line by line: each step moves the counter on by one or ends the run
(`RunsAt.step`), and the step behind the last line ends it in any case.

Main statement: `forward_program_ends`.
-/

namespace LineBasic

/-- Whether performing the statement can lead a run back. -/
def Statement.goesBack : Statement → Bool
  | .next _ | .run => true
  | _ => false

/-- No line of the program goes back, whatever branch of it is taken. A line that cannot be
read does not. -/
def Program.GoesForward (p : Program) : Prop :=
  ∀ line ∈ p.lines, ∀ s ∈ line.toLine.statement.toOption, ∀ leaf ∈ s.leaves,
    leaf.goesBack = false

instance (p : Program) : Decidable p.GoesForward :=
  inferInstanceAs (Decidable (∀ line ∈ p.lines, ∀ s ∈ line.toLine.statement.toOption,
    ∀ leaf ∈ s.leaves, leaf.goesBack = false))

namespace Machine

variable {m : Machine} {p : Program} {place : Nat}

/-- A statement that does not go back ends the run or leaves it and its program alone. -/
theorem Performs.forward {s : Statement} {m' : Machine} {o : Outcome} (h : Performs m s m' o)
    (forward : ∀ leaf ∈ s.leaves, leaf.goesBack = false) :
    m'.run = none ∨ m'.program = m.program ∧ m'.run = m.run := by
  cases h with
  | undecided | skipped | commanded | unassigned | unopened | unmatched => exact .inr ⟨rfl, rfl⟩
  | assigned | refused | opened | stuck | finished => exact .inr ⟨rfl, rfl⟩
  | stopped | erased => exact .inl rfl
  | started choice | continued choice => cases forward _ (mem_leaves_of_chosen choice)

/-- The machine runs the program that is stored, and comes to the line at this place of it. -/
structure RunsAt (p : Program) (place : Nat) (m : Machine) : Prop where
  program : m.program = p
  run : m.run = some { lines := p.numbers.toArray, next := place }

namespace RunsAt

theorem isRunning (h : RunsAt p place m) : m.isRunning = true := by
  rw [Machine.isRunning, h.run]
  rfl

theorem counter_eq (h : RunsAt p place m) : m.counter = place := by
  rw [counter, h.run]
  rfl

theorem upcoming?_eq (h : RunsAt p place m) (ascending : p.Ascending) :
    m.upcoming? = p.lines[place]? :=
  upcoming?_eq_getElem? ascending h.program h.run

theorem advance (h : RunsAt p place m) : RunsAt p (place + 1) m.advance where
  program := h.program
  run := by rw [Machine.advance, h.run, Option.map_some]

/-- A line, whether it fails or not, leads on to the next place or ends the run. -/
theorem step (h : RunsAt p place m) (forward : p.GoesForward) {line : ProgramLine}
    (upcoming : m.upcoming? = some line) (mem : line ∈ p.lines) :
    m.step.1.run = none ∨ RunsAt p (place + 1) m.step.1 := by
  rw [step_of_upcoming? upcoming]
  cases read : line.toLine.statement with
  | error e =>
      right
      rw [execute, read]
      exact h.advance
  | ok s =>
      rw [execute_fst_of_statement read]
      have leaves := forward line mem s (by rw [read]; rfl)
      rcases (m.advance.performs s).forward leaves with ended | ⟨program, run⟩
      · exact .inl ended
      · exact .inr ⟨program.trans h.advance.program, run.trans h.advance.run⟩

/-- Behind the last line the run ends. -/
theorem step_behind (h : RunsAt p p.size m) (ascending : p.Ascending) :
    m.upcoming? = none ∧ m.step.1.run = none := by
  have behind : m.upcoming? = none := by
    rw [h.upcoming?_eq ascending]
    exact List.getElem?_eq_none (Nat.le_refl _)
  have size : m.snapshot.size = p.size := by
    simp [snapshot, h.run, Program.numbers, Program.size]
  refine ⟨behind, ?_⟩
  rw [step_of_upcoming?_eq_none behind, h.counter_eq, size, if_neg (Nat.lt_irrefl _)]
  rfl

/-- The rest of the program is visited line by line, as long as the run does not end. -/
theorem visits (h : RunsAt p place m) (ascending : p.Ascending) (forward : p.GoesForward)
    {visited rest : List ProgramLine} (split : p.lines = visited ++ rest)
    (here : place = visited.length) :
    ∃ ms m', Runs m ms m' ∧ m'.run = none ∧ ms ≠ [] ∧
      ms.map counter = List.range' place ms.length ∧
      ms.map upcoming? <+: rest.map some ++ [none] ∧
      ∀ m ∈ ms, m.step.1.isRunning = true → m.step.1.counter = m.counter + 1 := by
  induction rest generalizing m place visited with
  | nil =>
      obtain rfl : place = p.size := by rw [here, Program.size, split, List.append_nil]
      obtain ⟨behind, ended⟩ := h.step_behind ascending
      refine ⟨[m], m.step.1, .single h.isRunning, ended, List.cons_ne_nil _ _, ?_, ?_, ?_⟩
      · simp [h.counter_eq]
      · simp [behind]
      · simp [Machine.isRunning, ended]
  | cons line rest ih =>
      have upcoming : m.upcoming? = some line := by
        rw [h.upcoming?_eq ascending, split, here]
        simp
      have mem : line ∈ p.lines := by simp [split]
      rcases h.step forward upcoming mem with ended | next
      · refine ⟨[m], m.step.1, .single h.isRunning, ended, List.cons_ne_nil _ _, ?_, ?_, ?_⟩
        · simp [h.counter_eq]
        · simp [upcoming]
        · simp [Machine.isRunning, ended]
      · have others : p.lines = (visited ++ [line]) ++ rest := by simp [split]
        obtain ⟨ms, m', stretch, ended, -, counters, lines, moves⟩ :=
          ih next others (by simp [here])
        refine ⟨m :: ms, m', .cons h.isRunning stretch, ended, List.cons_ne_nil _ _, ?_, ?_, ?_⟩
        · rw [List.map_cons, counters, h.counter_eq, List.length_cons, List.range'_succ]
        · rw [List.map_cons, List.map_cons, upcoming, List.cons_append]
          exact List.prefix_cons_inj _ |>.mpr lines
        · refine List.forall_mem_cons.mpr ⟨fun _ => ?_, moves⟩
          rw [next.counter_eq, h.counter_eq]

end RunsAt

end Machine

namespace Session

open Machine

/-- A program that only goes forward ends by itself. The counter is that of the steps made so
far, so each step executes the line at the next place, no line twice, and there is at most one
step more than there are lines. -/
theorem forward_program_ends {s : Session} {l : Line} (direct : s.machine.run = none)
    (queue : s.queue = [l]) (starts : l.statement = .ok .run)
    (ascending : s.machine.program.Ascending) (filled : s.machine.program.isEmpty = false)
    (forward : s.machine.program.GoesForward) :
    ∃ ms : List Machine,
      ms.length ≤ s.machine.program.size + 1 ∧
      ms.map counter = List.range ms.length ∧
      (∀ m ∈ ms, m.step.1.isRunning = true → m.counter < m.step.1.counter) ∧
      ms.map upcoming? <+: s.machine.program.lines.map some ++ [none] ∧
      ((ms.filterMap upcoming?).map ProgramLine.number).Pairwise (· < ·) ∧
      ∀ budget,
        s.deeds budget =
          s.rejected.map .rejection ++ .direct l s.machine :: (ms.take budget).map .step ∧
        (budget < ms.length → (s.execute budget).activity = .running) ∧
        (ms.length ≤ budget → (s.execute budget).activity = .stopped) := by
  have first : RunsAt s.machine.program 0 s.machine.start := by
    rw [start_of_filled filled]
    exact ⟨rfl, rfl⟩
  obtain ⟨ms, m', stretch, ended, -, counters, lines, moves⟩ :=
    first.visits ascending forward (List.nil_append _).symm rfl
  refine ⟨ms, ?_, ?_, ?_, lines, ?_, ?_⟩
  · simpa [Program.size] using lines.length_le
  · rw [counters, List.range_eq_range']
  · intro m hm running
    rw [moves m hm running]
    exact Nat.lt_succ_self _
  · have visited : ms.filterMap upcoming? <+: s.machine.program.lines := by
      simpa [List.filterMap_map, List.filterMap_append, Function.comp_def]
        using lines.filterMap id
    exact ascending.sublist (visited.sublist.map ProgramLine.number)
  · intro budget
    obtain ⟨deeds, short, enough⟩ := run_to_end direct queue starts stretch ended budget
    exact ⟨deeds, short, fun h => (enough h).1⟩

/-- A program that fails in two lines, opens a loop and ends in a branch, about to be run. -/
def oneWay : Session :=
  initial.enterAll
    ["10 FOR I=1 TO 3".toList, "20 FROB".toList, "30 PRINT 1/0".toList,
      "40 IF I=1 THEN END ELSE NEW".toList, "50 PRINT I".toList, "RUN".toList]

/-- Its run ends with the step that executes line 40. -/
theorem forward_program_ends_early :
    ∃ ms : List Machine, ms.length = 4 ∧ ms.length ≤ oneWay.machine.program.size + 1 ∧
      ms.map counter = List.range ms.length ∧
      (oneWay.execute 3).activity = .running ∧ (oneWay.execute 4).activity = .stopped := by
  have ascending : oneWay.machine.program.Ascending := by
    rw [Program.Ascending]
    decide +kernel
  obtain ⟨ms, length, counters, -, -, -, slices⟩ :=
    forward_program_ends (s := oneWay) (l := runLine) (by decide +kernel) (by decide +kernel)
      statement_runLine ascending (by decide +kernel) (by decide +kernel)
  have running : (oneWay.execute 3).activity = .running := by decide +kernel
  have stopped : (oneWay.execute 4).activity = .stopped := by decide +kernel
  have more : ¬ ms.length ≤ 3 := by
    intro enough
    rw [(slices 3).2.2 enough] at running
    cases running
  have less : ¬ 4 < ms.length := by
    intro short
    rw [(slices 4).2.1 short] at stopped
    cases stopped
  exact ⟨ms, by omega, length, counters, running, stopped⟩

end Session

end LineBasic
