import LineBasic.Proofs.Session.Intake
import LineBasic.Proofs.Session.Slicing

/-!
# Queueing direct lines

Direct lines can be entered one at a time, each being processed to its end before the
next one, or all at once, to be worked off from the queue. A program that one of them
starts runs to its end before the next one is executed, in either case. `Completes` says
what working off a queue comes to, without any budget: it is a machine and what was
commanded on the way, and it exists if the work ends at all. The work on two queues in
turn is the work on both of them joined (`completes_append_iff`), and so the two ways do
the same.

Main statement: `Session.queueing_equals_processing`.
-/

namespace LineBasic

/-- Whether a typed line is direct: it is not too long, and what is left of it without the
gaps at its ends is not empty and does not start with a digit. -/
def Line.TypedDirect (t : Text) : Prop :=
  t.byteLength ≤ maxBytes ∧ t.trimWhile isLineEdge ≠ [] ∧
    (t.trimWhile isLineEdge).head?.any Char.isDigit = false

instance (t : Text) : Decidable (Line.TypedDirect t) := inferInstanceAs (Decidable (_ ∧ _ ∧ _))

theorem Line.intake_of_typedDirect {t : Text} (h : TypedDirect t) :
    intake t = .direct (t.trimWhile isLineEdge) := by
  obtain ⟨short, filled, letter⟩ := h
  simp only [intake, if_neg (Nat.not_lt_of_le short), if_neg filled, if_pos letter]

/-- Working off the queued lines and the programs that they start leads from one machine
to another, which is idle, and commands the output. -/
inductive Completes : List Line → Machine → Machine → Array Display.Command → Prop where
  | done {m : Machine} : m.isRunning = false → Completes [] m m #[]
  | step {queue : List Line} {m m' : Machine} {output : Array Display.Command} :
      m.isRunning = true → Completes queue m.step.1 m' output →
      Completes queue m m' (m.step.2.toArray ++ output)
  | direct {l : Line} {queue : List Line} {m m' : Machine} {output : Array Display.Command} :
      m.isRunning = false → Completes queue (m.execute l).1 m' output →
      Completes (l :: queue) m m' ((m.execute l).2.toArray ++ output)

namespace Completes

variable {queue later : List Line} {m m' m'' : Machine} {output more : Array Display.Command}

theorem isRunning (h : Completes queue m m' output) : m'.isRunning = false := by
  induction h with
  | done idle => exact idle
  | step _ _ ih => exact ih
  | direct _ _ ih => exact ih

theorem append (first : Completes queue m m' output) (second : Completes later m' m'' more) :
    Completes (queue ++ later) m m'' (output ++ more) := by
  induction first with
  | done => simpa using second
  | step running _ ih =>
      rw [Array.append_assoc]
      exact .step running (ih second)
  | direct idle _ ih =>
      rw [Array.append_assoc]
      exact .direct idle (ih second)

/-- Behind the lines in front there is an idle machine, with which the others begin. -/
theorem split (h : Completes (queue ++ later) m m'' output) :
    ∃ m' first second, Completes queue m m' first ∧ Completes later m' m'' second ∧
      output = first ++ second := by
  generalize joined : queue ++ later = lines at h
  induction h generalizing queue with
  | @done m idle =>
      obtain ⟨rfl, rfl⟩ := List.append_eq_nil_iff.mp joined
      exact ⟨m, #[], #[], .done idle, .done idle, rfl⟩
  | step running _ ih =>
      obtain ⟨m', first, second, front, back, rfl⟩ := ih joined
      exact ⟨m', _, second, .step running front, back, (Array.append_assoc ..).symm⟩
  | @direct l lines m m'' output idle rest ih =>
      cases queue with
      | nil =>
          obtain rfl : later = l :: lines := joined
          exact ⟨m, #[], _, .done idle, .direct idle rest, (Array.empty_append ..).symm⟩
      | cons l' queue =>
          obtain ⟨rfl, rest'⟩ : l' = l ∧ queue ++ later = lines := List.cons.inj joined
          obtain ⟨m', first, second, front, back, rfl⟩ := ih rest'
          exact ⟨m', _, second, .direct idle front, back, (Array.append_assoc ..).symm⟩

end Completes

theorem completes_append_iff {queue later : List Line} {m m'' : Machine}
    {output : Array Display.Command} :
    Completes (queue ++ later) m m'' output ↔
      ∃ m' first second, Completes queue m m' first ∧ Completes later m' m'' second ∧
        output = first ++ second := by
  constructor
  · exact Completes.split
  · rintro ⟨m', first, second, front, back, rfl⟩
    exact front.append back

namespace Session

variable {s t : Session} {lines : List Text} {budget : Nat → Nat}
variable {output : Array Display.Command}

/-- Some budget suffices for the work exactly if the work ends. -/
theorem exists_work_iff (queue : List Line) (m : Machine) (earlier : Array Display.Command)
    (slice : Slice) :
    (∃ budget, work budget queue m earlier = slice ∧ slice.activity = .stopped) ↔
      ∃ m' output, Completes queue m m' output ∧
        slice = ⟨.stopped, { machine := m' }, earlier ++ output⟩ := by
  have assoc (earlier : Array Display.Command) (commands : List Display.Command)
      (output : Array Display.Command) :
      earlier ++ commands ++ output = earlier ++ (commands.toArray ++ output) := by
    simp [← Array.toList_inj]
  constructor
  · rintro ⟨budget, rfl, stopped⟩
    fun_induction work budget queue m earlier with
    | case1 => cases stopped
    | case2 queue m earlier running budget m' commands step ih =>
        obtain ⟨final, output, rest, ended⟩ := ih stopped
        have whole := Completes.step running (by rw [step]; exact rest)
        exact ⟨final, _, whole, by rw [ended, step, assoc]⟩
    | case3 budget m earlier direct =>
        exact ⟨m, #[], .done (by simpa using direct), by rw [Array.append_empty]⟩
    | case4 budget m earlier direct l queue m' commands executed ih =>
        obtain ⟨final, output, rest, ended⟩ := ih stopped
        have whole := Completes.direct (l := l) (by simpa using direct)
          (by rw [executed]; exact rest)
        exact ⟨final, _, whole, by rw [ended, executed, assoc]⟩
  · rintro ⟨m', output, h, rfl⟩
    induction h generalizing earlier with
    | done idle => exact ⟨0, by rw [work_done 0 idle, Array.append_empty], rfl⟩
    | @step queue m m' output running _ ih =>
        obtain ⟨budget, ended, -⟩ := ih (earlier ++ m.step.2)
        exact ⟨budget + 1, by rw [work_step budget running, ended, assoc], rfl⟩
    | @direct l queue m m' output idle _ ih =>
        obtain ⟨budget, ended, -⟩ := ih (earlier ++ (m.execute l).2)
        exact ⟨budget, by rw [work_direct budget l idle, ended, assoc], rfl⟩

/-- A session that is idle and has nothing to report ends exactly if the work on its queue
does, whatever the budgets are. -/
theorem exists_finishWith_iff_completes (positive : ∀ i, 0 < budget i)
    (idle : s.machine.run = none) (rejected : s.rejected = []) :
    (∃ fuel, finishWith budget fuel s #[] = some (t, output)) ↔
      ∃ m', Completes s.queue s.machine m' output ∧ t = { machine := m' } := by
  have executed (total : Nat) : s.execute total = work total s.queue s.machine #[] := by
    simp [execute, rejected, Machine.interrupt_of_run_eq_none idle]
  rw [exists_finishWith_iff positive]
  simp only [executed, Array.empty_append, Prod.mk.injEq]
  constructor
  · rintro ⟨total, stopped, rfl, rfl⟩
    obtain ⟨m', output, completes, ended⟩ :=
      (exists_work_iff s.queue s.machine #[] _).mp ⟨total, rfl, stopped⟩
    rw [ended, Array.empty_append]
    exact ⟨m', completes, rfl⟩
  · rintro ⟨m', completes, rfl⟩
    obtain ⟨total, ended, -⟩ :=
      (exists_work_iff s.queue s.machine #[] _).mpr ⟨m', output, completes, rfl⟩
    exact ⟨total, by rw [ended], by rw [ended], by rw [ended, Array.empty_append]⟩

/-- The lines are processed one after the other, each to its end. -/
inductive ProcessesAll : Session → List Text → Session → Array Display.Command → Prop where
  | nil (s : Session) : ProcessesAll s [] s #[]
  | cons {s s' s'' : Session} {t : Text} {lines : List Text} {fuel : Nat}
      {output later : Array Display.Command} :
      s.process fuel t = some (s', output) → ProcessesAll s' lines s'' later →
      ProcessesAll s (t :: lines) s'' (output ++ later)

/-- The line that is queued for a direct one. -/
def directLine (t : Text) : Line := ⟨none, t.trimWhile isLineEdge⟩

theorem enter_of_typedDirect {line : Text} (typed : Line.TypedDirect line)
    (idle : s.machine.run = none) :
    (s.enter line).1 = { s with queue := s.queue ++ [directLine line] } := by
  rw [enter_eq, Line.intake_of_typedDirect typed]
  simp only [Machine.halt_of_run_eq_none idle, directLine]

theorem enterAll_of_typedDirect (typed : ∀ line ∈ lines, Line.TypedDirect line)
    (idle : s.machine.run = none) :
    s.enterAll lines = { s with queue := s.queue ++ lines.map directLine } := by
  induction lines generalizing s with
  | nil => rw [List.map_nil, List.append_nil, enterAll, List.foldl_nil]
  | cons line lines ih =>
      have first := enter_of_typedDirect (typed line List.mem_cons_self) idle
      have others := ih (s := (s.enter line).1) (fun l hl => typed l (List.mem_cons_of_mem line hl))
        (by rw [first]; exact idle)
      rw [enterAll, List.foldl_cons]
      refine others.trans ?_
      rw [first, List.map_cons, List.append_assoc, List.singleton_append]

theorem exists_process_iff {line : Text} (typed : Line.TypedDirect line)
    (idle : s.machine.run = none) (queue : s.queue = []) (rejected : s.rejected = []) :
    (∃ fuel, s.process fuel line = some (t, output)) ↔
      ∃ m', Completes [directLine line] s.machine m' output ∧ t = { machine := m' } := by
  have entered := enter_of_typedDirect typed idle
  simp only [process, ← finishWith_const, entered, queue, List.nil_append]
  exact exists_finishWith_iff_completes (fun _ => by decide) idle rejected

/-- Processing the lines comes to working off all of them as one queue. -/
theorem processesAll_iff (typed : ∀ line ∈ lines, Line.TypedDirect line)
    (idle : s.machine.run = none) (queue : s.queue = []) (rejected : s.rejected = [])
    (request : s.interrupted = true → lines ≠ []) :
    ProcessesAll s lines t output ↔
      ∃ m', Completes (lines.map directLine) s.machine m' output ∧ t = { machine := m' } := by
  induction lines generalizing s output with
  | nil =>
      obtain ⟨m, waiting, errors, interrupted⟩ := s
      obtain rfl : waiting = [] := queue
      obtain rfl : errors = [] := rejected
      obtain rfl : interrupted = false := by simpa using request
      constructor
      · rintro ⟨⟩
        exact ⟨m, .done (Machine.isRunning_eq_false_iff.mpr idle), rfl⟩
      · rintro ⟨m', completes, rfl⟩
        cases completes with
        | done => exact .nil _
        | step running =>
            rw [Machine.isRunning_eq_false_iff.mpr idle] at running
            cases running
  | cons line lines ih =>
      have first (s' : Session) (output : Array Display.Command) :
          (∃ fuel, s.process fuel line = some (s', output)) ↔
            ∃ m', Completes [directLine line] s.machine m' output ∧ s' = { machine := m' } :=
        exists_process_iff (typed line List.mem_cons_self) idle queue rejected
      have rest (m : Machine) (idle : m.run = none) (output : Array Display.Command) :
          ProcessesAll { machine := m } lines t output ↔
            ∃ m', Completes (lines.map directLine) m m' output ∧ t = { machine := m' } :=
        ih (fun l hl => typed l (List.mem_cons_of_mem line hl)) idle rfl rfl nofun
      have joined : (line :: lines).map directLine =
          [directLine line] ++ lines.map directLine := rfl
      simp only [joined, completes_append_iff]
      constructor
      · rintro (_ | ⟨processed, later⟩)
        obtain ⟨m₁, front, rfl⟩ := (first _ _).mp ⟨_, processed⟩
        have idle₁ := Machine.isRunning_eq_false_iff.mp front.isRunning
        obtain ⟨m', back, ended⟩ := (rest m₁ idle₁ _).mp later
        exact ⟨m', ⟨m₁, _, _, front, back, rfl⟩, ended⟩
      · rintro ⟨m', ⟨m₁, before, after, front, back, rfl⟩, ended⟩
        obtain ⟨fuel, processed⟩ := (first _ _).mpr ⟨m₁, front, rfl⟩
        have idle₁ := Machine.isRunning_eq_false_iff.mp front.isRunning
        exact .cons processed ((rest m₁ idle₁ _).mpr ⟨m', back, ended⟩)

/-- Direct lines that are entered all at once and worked off in slices of any positive
budgets do what they do when they are processed one at a time, and the one comes to an
end exactly if the other does. They start from a session that is at rest. If a break was
requested there, it takes a slice to forget it, and so there has to be a line. -/
theorem queueing_equals_processing (typed : ∀ line ∈ lines, Line.TypedDirect line)
    (idle : s.machine.run = none) (queue : s.queue = []) (rejected : s.rejected = [])
    (request : s.interrupted = true → lines ≠ []) (positive : ∀ i, 0 < budget i) (t : Session)
    (output : Array Display.Command) :
    ProcessesAll s lines t output ↔
      ∃ fuel, finishWith budget fuel (s.enterAll lines) #[] = some (t, output) := by
  have entered : s.enterAll lines = { s with queue := lines.map directLine } := by
    rw [enterAll_of_typedDirect typed idle, queue, List.nil_append]
  rw [processesAll_iff typed idle queue rejected request, entered]
  exact (exists_finishWith_iff_completes (s := { s with queue := lines.map directLine })
    positive idle rejected).symm

/-- A loop of two rounds is stored, and a break was requested that there is nothing for. -/
def twoRoundsStored : Session :=
  (initial.enterAll ["10 FOR I=1 TO 2".toList, "20 NEXT".toList]).interrupt

theorem queueing_equals_processing_twoRoundsStored :
    let lines := ["RUN".toList, "PRINT I/0".toList, "run".toList, "?I".toList, " NEW".toList]
    let written : List Display.Command :=
      "?ERROR: DIVISION BY ZERO\n3\nProgram cleared\n".toList.map .character
    ∃ t, twoRoundsStored.ProcessesAll lines t written.toArray ∧
      ∃ fuel, finishWith (fun i => i % 2 + 1) fuel (twoRoundsStored.enterAll lines) #[] =
        some (t, written.toArray) := by
  intro lines written
  have finished : (finishWith (fun i => i % 2 + 1) 7 (twoRoundsStored.enterAll lines) #[]).map
      (·.2.toList) = some written := by decide +kernel
  obtain ⟨⟨t, output⟩, ended, same⟩ := Option.map_eq_some_iff.mp finished
  obtain rfl : output = written.toArray := by rw [← same]
  have typed : ∀ line ∈ lines, Line.TypedDirect line := by decide +kernel
  have positive (i : Nat) : 0 < i % 2 + 1 := Nat.succ_pos _
  have same := queueing_equals_processing (s := twoRoundsStored) typed rfl rfl rfl
    (fun _ => List.cons_ne_nil _ _) positive t written.toArray
  exact ⟨t, same.mpr ⟨7, ended⟩, 7, ended⟩

end Session

end LineBasic
