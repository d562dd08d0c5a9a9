import LineBasic.Proofs.Interpreter.Actions
import LineBasic.Proofs.Session.Reachability

/-!
# The interpreter is the session

Whatever the interpreter of a session does, it does what the session does: a line that is
attempted, a step, a slice and a line that is processed leave the interpreter of the session
that is left, and they call for what the session commands. What is reported on the way are
the errors of the deeds, in their order.

The loops of the interpreter stop only because those of the session do. So every slice comes
to an end (`Work.execute_ofSession`), and calls of the host lead to the interpreters of the
sessions that they lead to (`reachable_iff`).
-/

namespace LineBasic

open Display (Command)

theorem Error.inLine_none (e : Error) : e.inLine none = e := by
  obtain ⟨kind, line, detail⟩ := e
  cases line <;> rfl

namespace Interpreter

variable {s : Session} {m : Machine} {calls : List Command} {reports : List Error}

/-- A line is read and performed, or it cannot be read. -/
theorem Action.Mirrors.line (s : Session) (l : Line) :
    Mirrors s (Action.line l)
      (match l.statement with
        | .error e => (s.machine, .error e)
        | .ok statement => s.machine.perform statement) := by
  refine read (.lift l.statement) (fun e unread => ?_) fun statement parsed => ?_
  · rw [unread]
  · rw [parsed]
    exact perform s statement

namespace Work

/-- Attempting a line executes it and reports its error in the line. -/
theorem attempt_ofSession (s : Session) (calls : List Command) (reports : List Error) (l : Line)
    {placed : Error → Error} (places : ∀ e, placed e = e.inLine l.number) :
    attempt ⟨ofSession s, calls, reports⟩ l placed =
      ⟨ofSession { s with machine := (s.machine.execute l).1 },
        calls ++ (s.machine.execute l).2, reports ++ (s.machine.failure? l).toList⟩ := by
  rw [attempt, Action.Mirrors.line s l calls reports]
  cases read : l.statement with
  | error e =>
      simp only [Machine.execute, Machine.failure?, read]
      exact places e ▸ report_eq _ _
  | ok statement =>
      cases performed : s.machine.perform statement with
      | mk m outcome =>
          cases outcome with
          | error e =>
              simp only [Machine.execute, Machine.failure?, read, performed]
              exact places e ▸ report_eq _ _
          | ok commands =>
              simp only [Machine.execute, Machine.failure?, read, performed, Option.toList_none,
                List.append_nil]
              rfl

/-- A direct line is attempted and reported without a line. -/
theorem attempt_direct (s : Session) (calls : List Command) (reports : List Error) {l : Line}
    (direct : l.number = none) :
    attempt ⟨ofSession s, calls, reports⟩ l id =
      ⟨ofSession { s with machine := (s.machine.execute l).1 },
        calls ++ (s.machine.execute l).2, reports ++ (s.machine.failure? l).toList⟩ :=
  attempt_ofSession s calls reports l fun e => by rw [direct, e.inLine_none, id]

/-- A step inside the lines of the run, once the counter has moved on. -/
theorem step_of_place {w : Work} {number : Nat} {i : Interpreter}
    (place : w.interpreter.lines[w.interpreter.counter]? = some number)
    (moved : { w.interpreter with counter := w.interpreter.counter + 1 } = i) :
    w.step =
      match i.listing.get? number with
      | none => { w with interpreter := i }
      | some line =>
        { w with interpreter := i }.attempt line fun e =>
          if e.isDirect then { e with line := some number } else e := by
  subst moved
  cases found : w.interpreter.listing.get? number with
  | none => simp only [step, place, found]
  | some line => simp only [step, place, found]

theorem step_of_behind {w : Work}
    (place : w.interpreter.lines[w.interpreter.counter]? = none) :
    w.step = { w with interpreter := w.interpreter.stop } := by
  rw [step, place]

/-- A step moves the counter on and attempts the line, if it is still there. -/
theorem step_ofSession (running : s.machine.isRunning = true) (calls : List Command)
    (reports : List Error) :
    step ⟨ofSession s, calls, reports⟩ =
      ⟨ofSession { s with machine := s.machine.step.1 }, calls ++ s.machine.step.2,
        reports ++ (Session.Deed.step s.machine).error?.toList⟩ := by
  obtain ⟨r, run⟩ := Option.isSome_iff_exists.mp running
  have next := place_ofSession run
  have moved := advance_ofSession run
  rw [Session.Deed.error?, Machine.upcoming?, run, Option.bind_some]
  cases place : r.lines[r.next]? with
  | none =>
      have ended : s.machine.step = (s.machine.halt, []) := by simp only [Machine.step, run, place]
      rw [step_of_behind (next.trans place), ended, Option.bind_none, Option.bind_none,
        Option.toList_none, List.append_nil, List.append_nil]
      rfl
  | some number =>
      rw [step_of_place (next.trans place) moved, listing_ofSession, Listing.get?_ofProgram,
        Option.bind_some]
      have same : s.machine.advance.program = s.machine.program := rfl
      rw [same]
      cases found : s.machine.program.find? number with
      | none =>
          have passed : s.machine.step = (s.machine.advance, []) := by
            simp only [Machine.step, Machine.advance, run, place, found, Option.map_some]
          rw [passed, Option.bind_none, Option.toList_none, List.append_nil, List.append_nil]
          rfl
      | some line =>
          have upcoming : s.machine.upcoming? = some line := by
            simp only [Machine.upcoming?, run, place, found, Option.bind_some]
          obtain rfl : line.number = number := by simpa using List.find?_some found
          rw [Machine.step_of_upcoming? upcoming]
          exact attempt_ofSession { s with machine := s.machine.advance } calls reports line.toLine
            fun e => rfl

/-- The errors that were put aside are reported one by one. -/
theorem foldl_report (errors : List Error) (w : Work) :
    errors.foldl report w =
      { w with
        calls := w.calls ++ errors.flatMap Machine.report
        reports := w.reports ++ errors } := by
  induction errors generalizing w with
  | nil => simp
  | cons e errors ih => simp [ih, report_eq]

theorem reportPending_ofSession (s : Session) (calls : List Command) (reports : List Error) :
    reportPending ⟨ofSession s, calls, reports⟩ =
      ⟨ofSession { s with rejected := [] }, calls ++ s.rejected.flatMap Machine.report,
        reports ++ s.rejected⟩ :=
  foldl_report s.rejected _

/-- Without a program that runs, a request for a break is dropped. -/
theorem obeyBreak_of_quiet (quiet : ¬(s.interrupted = true ∧ s.machine.isRunning = true))
    (calls : List Command) (reports : List Error) :
    obeyBreak ⟨ofSession s, calls, reports⟩ =
      ⟨ofSession { s with interrupted := false }, calls, reports⟩ := by
  have quiet : ¬((ofSession s).interrupted = true ∧
      ({ ofSession s with interrupted := false } : Interpreter).state = .running) := by
    rintro ⟨requested, running⟩
    exact quiet ⟨requested, state_eq_running_iff.mp running⟩
  rw [obeyBreak]
  exact if_neg quiet

/-- A program that runs is stopped, and it is reported where. -/
theorem obeyBreak_of_run (requested : s.interrupted = true) {r : Run}
    (run : s.machine.run = some r) (calls : List Command) (reports : List Error) :
    obeyBreak ⟨ofSession s, calls, reports⟩ =
      ⟨ofSession { s with machine := s.machine.halt, interrupted := false },
        calls ++ Machine.report { kind := .interrupted, line := r.pendingLine? },
        reports ++ [{ kind := .interrupted, line := r.pendingLine? }]⟩ := by
  have broken : (ofSession s).interrupted = true ∧
      ({ ofSession s with interrupted := false } : Interpreter).state = .running :=
    ⟨requested, state_of_isRunning (Machine.isRunning_of_run run)⟩
  have pending : ((ofSession s).lines[(ofSession s).counter]? <|> (ofSession s).lines.back?) =
      r.pendingLine? := by
    rw [ofSession, Machine.snapshot, Machine.counter, run]
    rfl
  rw [obeyBreak]
  refine (if_pos broken).trans ?_
  simp only [report_eq, pending]
  rfl

theorem resumed_of_quiet (quiet : ¬(s.interrupted = true ∧ s.machine.isRunning = true)) :
    s.resumed = s.machine := by
  rw [Session.resumed]
  split
  · next requested =>
    have stopped := Bool.eq_false_iff.mpr fun running => quiet ⟨requested, running⟩
    exact Machine.halt_of_run_eq_none (Machine.isRunning_eq_false_iff.mp stopped)
  · rfl

/-- Before it works, a slice does the preliminaries. -/
theorem obeyBreak_reportPending (s : Session) (calls : List Command) (reports : List Error) :
    (reportPending ⟨ofSession s, calls, reports⟩).obeyBreak =
      ⟨ofSession { machine := s.resumed, queue := s.queue },
        calls ++ s.preliminaries.flatMap Session.Deed.output,
        reports ++ s.preliminaries.filterMap Session.Deed.error?⟩ := by
  have aside : (s.rejected.map Session.Deed.rejection).filterMap Session.Deed.error? =
      s.rejected := by
    rw [List.filterMap_map]
    exact List.filterMap_some
  rw [reportPending_ofSession, Session.preliminaries, List.flatMap_append, List.flatMap_map,
    List.filterMap_append, aside, ← List.append_assoc, ← List.append_assoc]
  by_cases broken : s.interrupted = true ∧ s.machine.isRunning = true
  · obtain ⟨requested, running⟩ := broken
    obtain ⟨r, run⟩ := Option.isSome_iff_exists.mp running
    rw [obeyBreak_of_run (s := { s with rejected := [] }) requested run, Session.resumed,
      requested, running]
    simp [Session.Deed.output, Session.Deed.error?, Machine.interrupt, run]
  · rw [obeyBreak_of_quiet (s := { s with rejected := [] }) broken, resumed_of_quiet broken,
      if_neg (by simpa using broken)]
    simp [Session.Deed.output]

/-- Working off the program and the queue does the deeds of that work. -/
theorem loop_ofSession (budget : Nat) (queue : List Line) (m : Machine) (output : Array Command)
    (calls : List Command) (reports : List Error) (numberless : ∀ l ∈ queue, l.number = none) :
    let slice := Session.work budget queue m output
    let deeds := Session.workDeeds budget queue m
    loop budget ⟨ofSession { machine := m, queue }, calls, reports⟩ =
      some (slice.activity, ⟨ofSession slice.session, calls ++ deeds.flatMap Session.Deed.output,
        reports ++ deeds.filterMap Session.Deed.error?⟩) := by
  fun_induction Session.work budget queue m output generalizing calls reports with
  | case1 queue m output running =>
      rw [loop.eq_def, if_pos (state_of_isRunning running), Session.workDeeds_spent running]
      simp
  | case2 queue m output running budget m' commands step ih =>
      have stepped := step_ofSession (s := { machine := m, queue }) running calls reports
      have output : (Session.Deed.step m).output = commands := by rw [Session.Deed.output, step]
      rw [loop.eq_def, if_pos (state_of_isRunning running),
        Session.workDeeds_step budget running, step]
      dsimp only
      rw [stepped, step, ih _ _ numberless, List.flatMap_cons, output]
      simp only [List.filterMap_eq_flatMap_toList, List.flatMap_cons, List.append_assoc]
  | case3 budget m output direct =>
      rw [Session.workDeeds_done budget (Bool.eq_false_iff.mpr direct), loop.eq_def,
        if_neg (state_eq_running_iff.not.mpr direct)]
      simp [ofSession]
  | case4 budget m output direct l queue m' commands executed ih =>
      have attempted := attempt_direct { machine := m, queue } calls reports
        (numberless l List.mem_cons_self)
      have later := fun l' hl' => numberless l' (List.mem_cons_of_mem l hl')
      have output : (Session.Deed.direct l m).output = commands := by
        rw [Session.Deed.output, executed]
      rw [Session.workDeeds_direct budget l (Bool.eq_false_iff.mpr direct), loop.eq_def,
        if_neg (state_eq_running_iff.not.mpr direct), executed]
      show loop budget (attempt ⟨ofSession { machine := m, queue }, calls, reports⟩ l id) = _
      rw [attempted, executed, ih _ _ later, List.flatMap_cons, output]
      simp only [List.filterMap_eq_flatMap_toList, List.flatMap_cons, List.append_assoc,
        Session.Deed.error?]

/-- A slice comes to an end, and it does what its deeds do. -/
theorem execute_ofSession (sound : s.Sound) (budget : Nat) (calls : List Command)
    (reports : List Error) :
    execute ⟨ofSession s, calls, reports⟩ budget =
      some ((s.execute budget).activity,
        ⟨ofSession (s.execute budget).session, calls ++ (s.execute budget).output.toList,
          reports ++ (s.deeds budget).filterMap Session.Deed.error?⟩) := by
  rw [execute, obeyBreak_reportPending, Session.output_execute, Session.execute_eq_work,
    Session.deeds, List.flatMap_append, List.filterMap_append, ← List.append_assoc,
    ← List.append_assoc]
  exact loop_ofSession budget s.queue s.resumed _ _ _ sound.queue

/-- If the slices of a session end, so do those of its interpreter. -/
theorem exists_finish (sound : s.Sound) {fuel : Nat} {t : Session} {output more : Array Command}
    (finished : Session.finish Session.defaultBudget fuel s output = some (t, more))
    (reports : List Error) :
    ∃ later, finish ⟨ofSession s, output.toList, reports⟩ =
      some ⟨ofSession t, more.toList, later⟩ := by
  induction fuel generalizing s output reports with
  | zero => cases finished
  | succ fuel ih =>
      rw [Session.finish] at finished
      rw [finish.eq_def, execute_ofSession sound]
      cases activity : (s.execute Session.defaultBudget).activity with
      | stopped =>
          simp only [activity, Option.some.injEq, Prod.mk.injEq] at finished
          obtain ⟨rfl, rfl⟩ := finished
          rw [Array.toList_append]
          exact ⟨_, rfl⟩
      | running =>
          simp only [activity] at finished
          obtain ⟨later, ended⟩ := ih (sound.execute Session.defaultBudget) finished _
          rw [Array.toList_append] at ended
          exact ⟨later, ended⟩

/-- If the slices of an interpreter end, so do those of its session. -/
theorem finish_sound {w w' : Work} (finished : w.finish = some w') (sound : s.Sound)
    (here : w.interpreter = ofSession s) :
    ∃ fuel t output, Session.finish Session.defaultBudget fuel s w.calls.toArray =
      some (t, output) ∧ w'.interpreter = ofSession t ∧ w'.calls = output.toList := by
  refine finish.partial_correctness
    (fun w w' => ∀ s : Session, s.Sound → w.interpreter = ofSession s →
      ∃ fuel t output, Session.finish Session.defaultBudget fuel s w.calls.toArray =
        some (t, output) ∧ w'.interpreter = ofSession t ∧ w'.calls = output.toList)
    ?_ w w' finished s sound here
  intro again ih w w' ended s sound here
  obtain ⟨i, calls, reports⟩ := w
  obtain rfl : i = ofSession s := here
  rw [execute_ofSession sound] at ended
  cases activity : (s.execute Session.defaultBudget).activity with
  | stopped =>
      simp only [activity, bind, Option.bind_some, pure, Option.some.injEq] at ended
      subst ended
      refine ⟨1, (s.execute Session.defaultBudget).session,
        calls.toArray ++ (s.execute Session.defaultBudget).output, ?_, rfl, by simp⟩
      simp only [Session.finish, activity]
  | running =>
      simp only [activity, bind, Option.bind_some] at ended
      obtain ⟨fuel, t, output, finished, left, called⟩ :=
        ih _ w' ended _ (sound.execute Session.defaultBudget) rfl
      refine ⟨fuel + 1, t, output, ?_, left, called⟩
      simp only [Session.finish, activity]
      have appended : calls.toArray ++ (s.execute Session.defaultBudget).output =
          (calls ++ (s.execute Session.defaultBudget).output.toList).toArray := by simp
      rw [appended]
      exact finished

/-- A line is processed to its end by the interpreter if it is by the session. -/
theorem exists_process_iff (sound : s.Sound) {t : Text} {i : Interpreter} {calls : List Command} :
    (∃ reports, process { interpreter := ofSession s } t = some ⟨i, calls, reports⟩) ↔
      ∃ fuel s' output, s.process fuel t = some (s', output) ∧ i = ofSession s' ∧
        calls = output.toList := by
  have entered := congrArg Prod.fst (enter_ofSession s t)
  have here : process { interpreter := ofSession s } t =
      finish ⟨ofSession (s.enter t).1, [], []⟩ := by
    rw [process, entered]
  rw [here]
  constructor
  · rintro ⟨reports, finished⟩
    exact finish_sound finished (sound.enter t) rfl
  · rintro ⟨fuel, s', output, processed, rfl, rfl⟩
    exact exists_finish (sound.enter t) processed []

end Work

/-- Calls of the host lead to the interpreters of the sessions that they lead to. -/
theorem reachable_iff {i : Interpreter} :
    Reachable i ↔ ∃ s : Session, s.Reachable ∧ i = ofSession s := by
  constructor
  · intro reached
    induction reached with
    | initial => exact ⟨.initial, .initial, rfl⟩
    | @enter i t _ ih =>
        obtain ⟨s, reached, rfl⟩ := ih
        exact ⟨(s.enter t).1, reached.enter t, congrArg Prod.fst (enter_ofSession s t)⟩
    | @execute i w budget activity _ executed ih =>
        obtain ⟨s, reached, rfl⟩ := ih
        rw [Work.execute_ofSession reached.sound] at executed
        obtain ⟨-, rfl⟩ := Prod.mk.inj (Option.some.inj executed)
        exact ⟨(s.execute budget).session, reached.execute budget, rfl⟩
    | @process i w t _ processed ih =>
        obtain ⟨s, reached, rfl⟩ := ih
        obtain ⟨fuel, s', output, processed, left, -⟩ :=
          (Work.exists_process_iff reached.sound).mp ⟨w.reports, processed⟩
        exact ⟨s', reached.process processed, left⟩
    | interrupt _ ih =>
        obtain ⟨s, reached, rfl⟩ := ih
        exact ⟨s.interrupt, reached.interrupt, rfl⟩
  · rintro ⟨s, reached, rfl⟩
    induction reached with
    | initial => exact .initial
    | @enter s t _ ih =>
        have entered : ((ofSession s).enter t).1 = ofSession (s.enter t).1 :=
          congrArg Prod.fst (enter_ofSession s t)
        exact entered ▸ ih.enter t
    | @execute s budget reached ih =>
        exact ih.execute (Work.execute_ofSession reached.sound budget [] [])
    | process reached processed ih =>
        obtain ⟨reports, processed⟩ :=
          (Work.exists_process_iff reached.sound).mpr ⟨_, _, _, processed, rfl, rfl⟩
        exact ih.process processed
    | @interrupt s _ ih => exact ih.interrupt

/-- Whatever occurs is the interpreter of a sound session. -/
theorem Occurs.exists_sound {i : Interpreter} (h : Occurs i) :
    ∃ s : Session, s.Sound ∧ i = ofSession s := by
  induction h with
  | reached h =>
      obtain ⟨s, reached, rfl⟩ := reachable_iff.mp h
      exact ⟨s, reached.sound, rfl⟩
  | @opened w h =>
      obtain ⟨s, reached, here⟩ := reachable_iff.mp h
      obtain ⟨i, calls, reports⟩ := w
      obtain rfl : i = ofSession s := here
      have sound : Session.Sound { machine := s.resumed, queue := s.queue } :=
        ⟨reached.sound.resumed, reached.sound.queue, by simp⟩
      exact ⟨_, sound, congrArg Work.interpreter (Work.obeyBreak_reportPending s calls reports)⟩
  | @step w _ running ih =>
      obtain ⟨s, sound, here⟩ := ih
      obtain ⟨i, calls, reports⟩ := w
      obtain rfl : i = ofSession s := here
      have stepped := Work.step_ofSession (state_eq_running_iff.mp running) calls reports
      have later : Session.Sound { s with machine := s.machine.step.1 } :=
        ⟨sound.machine.step, sound.queue, sound.rejected⟩
      exact ⟨_, later, congrArg Work.interpreter stepped⟩
  | @direct w l queue _ direct waiting ih =>
      obtain ⟨s, sound, here⟩ := ih
      obtain ⟨i, calls, reports⟩ := w
      obtain rfl : i = ofSession s := here
      have waiting : s.queue = l :: queue := waiting
      have stopped := run_eq_none_of_state_eq_direct direct
      have numberless : ∀ l' ∈ l :: queue, l'.number = none := waiting ▸ sound.queue
      have attempted := Work.attempt_direct { s with queue } calls reports
        (numberless l List.mem_cons_self)
      have later : Session.Sound { s with queue, machine := (s.machine.execute l).1 } :=
        ⟨sound.machine.execute (Machine.moved_of_run_eq_none stopped) l,
          fun l' hl' => numberless l' (List.mem_cons_of_mem l hl'), sound.rejected⟩
      exact ⟨_, later, congrArg Work.interpreter attempted⟩

end Interpreter

end LineBasic
