import LineBasic.Proofs.Machine.Containment
import LineBasic.Proofs.Session.Calls
import LineBasic.Proofs.Session.Intake

/-!
# Requested breaks

A request for a break waits until the next slice and is gone after it, whether or not
there was a program to break. What counts is only that a break was requested: how often,
and what was entered in between, is the same to the slice.

The only deed that reports a break is the one that ends the run, and a slice does it at
most once, between its reports of refused lines and its work. No line that fails reports
a break, so none is reported later unless it is requested anew.

Main statement: `Session.break_is_consumed`.
-/

namespace LineBasic

open Display (Command)

namespace Session

/-- Whether the deed reports a break. -/
def Deed.reportsBreak (d : Deed) : Bool := d.error?.any (·.kind == .interrupted)

variable {s : Session} {budget : Nat}

/-- A failing line does not report a break. -/
theorem any_failure?_eq_false (m : Machine) (l : Line) :
    (m.failure? l).any (·.kind == .interrupted) = false := by
  cases failed : m.failure? l with
  | none => rfl
  | some e =>
      obtain ⟨cause, fails, same⟩ := Machine.exists_fails_of_failure? failed
      simpa [same] using fails.kind_ne.1

/-- No break is reported while a slice works. -/
theorem countP_workDeeds (budget : Nat) (queue : List Line) (m : Machine) :
    (workDeeds budget queue m).countP Deed.reportsBreak = 0 := by
  fun_induction workDeeds budget queue m with
  | case1 | case3 => rfl
  | case2 queue m running budget ih =>
      rw [List.countP_cons_of_neg, ih]
      cases upcoming : m.upcoming? with
      | none => simp [Deed.reportsBreak, Deed.error?, upcoming]
      | some line =>
          simpa [Deed.reportsBreak, Deed.error?, upcoming] using
            any_failure?_eq_false m.advance line.toLine
  | case4 budget m direct l queue ih =>
      rw [List.countP_cons_of_neg, ih]
      simpa [Deed.reportsBreak, Deed.error?] using any_failure?_eq_false m l

/-- A slice reports a break if one was requested and a program runs, and reports one only. -/
theorem countP_deeds (h : s.Sound) (budget : Nat) :
    (s.deeds budget).countP Deed.reportsBreak =
      if s.interrupted && s.machine.isRunning then 1 else 0 := by
  have reports : (s.rejected.map Deed.rejection).countP Deed.reportsBreak = 0 := by
    rw [List.countP_eq_zero]
    intro d hd
    obtain ⟨e, he, rfl⟩ := List.mem_map.mp hd
    simpa [Deed.reportsBreak, Deed.error?] using (h.rejected e he).not_interrupted
  rw [deeds, preliminaries, List.countP_append, List.countP_append, reports, countP_workDeeds,
    Nat.zero_add, Nat.add_zero]
  split
  · next requested =>
    obtain ⟨r, running⟩ := Option.isSome_iff_exists.mp (Bool.and_eq_true_iff.mp requested).2
    simp [Deed.reportsBreak, Deed.error?, running]
  · rfl

theorem interrupted_enter (s : Session) (t : Text) : (s.enter t).1.interrupted = s.interrupted := by
  rw [enter_eq]
  cases Line.intake t <;> rfl

/-- As long as no break is requested, none is reported. -/
theorem countP_history (h : Reachable s) (quiet : s.interrupted = false) {calls : List Call}
    (unrequested : .interrupt ∉ calls) : (s.history calls).countP Deed.reportsBreak = 0 := by
  induction calls generalizing s with
  | nil => rfl
  | cons c calls ih =>
      have later : .interrupt ∉ calls := fun mem => unrequested (List.mem_cons_of_mem c mem)
      cases c with
      | enter t => exact ih (h.enter t) ((interrupted_enter s t).trans quiet) later
      | interrupt => exact absurd List.mem_cons_self unrequested
      | execute budget =>
          rw [history, List.countP_append, countP_deeds h.sound, quiet,
            ih (h.execute budget) (execute_session s budget).2 later]
          rfl

/-- A request for a break waits while lines are entered. -/
theorem enter_interrupt (s : Session) (t : Text) :
    (s.interrupt.enter t).1 = (s.enter t).1.interrupt := by
  rw [enter_eq, enter_eq]
  cases Line.intake t <;> rfl

theorem after_interrupt {calls : List Call} (waiting : ∀ c ∈ calls, c.isExecute = false) :
    s.interrupt.after calls = (s.after (calls.filter (!·.isInterrupt))).interrupt := by
  induction calls generalizing s with
  | nil => rfl
  | cons c calls ih =>
      have later := fun d hd => waiting d (List.mem_cons_of_mem c hd)
      cases c with
      | enter t =>
          rw [after_cons, call, enter_interrupt, ih later]
          rfl
      | interrupt =>
          have again : s.interrupt.after calls = _ := ih later
          exact again
      | execute budget => cases waiting _ List.mem_cons_self

/-- However often a break is requested before a slice, it is requested once. -/
theorem after_eq_interrupt {calls : List Call} (waiting : ∀ c ∈ calls, c.isExecute = false)
    (requested : .interrupt ∈ calls) :
    s.after calls = (s.after (calls.filter (!·.isInterrupt))).interrupt := by
  induction calls generalizing s with
  | nil => cases requested
  | cons c calls ih =>
      have later := fun d hd => waiting d (List.mem_cons_of_mem c hd)
      cases c with
      | enter t =>
          exact ih later ((List.mem_cons.mp requested).resolve_left nofun)
      | interrupt => exact after_interrupt later
      | execute budget => cases waiting _ List.mem_cons_self

/-- Without a program that runs, a request for a break is dropped. -/
theorem execute_interrupt_of_stopped (stopped : s.machine.run = none) (budget : Nat) :
    s.interrupt.execute budget = { s with interrupted := false }.execute budget := by
  simp only [execute, interrupt, Machine.interrupt_of_run_eq_none stopped, if_true,
    Bool.false_eq_true, if_false]

theorem characters_break (n : Nat) :
    Error.characters { kind := .interrupted, line := some n } =
      ("?BREAK IN ".toList ++ Decimal.print n ++ ['\n']).map .character :=
  Error.characters_inLine .interrupted n

/-- A program that runs is stopped before the slice works, and the slice works on as it
does in direct mode. -/
theorem execute_interrupt_of_running {r : Run} (running : s.machine.run = some r) {n : Nat}
    (pending : r.pendingLine? = some n) (budget : Nat) :
    s.interrupt.execute budget =
      (execute { machine := s.machine.halt, queue := s.queue } budget).behind
        (s.rejected.flatMap Error.characters ++
          ("?BREAK IN ".toList ++ Decimal.print n ++ ['\n']).map Command.character).toArray := by
  have worked := work_append budget s.queue s.machine.halt
    (s.rejected.flatMap Machine.report ++
      Machine.report { kind := .interrupted, line := r.pendingLine? }).toArray #[]
  rw [Array.append_empty, pending, Machine.report_eq_characters, characters_break] at worked
  have here : s.interrupt.execute budget = work budget s.queue s.machine.halt
      (s.rejected.flatMap Error.characters ++
        ("?BREAK IN ".toList ++ Decimal.print n ++ ['\n']).map Command.character).toArray := by
    rw [execute, interrupt, Machine.report_eq_characters]
    simp only [if_true, Machine.interrupt, running, pending, Machine.report_eq_characters,
      characters_break]
  exact here.trans worked

/-- A requested break is seen by the next slice and by no other, and then it is reported if
a program runs, and only then.

However often it is requested before the slice, and whatever is entered in between, counts
as one request. In direct mode it has no effect at all. If a program runs, the break is
written behind the reports of refused lines and names the next line, or the last one behind
the end of the program. The program stops, while the listing, the variables and the loops
stay, and the queued lines are worked off as in direct mode.

All that slices command comes from their deeds, and a deed that reports an error writes the
report of this error and nothing else. -/
theorem break_is_consumed (h : Reachable s) (budget : Nat) :
    (∀ calls : List Call, (∀ c ∈ calls, c.isExecute = false) → .interrupt ∈ calls →
      s.after calls = (s.after (calls.filter (!·.isInterrupt))).interrupt) ∧
    (s.machine.run = none →
      s.interrupt.execute budget = { s with interrupted := false }.execute budget) ∧
    (∀ r, s.machine.run = some r → ∃ n,
      (r.lines[r.next]? = some n ∨ r.lines.size ≤ r.next ∧ r.lines.back? = some n) ∧
      let stopped : Session := { machine := { s.machine with run := none }, queue := s.queue }
      s.interrupt.execute budget =
        (stopped.execute budget).behind
          (s.rejected.flatMap Error.characters ++
            ("?BREAK IN ".toList ++ Decimal.print n ++ ['\n']).map Command.character).toArray) ∧
    ((s.interrupt.execute budget).output.toList =
        (s.interrupt.deeds budget).flatMap Deed.output ∧
      (s.interrupt.deeds budget).countP Deed.reportsBreak =
        (if s.machine.isRunning then 1 else 0)) ∧
    (∀ calls : List Call, .interrupt ∉ calls →
      let later := (s.interrupt.execute budget).session
      (later.slices calls).flatMap (·.output.toList) =
          (later.history calls).flatMap Deed.output ∧
        (later.history calls).countP Deed.reportsBreak = 0) ∧
    ∀ (d : Deed) (e : Error), d.error? = some e → d.output = e.characters := by
  refine ⟨fun _ => after_eq_interrupt, fun stopped => execute_interrupt_of_stopped stopped budget,
    ?_, ⟨output_execute s.interrupt budget, countP_deeds h.interrupt.sound budget⟩, ?_,
    fun _ _ => Deed.output_of_error?⟩
  · intro r running
    obtain ⟨n, -, pending⟩ := h.sound.machine.exists_pendingLine? running
    refine ⟨n, ?_, execute_interrupt_of_running running pending budget⟩
    cases place : r.lines[r.next]? with
    | some n' =>
        rw [Run.pendingLine?, place] at pending
        exact .inl pending
    | none =>
        rw [Run.pendingLine?, place] at pending
        exact .inr ⟨Array.getElem?_eq_none_iff.mp place, pending⟩
  · intro calls unrequested later
    exact ⟨later.output_slices calls,
      countP_history (h.interrupt.execute budget) (execute_session _ budget).2 unrequested⟩

/-- An endless loop that runs, with a line that waits and one that was refused. -/
def endless : Session :=
  (((initial.enterAll
    ["10 FOR I=1 TO 2 STEP 0".toList, "20 NEXT I".toList, "RUN".toList,
      "PRINT I".toList]).execute 2).session.enter "70000".toList).1

theorem break_is_consumed_endless :
    Reachable endless ∧ endless.machine.run = some ⟨#[10, 20], 1⟩ ∧
      endless.after [.interrupt, .enter "30".toList, .interrupt] =
        (endless.after [.enter "30".toList]).interrupt ∧
      (endless.interrupt.execute 7).output =
        ("?SYNTAX ERROR; INVALID LINE NUMBER\n?BREAK IN 20\n".toList.map
            Command.character).toArray ++
          (execute { machine := endless.machine.halt, queue := endless.queue } 7).output ∧
      (endless.interrupt.deeds 7).countP Deed.reportsBreak = 1 ∧
      ((endless.interrupt.execute 7).session.history
        [.enter "RUN".toList, .execute 9, .execute 9]).countP Deed.reportsBreak = 0 := by
  have reached : Reachable endless := ((Reachable.initial.enterAll _).execute 2).enter _
  have running : endless.machine.run = some ⟨#[10, 20], 1⟩ := by decide +kernel
  obtain ⟨once, -, broken, ⟨-, reported⟩, later, -⟩ := break_is_consumed reached 7
  refine ⟨reached, running, once _ (by decide) (by decide), ?_, ?_, (later _ (by decide)).2⟩
  · obtain ⟨n, place, executed⟩ := broken _ running
    have last : n = 20 := by
      rcases place with place | ⟨behind, -⟩
      · exact (Option.some.inj place).symm
      · exact absurd behind (by decide)
    subst last
    have reports : endless.rejected.flatMap Error.characters ++
        ("?BREAK IN ".toList ++ Decimal.print 20 ++ ['\n']).map .character =
          "?SYNTAX ERROR; INVALID LINE NUMBER\n?BREAK IN 20\n".toList.map .character := by
      decide +kernel
    rw [executed, reports]
    rfl
  · rw [reported, Machine.isRunning, running]
    rfl

end Session

end LineBasic
