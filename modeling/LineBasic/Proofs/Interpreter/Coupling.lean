import LineBasic.Proofs.Interpreter.Containment
import LineBasic.Proofs.Session.Interruption

/-!
# What the fields of an interpreter keep to each other

The state, the lines that are run and the counter are written by several statements, by lines
that are entered and by slices. They are in step at all times, and so are the loops with the
variables and the run, and the keys of the listing with the numbers of its lines
(`Invariant`). A break of a running program therefore always has a line to name, and no loop is
ever closed on an empty stack.

Main statement: `invariant_of_occurs`.
-/

namespace LineBasic

open Display (Command)

namespace Session

variable {m : Machine} {queue : List Line}

theorem kind_of_failure? {l : Line} {e : Error} (h : m.failure? l = some e) :
    e.kind ≠ .internalError := by
  obtain ⟨cause, fails, same⟩ := Machine.exists_fails_of_failure? h
  exact same ▸ fails.kind_ne.2

/-- Working executes lines; it has nothing more to report. -/
theorem kind_of_mem_workDeeds {budget : Nat} {d : Deed} (hd : d ∈ workDeeds budget queue m)
    {e : Error} (he : d.error? = some e) : e.kind ≠ .internalError := by
  fun_induction workDeeds budget queue m with
  | case1 => cases hd
  | case2 queue m running budget ih =>
      rcases List.mem_cons.mp hd with rfl | hd
      · obtain ⟨line, -, failed⟩ := Option.bind_eq_some_iff.mp he
        exact kind_of_failure? failed
      · exact ih hd
  | case3 => cases hd
  | case4 budget m direct l queue ih =>
      rcases List.mem_cons.mp hd with rfl | hd
      · exact kind_of_failure? he
      · exact ih hd

/-- No deed of a slice reports a fault of the interpreter. -/
theorem Sound.kind_of_mem_deeds {s : Session} (h : s.Sound) {budget : Nat} {d : Deed}
    (hd : d ∈ s.deeds budget) {e : Error} (he : d.error? = some e) : e.kind ≠ .internalError := by
  rw [deeds, preliminaries, List.mem_append, List.mem_append] at hd
  rcases hd with (hd | hd) | hd
  · obtain ⟨e', he', rfl⟩ := List.mem_map.mp hd
    obtain rfl := Option.some.inj he
    exact (h.rejected e' he').not_internal
  · split at hd
    · obtain rfl := List.mem_singleton.mp hd
      obtain ⟨r, -, rfl⟩ := Option.map_eq_some_iff.mp he
      simp
    · cases hd
  · exact kind_of_mem_workDeeds hd he

end Session

namespace Interpreter

/-- The fields of an interpreter are in step. -/
structure Invariant (i : Interpreter) : Prop where
  /-- In direct mode there are no lines to run. -/
  direct : i.state = .direct → i.lines = #[] ∧ i.counter = 0
  /-- A run keeps to its lines, and so do the loops that are open in it. -/
  running : i.state = .running →
    i.lines ≠ #[] ∧ i.lines.toList.Pairwise (· < ·) ∧ i.counter ≤ i.lines.size ∧
      ∀ l ∈ i.loops.entries, 1 ≤ l.resume ∧ l.resume ≤ i.lines.size
  loops : i.loops.size ≤ 255 ∧ (i.loops.entries.map Loop.name).Nodup ∧
    ∀ l ∈ i.loops.entries, i.vars.contains l.name = true
  vars : i.vars.size ≤ 65535 ∧ ∀ name, i.vars.contains name = true →
    name.isName = true ∧ ∀ c ∈ name, c.isLower = false
  listing : i.listing.lineNumbers.Pairwise (· < ·) ∧ ∀ n line, (n, line) ∈ i.listing.source →
    line.number = some n ∧ n ≤ 65529 ∧ line.text ≠ []

variable {s : Session}

theorem invariant_ofSession (h : s.Sound) : (ofSession s).Invariant where
  direct := by
    intro direct
    have stopped := run_eq_none_of_state_eq_direct direct
    simp [ofSession, Machine.snapshot, Machine.counter, stopped]
  running := by
    intro running
    obtain ⟨r, run⟩ := Option.isSome_iff_exists.mp (state_eq_running_iff.mp running)
    have sound := h.machine.run r run
    simp only [ofSession, Machine.snapshot, Machine.counter, run, Option.map_some,
      Option.getD_some]
    exact ⟨sound.nonempty, sound.ascending, sound.bounded, sound.resumes⟩
  loops := ⟨h.machine.loops.depth, h.machine.loops.distinct, h.machine.loops.stored⟩
  vars := ⟨h.machine.vars.bounded, h.machine.vars.canonical⟩
  listing := by
    have program := h.machine.program
    rw [listing_ofSession, Listing.lineNumbers_ofProgram]
    refine ⟨program.ascending, ?_⟩
    intro n line stored
    obtain ⟨l, mem, same⟩ := List.mem_map.mp stored
    cases same
    exact ⟨rfl, program.bounded l mem, program.nonempty l mem⟩

/-- A failing line fails for a machine. -/
theorem exists_fails {calls : List Command} {reports : List Error} {n : Option Nat} {e : Error}
    {w : Work} (h : Work.Fails ⟨ofSession s, calls, reports⟩ n e w) :
    ∃ (m : Machine) (l : Line), m.Fails l e := by
  cases h with
  | step running place found failed =>
      obtain ⟨r, run⟩ := Option.isSome_iff_exists.mp (state_eq_running_iff.mp running)
      rw [advance_ofSession run] at failed
      exact ⟨_, _, (exists_line_eq_error_iff _ calls reports).mp ⟨_, failed⟩⟩
  | @direct line queue e w direct waiting failed =>
      exact ⟨_, _, (exists_line_eq_error_iff { s with queue } calls reports).mp ⟨_, failed⟩⟩

/-- Whatever occurs between two lines keeps the invariant. A break that is requested then is
reported behind the rejected lines with the number of a line of the program that runs. No
slice reports a fault of the interpreter, since nothing that was rejected is one and no line
raises one. -/
theorem invariant_of_occurs {i : Interpreter} (h : Occurs i) (calls : List Command)
    (reports : List Error) :
    i.Invariant ∧
    (i.state = .running → ∃ n ∈ i.lines, (i.lines[i.counter]? <|> i.lines.back?) = some n ∧
      ∀ budget, ∃ activity w later,
        Work.execute ⟨i.interrupt, calls, reports⟩ budget = some (activity, w) ∧
          w.calls = calls ++ i.pending.flatMap Error.characters ++
            ("?BREAK IN ".toList ++ Decimal.print n ++ ['\n']).map .character ++ later) ∧
    (∀ budget, ∃ activity w more,
      Work.execute ⟨i, calls, reports⟩ budget = some (activity, w) ∧
        w.reports = reports ++ more ∧ ∀ e ∈ more, e.kind ≠ .internalError) ∧
    (∀ e ∈ i.pending, e.kind ≠ .internalError) ∧
    ∀ n e w, Work.Fails ⟨i, calls, reports⟩ n e w → e.kind ≠ .internalError := by
  obtain ⟨s, sound, rfl⟩ := h.exists_sound
  refine ⟨invariant_ofSession sound, ?_, ?_, fun e pending => (sound.rejected e pending).not_internal,
    ?_⟩
  · intro running
    obtain ⟨r, run⟩ := Option.isSome_iff_exists.mp (state_eq_running_iff.mp running)
    obtain ⟨n, mem, pending⟩ := sound.machine.exists_pendingLine? run
    have lines := lines_ofSession run
    have next : ((ofSession s).lines[(ofSession s).counter]? <|> (ofSession s).lines.back?) =
        some n := by
      rw [place_ofSession run, lines]
      exact pending
    refine ⟨n, lines ▸ mem, next, fun budget => ?_⟩
    have requested : s.interrupt.Sound := ⟨sound.machine, sound.queue, sound.rejected⟩
    have executed := Work.execute_ofSession requested budget calls reports
    rw [Session.execute_interrupt_of_running run pending budget] at executed
    let stopped : Session := { machine := s.machine.halt, queue := s.queue }
    refine ⟨_, _, (stopped.execute budget).output.toList, executed, ?_⟩
    simp only [Slice.behind_output, Array.toList_append, List.append_assoc]
    rfl
  · intro budget
    refine ⟨_, _, _, Work.execute_ofSession sound budget calls reports, rfl, ?_⟩
    intro e reported
    obtain ⟨d, mem, error⟩ := List.mem_filterMap.mp reported
    exact sound.kind_of_mem_deeds mem error
  · intro n e w fails
    obtain ⟨m, l, fails⟩ := exists_fails fails
    exact fails.kind_ne.2

/-- A program stopped inside its loop by the end of a slice, then edited while it runs. -/
def midLoop : Session :=
  ((Session.initial.enterAll
    ["10 FOR I=1 TO 3".toList, "20 NEXT".toList, "RUN".toList]).execute 1).session.enterAll
      ["10".toList]

theorem invariant_of_occurs_midLoop :
    let i := ofSession midLoop
    Occurs i ∧ i.state = .running ∧ i.lines = #[10, 20] ∧ i.counter = 1 ∧ i.loops.size = 1 ∧
      i.listing.lineNumbers = [20] ∧ i.Invariant ∧
      ∃ activity w later, Work.execute { interpreter := i.interrupt } 7 = some (activity, w) ∧
        w.calls = "?BREAK IN 20\n".toList.map .character ++ later := by
  intro i
  have occurs : Occurs i := .reached <| reachable_iff.mpr
    ⟨midLoop, ((Session.Reachable.initial.enterAll _).execute 1).enterAll _, rfl⟩
  have running : i.state = .running := by decide +kernel
  have lines : i.lines = #[10, 20] := by decide +kernel
  have counter : i.counter = 1 := by decide +kernel
  obtain ⟨invariant, breaks, -⟩ := invariant_of_occurs occurs [] []
  obtain ⟨n, -, next, broken⟩ := breaks running
  rw [lines, counter] at next
  obtain rfl : 20 = n := Option.some.inj next
  obtain ⟨activity, w, later, executed, written⟩ := broken 7
  have pending : i.pending = [] := by decide +kernel
  rw [pending] at written
  exact ⟨occurs, running, lines, counter, by decide +kernel, by decide +kernel, invariant,
    activity, w, later, executed, written⟩

end Interpreter

end LineBasic
