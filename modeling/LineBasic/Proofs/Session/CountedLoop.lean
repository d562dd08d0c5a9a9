import LineBasic.Proofs.Session.Rounds

/-!
# Running a counted loop

A session at rest that is told to run its program works on nothing else, so what it
does is known as soon as the run is. Main statement: `counted_loop_runs`, on what the
run of a counted loop does and how long it takes.
-/

namespace LineBasic

namespace Session

open Machine

/-- A stopped session without work that is told to run its program does just that. -/
theorem run_from_rest {s : Session} (direct : s.machine.run = none) (queue : s.queue = [])
    (rejected : s.rejected = []) (budget : Nat) :
    (s.enter "RUN".toList).1.deeds budget =
        .direct runLine s.machine :: workDeeds budget [] s.machine.start ∧
      ∃ output, (s.enter "RUN".toList).1.execute budget =
        work budget [] s.machine.start output := by
  have entered : (s.enter "RUN".toList).1 = { s with queue := [runLine] } := by
    rw [enter_run, queue, halt_of_run_eq_none direct]
    rfl
  obtain ⟨done, executed⟩ :=
    run_when_idle (s := { s with queue := [runLine] }) direct rfl statement_runLine budget
  rw [entered]
  refine ⟨done.trans ?_, executed⟩
  rw [rejected]
  rfl

/-- A counted loop makes its passes and ends by itself, after an exact number of steps:
one to open the loop, one for each line of each pass and one to see the end. In the
last pass either the loop is closed or its variable overflows. -/
theorem counted_loop_runs {s : Session} (direct : s.machine.run = none) (queue : s.queue = [])
    (rejected : s.rejected = []) (ascending : s.machine.program.Ascending)
    (loop : CountedLoop s.machine) :
    let s' := (s.enter "RUN".toList).1
    let steps := loop.rounds * (loop.body.length + 1) + 2
    (∀ n, n < steps → (s'.execute n).activity = .running) ∧
    ∃ (opening : Machine) (passes : List (List Machine)) (ending : Machine),
      opening.upcoming? = some loop.first ∧
      passes.length = loop.rounds ∧ (∀ i pass, passes[i]? = some pass → loop.Pass i pass) ∧
      ending.upcoming? = none ∧
      ∀ n, steps ≤ n →
        (s'.execute n).activity = .stopped ∧
        s'.deeds n = .direct runLine s.machine ::
          (opening :: passes.flatten ++ [ending]).map .step ∧
        let m := (s'.execute n).session.machine
        m.run = none ∧
        (∀ w : Int32, w.toInt = loop.a.toInt + loop.rounds * loop.s.toInt →
          m.vars.fetch loop.name = .integer w ∧ m.loops.size = 0) ∧
        ((∀ w : Int32, w.toInt ≠ loop.a.toInt + loop.rounds * loop.s.toInt) →
          (∃ closing, passes.flatten.getLast? = some closing ∧
            closing.upcoming? = some loop.last ∧
            (Deed.step closing).output = ("?ERROR: OVERFLOW IN ".toList ++
              Decimal.print loop.last.number ++ ['\n']).map .character) ∧
          ∃ w : Int32, w.toInt = loop.a.toInt + ((loop.rounds - 1 : Nat) : Int) * loop.s.toInt ∧
            m.vars.fetch loop.name = .integer w) := by
  intro s' steps
  obtain ⟨started, first, arrived⟩ := loop.opening ascending
  have positive := loop.rounds_pos
  have value : loop.a.toInt = loop.valueIn 0 := by simp [CountedLoop.valueIn]
  have all : 0 + (loop.rounds - 1 + 1) = loop.rounds := by omega
  obtain ⟨passes, closing, ending, stretch, length, pass, last, passed⟩ :=
    arrived.rounds ascending value all
  replace length : passes.length = loop.rounds := by omega
  replace pass : ∀ i p, passes[i]? = some p → loop.Pass i p := by
    intro i p hp
    rw [← Nat.zero_add i]
    exact pass i p hp
  obtain ⟨unfinished, nothing, ended⟩ := passed.ending ascending
  have whole : Runs s.machine.start (s.machine.start :: passes.flatten ++ [ending]) ending.halt :=
    (Runs.cons started stretch).append (ended ▸ .single unfinished)
  have count : (s.machine.start :: passes.flatten ++ [ending]).length = steps := by
    simp [CountedLoop.length_flatten length pass, steps]
  refine ⟨?_, s.machine.start, passes, ending, first, length, pass, nothing, ?_⟩
  · intro n hn
    obtain ⟨-, output, executed⟩ := run_from_rest direct queue rejected n
    rw [executed]
    exact running_of_runs whole (count ▸ hn) output
  · intro n hn
    obtain ⟨rest, rfl⟩ := Nat.exists_eq_add_of_le hn
    obtain ⟨done, output, executed⟩ := run_from_rest direct queue rejected (steps + rest)
    obtain ⟨more, worked⟩ := work_of_runs whole rest output
    have worked : s'.execute (steps + rest) =
        ⟨.stopped, { machine := ending.halt }, output ++ more⟩ := by
      rw [executed, ← count, worked, work_done rest rfl]
    have deeds : s'.deeds (steps + rest) = .direct runLine s.machine ::
        (s.machine.start :: passes.flatten ++ [ending]).map .step := by
      rw [done, ← count, workDeeds_of_runs whole, workDeeds_done rest rfl, List.append_nil]
    rw [worked]
    refine ⟨rfl, deeds, rfl, passed.fits, ?_⟩
    intro overflows
    obtain ⟨upcoming, reported, value⟩ := passed.overflows overflows
    have written := (Deed.output_of_error? reported).trans (Error.characters_inLine .overflow _)
    exact ⟨⟨closing, last, upcoming, written⟩, value⟩

/-- A loop that counts down. The line in its body is no statement. -/
def countdown : Session :=
  initial.enterAll ["10 FOR I=5 TO 2 STEP -2".toList, "20 FROB".toList, "30 NEXT I".toList]

def countdownLoop : CountedLoop countdown.machine where
  name := ['I']
  first := ⟨10, "FOR I=5 TO 2 STEP -2".toList⟩
  body := [⟨20, "FROB".toList⟩]
  last := ⟨30, "NEXT I".toList⟩
  lines := by decide +kernel
  start := .ofText "5".toList
  limit := .ofText "2".toList
  stride := some (.ofText "-2".toList)
  opens := eq_ok_of_toOption (by decide +kernel)
  target := some ['I']
  closes := eq_ok_of_toOption (by decide +kernel)
  own := .inr rfl
  spared := by
    intro line hline s hs
    have unread : (⟨20, "FROB".toList⟩ : ProgramLine).toLine.statement.toOption = none := by
      decide +kernel
    rw [List.mem_singleton.mp hline] at hs
    rw [hs] at unread
    cases unread
  a := 5
  b := 2
  s := -2
  first_value := eq_ok_of_toOption (by decide +kernel)
  last_value := eq_ok_of_toOption (by decide +kernel)
  step_value := eq_ok_of_toOption (by decide +kernel)
  step_ne_zero := by decide
  room := .inr (by decide)

/-- A loop that ends at the greatest integer. -/
def ascent : Session :=
  initial.enterAll ["10 FOR I=2147483646 TO 2147483647".toList, "20 FROB".toList,
    "30 NEXT".toList]

def ascentLoop : CountedLoop ascent.machine where
  name := ['I']
  first := ⟨10, "FOR I=2147483646 TO 2147483647".toList⟩
  body := [⟨20, "FROB".toList⟩]
  last := ⟨30, "NEXT".toList⟩
  lines := by decide +kernel
  start := .ofText "2147483646".toList
  limit := .ofText "2147483647".toList
  stride := none
  opens := eq_ok_of_toOption (by decide +kernel)
  target := none
  closes := eq_ok_of_toOption (by decide +kernel)
  own := .inl rfl
  spared := countdownLoop.spared
  a := 2147483646
  b := 2147483647
  s := 1
  first_value := eq_ok_of_toOption (by decide +kernel)
  last_value := eq_ok_of_toOption (by decide +kernel)
  step_value := rfl
  step_ne_zero := by decide
  room := .inr (by decide)

/-- Two passes, with the values 5 and 3, take six steps and leave the value 1. The passes with
the two greatest integers take as many, and the second one leaves the greatest of them. -/
theorem counted_loop_runs_countdown_ascent :
    (countdownLoop.rounds = 2 ∧
      ((countdown.enter "RUN".toList).1.execute 5).activity = .running ∧
      ((countdown.enter "RUN".toList).1.execute 6).activity = .stopped ∧
      ((countdown.enter "RUN".toList).1.execute 6).session.machine.vars.fetch ['I'] =
        .integer 1 ∧
      ((countdown.enter "RUN".toList).1.execute 6).session.machine.loops.size = 0) ∧
    ascentLoop.rounds = 2 ∧
      ((ascent.enter "RUN".toList).1.execute 6).activity = .stopped ∧
      (∃ closing, .step closing ∈ (ascent.enter "RUN".toList).1.deeds 6 ∧
        (Deed.step closing).output = "?ERROR: OVERFLOW IN 30\n".toList.map .character) ∧
      ((ascent.enter "RUN".toList).1.execute 6).session.machine.vars.fetch ['I'] =
        .integer 2147483647 := by
  constructor
  · have ascending : countdown.machine.program.Ascending := by
      rw [Program.Ascending]
      decide +kernel
    have rounds : countdownLoop.rounds = 2 := by decide +kernel
    obtain ⟨running, opening, passes, ending, -, -, -, -, stopped⟩ :=
      counted_loop_runs rfl rfl rfl ascending countdownLoop
    rw [rounds] at running stopped
    obtain ⟨activity, -, -, fits, -⟩ := stopped 6 (by decide)
    exact ⟨rounds, running 5 (by decide), activity, fits 1 (by decide)⟩
  · have ascending : ascent.machine.program.Ascending := by
      rw [Program.Ascending]
      decide +kernel
    have rounds : ascentLoop.rounds = 2 := by decide +kernel
    obtain ⟨-, opening, passes, ending, -, -, -, -, stopped⟩ :=
      counted_loop_runs rfl rfl rfl ascending ascentLoop
    rw [rounds] at stopped
    obtain ⟨activity, deeds, -, -, overflows⟩ := stopped 6 (by decide)
    have outside (w : Int32) : w.toInt ≠ ascentLoop.a.toInt + (2 : Nat) * ascentLoop.s.toInt :=
      Int.ne_of_lt w.toInt_lt
    obtain ⟨⟨closing, last, -, written⟩, w, value, left⟩ := overflows outside
    have greatest : w = 2147483647 := Int32.toInt_inj.mp value
    refine ⟨rounds, activity, ⟨closing, ?_, written⟩, greatest ▸ left⟩
    have mem : closing ∈ opening :: passes.flatten ++ [ending] :=
      List.mem_append_left _ (List.mem_cons_of_mem _ (List.mem_of_getLast? last))
    rw [deeds]
    exact List.mem_cons_of_mem _ (List.mem_map_of_mem mem)

end Session

end LineBasic
